import Plonkish.Ir

/-!
# Texts of laid-out expressions

An expression is written with a stack of what is still to be written, in one of two styles. The
identifier reads like a formula. A scaled expression is written without parentheses, so two trees
may share an identifier, but then they have the same value. The description names every node, and
no two trees share one.

* `Ir.Style.write_eq`: writing with a stack gives any text that is made of its pieces.
* `Ir.identifier_eq_formula`: writing with a stack gives the recursive formula.
* `Ir.description_eq_nested`: writing with a stack gives the recursive description.
-/

namespace Plonkish

/-- The label of a class of variables in identifiers. -/
def VariableClass.label : VariableClass → String
  | .advice => "advice_query"
  | .fixed => "fixed_query"
  | .inst => "instance_query"
  | .challenge => "challenge"

namespace Ir

variable {ν : Type}

/-! ## Writing with a stack -/

/-- What is still to be written: an expression, or a text as it stands. -/
inductive Piece (ν : Type := Int)
  | node (e : Ir ν)
  | text (s : String)

/-- The number of rounds that a stack of pieces takes at most. -/
def pieceWork : List (Piece ν) → Nat
  | [] => 0
  | .text _ :: rest => 1 + pieceWork rest
  | .node e :: rest => 6 * e.size + pieceWork rest

/-- A way of writing: what the text of an expression consists of. -/
structure Style (ν : Type := Int) where
  pieces : Ir ν → List (Piece ν)
  pieceWork_pieces (e : Ir ν) (rest : List (Piece ν)) :
    pieceWork (pieces e ++ rest) < pieceWork (.node e :: rest)

/-- Appends a stack of pieces to a text. -/
def Style.write (style : Style ν) (out : String) : List (Piece ν) → String
  | [] => out
  | .text s :: rest => style.write (out ++ s) rest
  | .node e :: rest => style.write out (style.pieces e ++ rest)
termination_by pieces => pieceWork pieces
decreasing_by
  · simp [pieceWork]
  · exact style.pieceWork_pieces e rest

/-- The text of a piece, given that of each expression. -/
def Piece.spelledBy (text : Ir ν → String) : Piece ν → String
  | .node e => text e
  | .text s => s

/-- The texts of pieces, one behind the other. -/
def spelledPieces (text : Ir ν → String) : List (Piece ν) → String
  | [] => ""
  | p :: rest => p.spelledBy text ++ spelledPieces text rest

theorem spelledPieces_append (text : Ir ν → String) (xs ys : List (Piece ν)) :
    spelledPieces text (xs ++ ys) = spelledPieces text xs ++ spelledPieces text ys := by
  induction xs with
  | nil => simp [spelledPieces]
  | cons p xs ih => simp [spelledPieces, ih, String.append_assoc]

/-- If the text of each expression is made of its pieces, it is what is written. -/
theorem Style.write_eq {style : Style ν} {text : Ir ν → String}
    (h : ∀ e, spelledPieces text (style.pieces e) = text e) (out : String)
    (pieces : List (Piece ν)) : style.write out pieces = out ++ spelledPieces text pieces := by
  fun_induction Style.write style out pieces with
  | case1 => simp [spelledPieces]
  | case2 out s rest ih => simp [ih, spelledPieces, Piece.spelledBy, String.append_assoc]
  | case3 out e rest ih =>
    rw [ih, spelledPieces_append, h]
    rfl

theorem Style.write_node {style : Style ν} {text : Ir ν → String}
    (h : ∀ e, spelledPieces text (style.pieces e) = text e) (e : Ir ν) :
    style.write "" [.node e] = text e := by
  simp [write_eq h, spelledPieces, Piece.spelledBy]

variable [Quantity ν]

/-! ## Identifiers -/

/-- The text of a constant in an identifier. -/
def constantText (index : Int) : String := s!"constant_index[{index}]"

/-- The style of identifiers. -/
def formulaStyle : Style ν where
  pieces
    | .const i => [.text (constantText i)]
    | .var cls i => [.text s!"{cls.label}[{(Quantity.toJson i).spelled}]"]
    | .neg e => [.text "(-", .node e, .text ")"]
    | .sum a b => [.text "(", .node a, .text "+", .node b, .text ")"]
    | .product a b => [.text "(", .node a, .text "*", .node b, .text ")"]
    | .scaled e i => [.node e, .text ("*" ++ constantText i)]
  pieceWork_pieces e rest := by cases e <;> simp [pieceWork, size] <;> omega

/-- The expression as a formula, written with a stack. -/
def identifier (e : Ir ν) : String := formulaStyle.write "" [.node e]

/-- The expression as a formula, by recursion. -/
def formula : Ir ν → String
  | .const i => constantText i
  | .var cls i => s!"{cls.label}[{(Quantity.toJson i).spelled}]"
  | .neg e => "(-" ++ e.formula ++ ")"
  | .sum a b => "(" ++ a.formula ++ "+" ++ b.formula ++ ")"
  | .product a b => "(" ++ a.formula ++ "*" ++ b.formula ++ ")"
  | .scaled e i => e.formula ++ ("*" ++ constantText i)

theorem spelledPieces_formula (e : Ir ν) :
    spelledPieces formula (formulaStyle.pieces e) = e.formula := by
  cases e <;> simp [spelledPieces, formulaStyle, Piece.spelledBy, formula, String.append_assoc]

theorem identifier_eq_formula (e : Ir ν) : e.identifier = e.formula :=
  Style.write_node spelledPieces_formula e

/-! ## Descriptions -/

/-- The texts of what a node holds beside its operands. -/
def Node.scalars : Node ν → List String
  | .const i => [toString i]
  | .var cls i => ["VarClass." ++ cls.name, (Quantity.toJson i).spelled]
  | .scaled i => [toString i]
  | _ => []

/-- The style of descriptions: the name of the node, and in parentheses its operands and what it
holds beside them. -/
def nestedStyle : Style ν where
  pieces e :=
    .text (e.head.name ++ "(") ::
      ((e.operands.map Piece.node ++ e.head.scalars.map Piece.text).intersperse (.text ", ") ++
        [.text ")"])
  pieceWork_pieces e rest := by
    cases e <;> simp [operands, head, Node.scalars, pieceWork, size] <;> omega

/-- The expression as nested node names, written with a stack. -/
def description (e : Ir ν) : String := nestedStyle.write "" [.node e]

/-- The expression as nested node names, by recursion. -/
def nested : Ir ν → String
  | .const i => "ConstantRef(" ++ toString i ++ ")"
  | .var cls i => "Var(" ++ ("VarClass." ++ cls.name) ++ ", " ++ (Quantity.toJson i).spelled ++ ")"
  | .neg e => "Negated(" ++ e.nested ++ ")"
  | .sum a b => "Sum(" ++ a.nested ++ ", " ++ b.nested ++ ")"
  | .product a b => "Product(" ++ a.nested ++ ", " ++ b.nested ++ ")"
  | .scaled e i => "Scaled(" ++ e.nested ++ ", " ++ toString i ++ ")"

theorem spelledPieces_nested (e : Ir ν) :
    spelledPieces nested (nestedStyle.pieces e) = e.nested := by
  cases e <;>
    simp [spelledPieces, nestedStyle, operands, head, Node.scalars, Piece.spelledBy, nested,
      Node.name, String.append_assoc]

theorem description_eq_nested (e : Ir ν) : e.description = e.nested :=
  Style.write_node spelledPieces_nested e

end Ir

end Plonkish
