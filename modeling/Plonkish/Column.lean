import Plonkish.Quantity

/-!
# Columns, rotations and queries

A circuit is a table. Its columns are of three kinds, and an expression queries a column at a row
offset, the rotation. Indices, phases and magnitudes are quantities of any one type, which is `Int`
unless it is named. The variables of laid-out expressions are queries of the three kinds and
challenges.

* `Rotation.toInt_ofInt`: a signed offset is kept.
* `Column.isIn_int`, `Query.position?_int`: with integers, comparison by value is equality.
-/

namespace Plonkish

/-- The kind of a column: filled in by the prover, by the key, or by the public input. -/
inductive ColumnKind
  | advice
  | fixed
  | inst
  deriving DecidableEq, Repr, Inhabited

/-- The name of a kind. -/
def ColumnKind.name : ColumnKind → String
  | .advice => "advice"
  | .fixed => "fixed"
  | .inst => "instance"

/-- A column. The phase says when the prover fills in an advice column. -/
structure Column (ν : Type := Int) where
  kind : ColumnKind
  index : ν
  phase : ν
  deriving DecidableEq, Inhabited

namespace Column

variable {ν μ : Type}

/-- The column with its quantities changed. -/
def map (f : ν → μ) (c : Column ν) : Column μ := ⟨c.kind, f c.index, f c.phase⟩

variable [Quantity ν]

/-- The column by which all of equal value are represented. -/
def canonical (c : Column ν) : Column ν := c.map Quantity.canonical

/-- Whether a column can be looked up. -/
def isAtom (c : Column ν) : Bool := Quantity.isAtom c.index && Quantity.isAtom c.phase

/-- The text of a column. It shows the phase of an advice column only. -/
def toText (c : Column ν) : Text :=
  let name : Text := c.kind.name ++ "[" ++ Quantity.shown c.index ++ "]"
  match c.kind with
  | .advice => name ++ "@phase" ++ Quantity.shown c.phase
  | _ => name

/-- Whether a column is in a list, compared by value. -/
def isIn [DecidableEq ν] (c : Column ν) (columns : List (Column ν)) : Bool :=
  (columns.map canonical).contains c.canonical

@[simp] theorem canonical_int (c : Column) : c.canonical = c := rfl

theorem map_canonical_int (columns : List Column) : columns.map canonical = columns :=
  List.map_id' columns

@[simp] theorem isAtom_int (c : Column) : c.isAtom = true := rfl

@[simp] theorem isIn_int (c : Column) (columns : List Column) :
    c.isIn columns = decide (c ∈ columns) := by
  rw [isIn, map_canonical_int, canonical_int, List.contains_eq_mem]

end Column

/-- A row offset as a magnitude and a direction. -/
structure Rotation (ν : Type := Int) where
  magnitude : ν
  forward : Bool := true
  deriving DecidableEq, Inhabited

namespace Rotation

/-- The rotation by a signed offset; the offset zero points forward. -/
def ofInt (offset : Int) : Rotation :=
  if offset < 0 then ⟨-offset, false⟩ else ⟨offset, true⟩

/-- The signed offset of a rotation. -/
def toInt (r : Rotation) : Int :=
  if r.forward then r.magnitude else -r.magnitude

theorem toInt_ofInt (offset : Int) : (ofInt offset).toInt = offset := by
  unfold ofInt toInt
  split <;> simp

variable {ν μ : Type}

/-- The rotation with its magnitude changed. -/
def map (f : ν → μ) (r : Rotation ν) : Rotation μ := ⟨f r.magnitude, r.forward⟩

variable [Quantity ν]

/-- The rotation by which all of equal value are represented. -/
def canonical (r : Rotation ν) : Rotation ν := r.map Quantity.canonical

/-- The value that describes the signed offset of a rotation. -/
def offset (r : Rotation ν) : Json :=
  let magnitude := Quantity.toJson r.magnitude
  if r.forward then magnitude else magnitude.negated

theorem offset_int (r : Rotation) : r.offset = .int r.toInt := by
  unfold offset toInt
  split <;> rfl

end Rotation

/-- A column queried at a rotation. -/
structure Query (ν : Type := Int) where
  column : Column ν
  rotation : Rotation ν
  deriving DecidableEq, Inhabited

namespace Query

variable {ν μ : Type}

/-- The query with its quantities changed. -/
def map (f : ν → μ) (q : Query ν) : Query μ := ⟨q.column.map f, q.rotation.map f⟩

variable [Quantity ν]

/-- The query by which all of equal value are represented. -/
def canonical (q : Query ν) : Query ν := q.map Quantity.canonical

/-- Whether a query can be looked up. -/
def isAtom (q : Query ν) : Bool := q.column.isAtom && Quantity.isAtom q.rotation.magnitude

/-- The first position of a query in a list, compared by value. -/
def position? [DecidableEq ν] (q : Query ν) (queries : List (Query ν)) : Option Nat :=
  (queries.map canonical).idxOf? q.canonical

@[simp] theorem canonical_int (q : Query) : q.canonical = q := rfl

theorem map_canonical_int (queries : List Query) : queries.map canonical = queries :=
  List.map_id' queries

@[simp] theorem isAtom_int (q : Query) : q.isAtom = true := rfl

@[simp] theorem position?_int (q : Query) (queries : List Query) :
    q.position? queries = queries.idxOf? q := by
  rw [position?, map_canonical_int, canonical_int]

end Query

/-! ## Classes of variables -/

/-- A class of variables. -/
inductive VariableClass
  | advice
  | fixed
  | inst
  | challenge
  deriving DecidableEq, Repr, Inhabited

namespace VariableClass

/-- The name of a class. -/
def name : VariableClass → String
  | .advice => "advice"
  | .fixed => "fixed"
  | .inst => "instance"
  | .challenge => "challenge"

/-- The class of the queries to columns of a kind. -/
def ofKind : ColumnKind → VariableClass
  | .advice => .advice
  | .fixed => .fixed
  | .inst => .inst

/-- All classes, in the order in which they share the index space. -/
def all : List VariableClass := [.advice, .fixed, .inst, .challenge]

end VariableClass

end Plonkish
