import Plonkish.Column
import Plonkish.Scalar

/-!
# Laid-out expressions

Expressions over numbered variables and constants, as they are written to the wire. A product with
a constant is a node of its own. The index of a challenge is the quantity that names it in the
raw expression. Given values for the positions of constants and of variables, an expression has a
value in the scalar field.

* `Ir.preorder_eq_nodes`: the walk with a stack lists the nodes in recursive pre-order.
-/

namespace Plonkish

/-- An expression over numbered variables and constants. -/
inductive Ir (ν : Type := Int)
  /-- The constant at a position of the table. -/
  | const (index : Int)
  /-- The variable at a position of its class. -/
  | var (cls : VariableClass) (index : ν)
  | neg (e : Ir ν)
  | sum (lhs rhs : Ir ν)
  | product (lhs rhs : Ir ν)
  /-- The product with the constant at a position of the table. -/
  | scaled (e : Ir ν) (index : Int)
  deriving DecidableEq

namespace Ir

variable {ν μ : Type}

instance : Inhabited (Ir ν) := ⟨.const 0⟩

/-- A node without its operands. -/
inductive Node (ν : Type := Int)
  | const (index : Int)
  | var (cls : VariableClass) (index : ν)
  | neg
  | sum
  | product
  | scaled (index : Int)
  deriving DecidableEq

namespace Node

/-- The name of a node's type. -/
def name : Node ν → String
  | .const _ => "ConstantRef"
  | .var _ _ => "Var"
  | .neg => "Negated"
  | .sum => "Sum"
  | .product => "Product"
  | .scaled _ => "Scaled"

/-- The position in the table of constants that a node refers to. -/
def constant? : Node ν → Option Int
  | .const index => some index
  | .scaled index => some index
  | _ => none

end Node

/-- The number of nodes. -/
def size : Ir ν → Nat
  | .const _ => 1
  | .var _ _ => 1
  | .neg e => e.size + 1
  | .sum a b => a.size + b.size + 1
  | .product a b => a.size + b.size + 1
  | .scaled e _ => e.size + 1

/-- The operands of the outermost node, left before right. -/
def operands : Ir ν → List (Ir ν)
  | .const _ => []
  | .var _ _ => []
  | .neg e => [e]
  | .sum a b => [a, b]
  | .product a b => [a, b]
  | .scaled e _ => [e]

/-- The outermost node without its operands. -/
def head : Ir ν → Node ν
  | .const i => .const i
  | .var cls i => .var cls i
  | .neg _ => .neg
  | .sum _ _ => .sum
  | .product _ _ => .product
  | .scaled _ i => .scaled i

/-! ## Pre-order -/

/-- The nodes of a tree, operators before operands and left before right. -/
def nodes : Ir ν → List (Node ν)
  | .const i => [.const i]
  | .var cls i => [.var cls i]
  | .neg e => .neg :: e.nodes
  | .sum a b => .sum :: (a.nodes ++ b.nodes)
  | .product a b => .product :: (a.nodes ++ b.nodes)
  | .scaled e i => .scaled i :: e.nodes

/-- The number of nodes of a forest. -/
def forestSize : List (Ir ν) → Nat
  | [] => 0
  | e :: es => e.size + forestSize es

/-- Lists the nodes of a stack of trees behind those listed so far (the latest first). -/
def walk (done : List (Node ν)) : List (Ir ν) → List (Node ν)
  | [] => done.reverse
  | .const i :: rest => walk (.const i :: done) rest
  | .var cls i :: rest => walk (.var cls i :: done) rest
  | .neg e :: rest => walk (.neg :: done) (e :: rest)
  | .sum a b :: rest => walk (.sum :: done) (a :: b :: rest)
  | .product a b :: rest => walk (.product :: done) (a :: b :: rest)
  | .scaled e i :: rest => walk (.scaled i :: done) (e :: rest)
termination_by forest => forestSize forest
decreasing_by all_goals simp [forestSize, size] <;> omega

/-- The nodes of a tree in pre-order, listed with a stack. -/
def preorder (e : Ir ν) : List (Node ν) := walk [] [e]

theorem walk_eq (done : List (Node ν)) (forest : List (Ir ν)) :
    walk done forest = done.reverse ++ forest.flatMap nodes := by
  fun_induction walk done forest <;> simp_all [nodes]

theorem preorder_eq_nodes (e : Ir ν) : e.preorder = e.nodes := by
  simp [preorder, walk_eq]

/-- Whether two trees list the same nodes. -/
def sameNodes [DecidableEq ν] (a b : Ir ν) : Bool := a.preorder == b.preorder

/-- The positions in the table of constants that a tree refers to, in pre-order. -/
def constants (e : Ir ν) : List Int := e.preorder.filterMap Node.constant?

/-- The expression with the indices of its variables changed. -/
def map (f : ν → μ) : Ir ν → Ir μ
  | .const i => .const i
  | .var cls i => .var cls (f i)
  | .neg e => .neg (e.map f)
  | .sum a b => .sum (a.map f) (b.map f)
  | .product a b => .product (a.map f) (b.map f)
  | .scaled e i => .scaled (e.map f) i

/-! ## Values -/

/-- The value of an expression. A scaled expression is the product with its constant. -/
def eval (constant : (index : Int) → Scalar)
    (var : VariableClass → (index : ν) → Scalar) : Ir ν → Scalar
  | .const i => constant i
  | .var cls i => var cls i
  | .neg e => -e.eval constant var
  | .sum x y => x.eval constant var + y.eval constant var
  | .product x y => x.eval constant var * y.eval constant var
  | .scaled e i => e.eval constant var * constant i

end Ir

end Plonkish
