import Plonkish.Column
import Plonkish.Scalar

/-!
# Raw expressions

The expressions of gates and arguments as a circuit states them, before any rewriting. Given values
for queries, challenges and selectors, an expression has a value in the scalar field.

* `Expr.canonical_int`: expressions with integers are equal in value only if they are equal.
-/

namespace Plonkish

/-- What an expression is built from. -/
inductive Leaf (ν : Type := Int)
  /-- A literal. -/
  | constant (v : Scalar)
  /-- The value of a column at a row offset. -/
  | query (q : Query ν)
  /-- A value drawn by the verifier. -/
  | challenge (index phase : ν)
  /-- A virtual selector, which must be gone before a circuit is laid out. -/
  | selector (index : ν)
  deriving DecidableEq

namespace Leaf

variable {ν μ : Type}

/-- The leaf with its quantities changed. -/
def map (f : ν → μ) : Leaf ν → Leaf μ
  | .constant v => .constant v
  | .query q => .query (q.map f)
  | .challenge index phase => .challenge (f index) (f phase)
  | .selector index => .selector (f index)

variable [Quantity ν]

/-- The leaf by which all of equal value are represented. -/
def canonical (l : Leaf ν) : Leaf ν := l.map Quantity.canonical

/-- Whether a leaf can be looked up. -/
def isAtom : Leaf ν → Bool
  | .constant _ => true
  | .query q => q.isAtom
  | .challenge index phase => Quantity.isAtom index && Quantity.isAtom phase
  | .selector index => Quantity.isAtom index

@[simp] theorem canonical_int (l : Leaf) : l.canonical = l := by
  cases l <;> rfl

end Leaf

/-- An expression tree. -/
inductive Expr (ν : Type := Int)
  | leaf (l : Leaf ν)
  | neg (e : Expr ν)
  | sum (lhs rhs : Expr ν)
  | product (lhs rhs : Expr ν)
  deriving DecidableEq

namespace Expr

variable {ν μ : Type}

instance : Inhabited (Expr ν) := ⟨.leaf (.constant 0)⟩

/-- A literal. -/
def constant (v : Scalar) : Expr ν := .leaf (.constant v)

/-- A query. -/
def query (q : Query ν) : Expr ν := .leaf (.query q)

instance : Neg (Expr ν) := ⟨.neg⟩

instance : Add (Expr ν) := ⟨.sum⟩

/-- A difference is a sum with a negated operand. -/
instance : Sub (Expr ν) := ⟨fun a b => .sum a (.neg b)⟩

instance : Mul (Expr ν) := ⟨.product⟩

/-- The number of nodes. -/
def size : Expr ν → Nat
  | .leaf _ => 1
  | .neg e => e.size + 1
  | .sum a b => a.size + b.size + 1
  | .product a b => a.size + b.size + 1

/-- Whether all leaves can be looked up. -/
def isAtom [Quantity ν] : Expr ν → Bool
  | .leaf l => l.isAtom
  | .neg e => e.isAtom
  | .sum a b => a.isAtom && b.isAtom
  | .product a b => a.isAtom && b.isAtom

/-- The expression with its quantities changed. -/
def map (f : ν → μ) : Expr ν → Expr μ
  | .leaf l => .leaf (l.map f)
  | .neg e => .neg (e.map f)
  | .sum a b => .sum (a.map f) (b.map f)
  | .product a b => .product (a.map f) (b.map f)

/-- The expression by which all of equal value are represented. -/
def canonical [Quantity ν] (e : Expr ν) : Expr ν := e.map Quantity.canonical

@[simp] theorem canonical_int (e : Expr) : e.canonical = e := by
  induction e with
  | leaf l => change Expr.leaf l.canonical = _; rw [l.canonical_int]
  | neg e ih => change Expr.neg e.canonical = _; rw [ih]
  | sum a b iha ihb => change Expr.sum a.canonical b.canonical = _; rw [iha, ihb]
  | product a b iha ihb => change Expr.product a.canonical b.canonical = _; rw [iha, ihb]

end Expr

/-! ## Values -/

/-- Values for what an expression is built from. -/
structure Assignment (ν : Type := Int) where
  query : Query ν → Scalar
  challenge : (index : ν) → Scalar
  selector : (index : ν) → Scalar

variable {ν : Type}

/-- The value of a leaf. A challenge is known by its index alone. -/
def Leaf.eval (a : Assignment ν) : Leaf ν → Scalar
  | .constant v => v
  | .query q => a.query q
  | .challenge index _ => a.challenge index
  | .selector index => a.selector index

/-- The value of an expression. -/
def Expr.eval (a : Assignment ν) : Expr ν → Scalar
  | .leaf l => l.eval a
  | .neg e => -e.eval a
  | .sum x y => x.eval a + y.eval a
  | .product x y => x.eval a * y.eval a

end Plonkish
