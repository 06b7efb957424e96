import Plonkish.Expr.Postorder

/-!
# Degrees of expressions

Queries and selectors count one, literals and challenges nothing. A sum has the degree of its
larger operand, a product the sum of its operands' degrees.

* `Expr.degree_eq_fold`: the degree computed with a stack is the one computed by recursion.
-/

namespace Plonkish

/-- The degree of a leaf. -/
def Leaf.degree {ν : Type} : Leaf ν → Nat
  | .query _ => 1
  | .selector _ => 1
  | .constant _ => 0
  | .challenge _ _ => 0

namespace Expr

variable {ν : Type}

/-- The evaluation of an expression by degrees. -/
def degreeAlgebra : Algebra ν Id Nat where
  leaf := Leaf.degree
  neg := id
  sum := max
  product := (· + ·)

/-- The degree of an expression as a polynomial in its queries. -/
def degree (e : Expr ν) : Nat := degreeAlgebra.value e

theorem degree_eq_fold (e : Expr ν) : e.degree = degreeAlgebra.fold e :=
  Algebra.value_eq_fold degreeAlgebra e

@[simp] theorem degree_leaf (l : Leaf ν) : (leaf l).degree = l.degree := by
  simp [degree_eq_fold, Algebra.fold, degreeAlgebra]

@[simp] theorem degree_neg (e : Expr ν) : (neg e).degree = e.degree := by
  simp [degree_eq_fold, Algebra.fold, degreeAlgebra, bind, pure]

@[simp] theorem degree_sum (a b : Expr ν) : (sum a b).degree = max a.degree b.degree := by
  simp [degree_eq_fold, Algebra.fold, degreeAlgebra, bind, pure]

@[simp] theorem degree_product (a b : Expr ν) :
    (product a b).degree = a.degree + b.degree := by
  simp [degree_eq_fold, Algebra.fold, degreeAlgebra, bind, pure]

end Expr

end Plonkish
