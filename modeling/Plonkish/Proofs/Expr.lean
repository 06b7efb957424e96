import Plonkish.Expr.Postorder
import Plonkish.Proofs.Outcome

/-!
# Parts of expressions

An expression is evaluated by what is done at its leaves, from left to right; the operators
neither fail nor have an effect.

* `Expr.leaves`: the leaves, in the order in which they are evaluated.
* `Expr.subtrees`, `Expr.scalings`: the subtrees, and those that scale by a literal.
* `Algebra.map_unit_fold`: an evaluation has the effects of its leaves.
* `Algebra.verdict_fold`: an evaluation fails as the first leaf does that fails.
-/

namespace Plonkish

variable {ν : Type}

/-- The leaves of a tree, from left to right. -/
def Expr.leaves : Expr ν → List (Leaf ν)
  | .leaf l => [l]
  | .neg e => e.leaves
  | .sum a b => a.leaves ++ b.leaves
  | .product a b => a.leaves ++ b.leaves

namespace Expr

/-- The subtrees of a tree in pre-order, itself included. -/
def subtrees : Expr ν → List (Expr ν)
  | .leaf l => [.leaf l]
  | .neg e => .neg e :: e.subtrees
  | .sum a b => .sum a b :: (a.subtrees ++ b.subtrees)
  | .product a b => .product a b :: (a.subtrees ++ b.subtrees)

/-- Whether an expression is a literal. -/
def isConstant : Expr ν → Bool
  | .leaf (.constant _) => true
  | _ => false

/-- Whether an expression is a product with a literal operand. -/
def isScaling : Expr ν → Bool
  | .product a b => a.isConstant || b.isConstant
  | _ => false

/-- The products with a literal operand among the subtrees, in pre-order. -/
def scalings (e : Expr ν) : List (Expr ν) := e.subtrees.filter isScaling

@[simp] theorem scalings_leaf (l : Leaf ν) : (leaf l).scalings = [] := rfl

@[simp] theorem scalings_neg (e : Expr ν) : e.neg.scalings = e.scalings := rfl

@[simp] theorem scalings_sum (a b : Expr ν) : (sum a b).scalings = a.scalings ++ b.scalings :=
  List.filter_append ..

theorem scalings_product (a b : Expr ν) :
    (product a b).scalings =
      (if a.isConstant || b.isConstant then [product a b] else []) ++
        (a.scalings ++ b.scalings) := by
  rw [scalings, subtrees, List.filter_cons, List.filter_append]
  cases h : a.isConstant || b.isConstant <;> simp [isScaling, h, scalings]

end Expr

/-- An evaluation has the effects of its leaves, from left to right. -/
theorem Algebra.map_unit_fold {m : Type → Type} [Monad m] [LawfulMonad m] {α : Type}
    (A : Algebra ν m α) (e : Expr ν) :
    (fun _ => ()) <$> A.fold e = forM e.leaves fun l => (fun _ => ()) <$> A.leaf l := by
  have hpair (x y : m α) (f : α → α → α) :
      (fun _ => ()) <$> (do let a ← x; let b ← y; return f a b) =
        (do (fun _ => ()) <$> x; (fun _ => ()) <$> y) := by
    simp
  induction e with
  | leaf l => simp [fold, Expr.leaves]
  | neg e ih =>
    rw [Expr.leaves, ← ih, fold]
    simp
  | sum a b iha ihb => rw [fold, hpair, iha, ihb, Expr.leaves, List.forM_append]
  | product a b iha ihb => rw [fold, hpair, iha, ihb, Expr.leaves, List.forM_append]

open Outcome

/-- An evaluation fails as the first leaf does that fails. -/
theorem Algebra.verdict_fold {ε α : Type} (A : Algebra ν (Except ε) α) (e : Expr ν) :
    verdict (A.fold e) = forM e.leaves fun l => verdict (A.leaf l) :=
  A.map_unit_fold e

end Plonkish
