import Plonkish.Expr

/-!
# Expressions as postfix programs

The nodes of a tree are listed operands before operators and left before right. What stands at each
node is one step of a postfix program. Both the listing and the evaluation of such a program keep
their own stacks, so the depth of a tree costs no call depth. An evaluation is given by what it does
at the leaves, where it may have an effect, and at the operators. Beside each stands its definition
by recursion on the tree.

* `Expr.traversal_eq_postorderSubtrees`: listing with a stack gives the recursive post-order.
* `Expr.flatten_eq_postorder`: so does flattening.
* `Algebra.run_postorder`: running the post-order of a tree pushes the tree's value, and never
  lacks an operand.
* `Algebra.value_eq_fold`: evaluation with a stack is evaluation by recursion.
-/

namespace Plonkish

/-- One step of a postfix program. -/
inductive Step (ν : Type := Int)
  | leaf (l : Leaf ν)
  | neg
  | sum
  | product
  deriving DecidableEq

variable {ν : Type}

/-! ## Flattening -/

namespace Expr

/-- The operands of the outermost operator, left before right. -/
def operands : Expr ν → List (Expr ν)
  | .leaf _ => []
  | .neg e => [e]
  | .sum a b => [a, b]
  | .product a b => [a, b]

/-- The step of the outermost leaf or operator. -/
def head : Expr ν → Step ν
  | .leaf l => .leaf l
  | .neg _ => .neg
  | .sum _ _ => .sum
  | .product _ _ => .product

/-- The nodes of a tree, each with all below it, operands before operators and left before
right. -/
def postorderSubtrees : Expr ν → List (Expr ν)
  | .leaf l => [.leaf l]
  | .neg e => e.postorderSubtrees ++ [.neg e]
  | .sum a b => a.postorderSubtrees ++ b.postorderSubtrees ++ [.sum a b]
  | .product a b => a.postorderSubtrees ++ b.postorderSubtrees ++ [.product a b]

/-- The steps of a tree, operands before operators and left before right. -/
def postorder : Expr ν → List (Step ν)
  | .leaf l => [.leaf l]
  | .neg e => e.postorder ++ [.neg]
  | .sum a b => a.postorder ++ b.postorder ++ [.sum]
  | .product a b => a.postorder ++ b.postorder ++ [.product]

theorem postorderSubtrees_eq_operands (e : Expr ν) :
    e.postorderSubtrees = e.operands.flatMap postorderSubtrees ++ [e] := by
  cases e <;> simp [postorderSubtrees, operands]

theorem map_head_postorderSubtrees (e : Expr ν) : e.postorderSubtrees.map head = e.postorder := by
  induction e <;> simp_all [postorderSubtrees, postorder, head]

/-- A subtree that a traversal still has to list. It is expanded once its operands have been put
in front of it. -/
structure Visit (ν : Type := Int) where
  node : Expr ν
  expanded : Bool

namespace Visit

/-- The number of rounds a visit takes. -/
def weight (v : Visit ν) : Nat := if v.expanded then 1 else 2 * v.node.size

/-- The nodes that a visit lists. -/
def nodes (v : Visit ν) : List (Expr ν) :=
  if v.expanded then [v.node] else v.node.postorderSubtrees

/-- The visit of a subtree that is met for the first time. -/
def enter (e : Expr ν) : Visit ν := ⟨e, false⟩

theorem weight_pos (v : Visit ν) : 0 < v.weight := by
  obtain ⟨e, expanded⟩ := v
  cases expanded <;> cases e <;> simp [weight, size]

end Visit

/-- The number of rounds a stack of visits takes. -/
def work : List (Visit ν) → Nat
  | [] => 0
  | v :: visits => v.weight + work visits

theorem work_expand (e : Expr ν) (visits : List (Visit ν)) :
    work (e.operands.map Visit.enter ++ ⟨e, true⟩ :: visits) < work (.enter e :: visits) := by
  cases e <;> simp [operands, work, Visit.weight, Visit.enter, size] <;> omega

/-- Works a stack of visits off, behind the nodes listed so far (the latest first). -/
def traverse (done : List (Expr ν)) : List (Visit ν) → List (Expr ν)
  | [] => done.reverse
  | ⟨e, expanded⟩ :: visits =>
    if expanded || e.operands.isEmpty then traverse (e :: done) visits
    else traverse done (e.operands.map Visit.enter ++ ⟨e, true⟩ :: visits)
termination_by visits => work visits
decreasing_by
  · have := Visit.weight_pos ⟨e, expanded⟩
    simp only [work]
    omega
  · obtain rfl : expanded = false := by cases expanded <;> simp_all
    exact work_expand e visits

/-- The nodes of a tree, listed with a stack of visits. -/
def traversal (e : Expr ν) : List (Expr ν) := traverse [] [.enter e]

/-- The postfix program of a tree. -/
def flatten (e : Expr ν) : List (Step ν) := e.traversal.map head

theorem traverse_eq (done : List (Expr ν)) (visits : List (Visit ν)) :
    traverse done visits = done.reverse ++ visits.flatMap Visit.nodes := by
  fun_induction traverse done visits with
  | case1 => simp
  | case2 done e expanded visits h ih =>
    have hnodes : Visit.nodes ⟨e, expanded⟩ = [e] := by
      cases expanded with
      | true => rfl
      | false =>
        have hempty : e.operands = [] := by simpa using h
        have hsubtrees : e.postorderSubtrees = [e] := by
          rw [postorderSubtrees_eq_operands, hempty]
          rfl
        simpa [Visit.nodes] using hsubtrees
    simp [ih, hnodes]
  | case3 done e expanded visits h ih =>
    obtain rfl : expanded = false := by cases expanded <;> simp_all
    simp [ih, List.flatMap_map, Visit.nodes, Visit.enter, postorderSubtrees_eq_operands e]

theorem traversal_eq_postorderSubtrees (e : Expr ν) : e.traversal = e.postorderSubtrees := by
  simp [traversal, traverse_eq, Visit.nodes, Visit.enter]

theorem flatten_eq_postorder (e : Expr ν) : e.flatten = e.postorder := by
  rw [flatten, traversal_eq_postorderSubtrees, map_head_postorderSubtrees]

end Expr

/-! ## Evaluation -/

/-- An evaluation of expressions: its effect and value at a leaf, and its operators. -/
structure Algebra (ν : Type) (m : Type → Type) (α : Type) where
  leaf : Leaf ν → m α
  neg : α → α
  sum : α → α → α
  product : α → α → α

namespace Algebra

variable {m : Type → Type} {α : Type} [Monad m]

/-- Runs a program on a stack of values, the top first. There is no result if an operator lacks
an operand. -/
@[specialize] def run (A : Algebra ν m α) : List (Step ν) → List α → m (Option (List α))
  | [], stack => pure (some stack)
  | .leaf l :: steps, stack => do
    let x ← A.leaf l
    run A steps (x :: stack)
  | .neg :: steps, x :: stack => run A steps (A.neg x :: stack)
  | .sum :: steps, y :: x :: stack => run A steps (A.sum x y :: stack)
  | .product :: steps, y :: x :: stack => run A steps (A.product x y :: stack)
  | _, _ => pure none

/-- The value of a tree, computed by running its postfix program: the one value that is left. -/
@[specialize] def value [Inhabited α] (A : Algebra ν m α) (e : Expr ν) : m α := do
  let stack ← A.run e.flatten []
  return (stack.getD []).headD default

/-- The value of a tree by recursion: operands first, left before right. -/
def fold (A : Algebra ν m α) : Expr ν → m α
  | .leaf l => A.leaf l
  | .neg e => do
    let x ← A.fold e
    return A.neg x
  | .sum a b => do
    let x ← A.fold a
    let y ← A.fold b
    return A.sum x y
  | .product a b => do
    let x ← A.fold a
    let y ← A.fold b
    return A.product x y

theorem run_postorder [LawfulMonad m] (A : Algebra ν m α) (e : Expr ν) (rest : List (Step ν))
    (stack : List α) :
    A.run (e.postorder ++ rest) stack = (do let x ← A.fold e; A.run rest (x :: stack)) := by
  induction e generalizing rest stack with
  | leaf l => simp [Expr.postorder, run, fold]
  | neg e ih => simp [Expr.postorder, run, fold, ih]
  | sum a b iha ihb => simp [Expr.postorder, run, fold, iha, ihb]
  | product a b iha ihb => simp [Expr.postorder, run, fold, iha, ihb]

theorem run_flatten [LawfulMonad m] (A : Algebra ν m α) (e : Expr ν) :
    A.run e.flatten [] = (do let x ← A.fold e; return some [x]) := by
  have := run_postorder A e [] []
  simpa [Expr.flatten_eq_postorder, run] using this

theorem value_eq_fold [LawfulMonad m] [Inhabited α] (A : Algebra ν m α) (e : Expr ν) :
    A.value e = A.fold e := by
  simp [value, run_flatten]

end Algebra

end Plonkish
