import Plonkish.Expr.Degree

/-!
# Post-order by recursion

A traversal with a stack meets every place of a tree once: the places of the operands in front of
that of their operator, and those on the left in front of those on the right. Equal subtrees at
different places are met each time. Along the steps of a tree no operator lacks an operand.

* `Expr.at?`: the subtree at a place.
* `Expr.Precedes`: the order of places.
* `Expr.pairwise_places`, `Expr.mem_places_iff`: the places of a tree, in this order.
* `Algebra.exists_run_of_append`: at each step there are the operands that it takes.
* `Expr.postorder_by_recursion`: the traversal and the degree of an expression.
-/

namespace Plonkish

variable {ν : Type}

namespace Expr

/-! ## Places -/

/-- The subtree at a place. A place tells which operand to go to, from the root downwards. -/
def at? : (place : List Nat) → Expr ν → Option (Expr ν)
  | [], e => some e
  | i :: place, e => e.operands[i]?.bind (at? place)

/-- A place comes before another one: it is below the other, or further to the left where they
part. -/
def Precedes : (p q : List Nat) → Prop
  | [], _ => False
  | _ :: _, [] => True
  | i :: p, j :: q => i < j ∨ i = j ∧ Precedes p q

/-- The places of a tree, those of operands before that of their operator and left before right. -/
def places : Expr ν → List (List Nat)
  | .leaf _ => [[]]
  | .neg e => e.places.map (0 :: ·) ++ [[]]
  | .sum a b => a.places.map (0 :: ·) ++ b.places.map (1 :: ·) ++ [[]]
  | .product a b => a.places.map (0 :: ·) ++ b.places.map (1 :: ·) ++ [[]]

variable {e a b : Expr ν} {p : List Nat}

theorem not_precedes_self (p : List Nat) : ¬Precedes p p := by
  induction p with
  | nil => exact id
  | cons i p ih =>
    rintro (h | ⟨-, h⟩)
    · exact Nat.lt_irrefl i h
    · exact ih h

theorem pairwise_map_cons (i : Nat) {ps : List (List Nat)} (h : ps.Pairwise Precedes) :
    (ps.map (i :: ·)).Pairwise Precedes :=
  List.pairwise_map.2 (h.imp fun hpq => .inr ⟨rfl, hpq⟩)

theorem pairwise_concat_root {ps : List (List Nat)} (h : ps.Pairwise Precedes)
    (hne : ∀ p ∈ ps, p ≠ []) : (ps ++ [[]]).Pairwise Precedes := by
  refine List.pairwise_append.2 ⟨h, List.pairwise_singleton _ _, fun p hp q hq => ?_⟩
  obtain rfl := List.mem_singleton.1 hq
  cases p with
  | nil => exact absurd rfl (hne [] hp)
  | cons i p => trivial

theorem pairwise_pair {ps qs : List (List Nat)} (hp : ps.Pairwise Precedes)
    (hq : qs.Pairwise Precedes) :
    (ps.map (0 :: ·) ++ qs.map (1 :: ·) ++ [[]]).Pairwise Precedes := by
  refine pairwise_concat_root (List.pairwise_append.2
    ⟨pairwise_map_cons 0 hp, pairwise_map_cons 1 hq, fun p' hp' q' hq' => ?_⟩) ?_
  · obtain ⟨p, -, rfl⟩ := List.mem_map.1 hp'
    obtain ⟨q, -, rfl⟩ := List.mem_map.1 hq'
    exact .inl Nat.one_pos
  · intro p hp
    rcases List.mem_append.1 hp with hp | hp
    all_goals
      obtain ⟨p, -, rfl⟩ := List.mem_map.1 hp
      exact List.cons_ne_nil _ _

/-- The places of a tree are listed in order. -/
theorem pairwise_places (e : Expr ν) : e.places.Pairwise Precedes := by
  induction e with
  | leaf l => exact List.pairwise_singleton _ _
  | neg e ih => exact pairwise_concat_root (pairwise_map_cons 0 ih) (by simp)
  | sum a b iha ihb => exact pairwise_pair iha ihb
  | product a b iha ihb => exact pairwise_pair iha ihb

theorem nodup_places (e : Expr ν) : e.places.Nodup :=
  (pairwise_places e).imp fun {p q} h heq => by
    subst heq
    exact not_precedes_self p h

/-- The places that are listed are all where a subtree stands. -/
theorem mem_places_iff : p ∈ e.places ↔ ∃ x, at? p e = some x := by
  induction e generalizing p with
  | leaf l => cases p <;> simp [places, at?, operands]
  | neg e ih =>
    rcases p with _ | ⟨_ | i, p⟩ <;> simp [places, at?, operands, ih]
  | sum a b iha ihb =>
    rcases p with _ | ⟨_ | _ | i, p⟩ <;> simp [places, at?, operands, iha, ihb]
  | product a b iha ihb =>
    rcases p with _ | ⟨_ | _ | i, p⟩ <;> simp [places, at?, operands, iha, ihb]

/-- The subtrees in post-order are those at the places of the tree. -/
theorem map_at?_places (e : Expr ν) :
    e.places.map (at? · e) = e.postorderSubtrees.map some := by
  induction e with
  | leaf l => rfl
  | neg e ih =>
    simp only [places, postorderSubtrees, List.map_append, List.map_map, ← ih]
    rfl
  | sum a b iha ihb =>
    simp only [places, postorderSubtrees, List.map_append, List.map_map, ← iha, ← ihb]
    rfl
  | product a b iha ihb =>
    simp only [places, postorderSubtrees, List.map_append, List.map_map, ← iha, ← ihb]
    rfl

end Expr

/-! ## Operands on the stack -/

/-- The number of values that a step takes from the stack. -/
def Step.arity : Step ν → Nat
  | .leaf _ => 0
  | .neg => 1
  | .sum => 2
  | .product => 2

namespace Algebra

variable {α : Type} (A : Algebra ν Id α)

/-- A program runs its first part, and its second one on what the first one leaves. -/
theorem run_append (xs ys : List (Step ν)) (stack : List α) :
    A.run (xs ++ ys) stack = (show Option (List α) from A.run xs stack).bind (A.run ys) := by
  induction xs generalizing stack with
  | nil => rfl
  | cons s xs ih =>
    cases s with
    | leaf l => exact ih _
    | neg =>
      rcases stack with _ | ⟨x, stack⟩
      · rfl
      · exact ih _
    | sum =>
      rcases stack with _ | ⟨x, _ | ⟨y, stack⟩⟩
      · rfl
      · rfl
      · exact ih _
    | product =>
      rcases stack with _ | ⟨x, _ | ⟨y, stack⟩⟩
      · rfl
      · rfl
      · exact ih _

theorem arity_le_of_run {s : Step ν} {steps : List (Step ν)} {stack out : List α}
    (h : A.run (s :: steps) stack = some out) : s.arity ≤ stack.length := by
  cases s with
  | leaf l => exact Nat.zero_le _
  | neg =>
    rcases stack with _ | ⟨x, stack⟩
    · cases h
    · exact Nat.succ_pos _
  | sum =>
    rcases stack with _ | ⟨x, _ | ⟨y, stack⟩⟩
    · cases h
    · cases h
    · exact Nat.le_add_left 2 _
  | product =>
    rcases stack with _ | ⟨x, _ | ⟨y, stack⟩⟩
    · cases h
    · cases h
    · exact Nat.le_add_left 2 _

/-- If a program ends, there are at each step the values that it takes. -/
theorem exists_run_of_append {xs ys : List (Step ν)} {s : Step ν} {stack out : List α}
    (h : A.run (xs ++ s :: ys) stack = some out) :
    ∃ stack', A.run xs stack = some stack' ∧ s.arity ≤ stack'.length := by
  rw [run_append] at h
  obtain ⟨stack', hxs, hys⟩ := Option.bind_eq_some_iff.1 h
  exact ⟨stack', hxs, arity_le_of_run A hys⟩

end Algebra

/-! ## Degrees -/

namespace Expr

/-- The degree of an expression, by recursion. -/
def degreeByRecursion : Expr ν → Nat
  | .leaf (.query _) => 1
  | .leaf (.selector _) => 1
  | .leaf (.constant _) => 0
  | .leaf (.challenge _ _) => 0
  | .neg e => e.degreeByRecursion
  | .sum a b => max a.degreeByRecursion b.degreeByRecursion
  | .product a b => a.degreeByRecursion + b.degreeByRecursion

theorem degree_eq_degreeByRecursion (e : Expr ν) : e.degree = e.degreeByRecursion := by
  induction e with
  | leaf l => cases l <;> exact degree_leaf _
  | neg e ih => rw [degree_neg, ih, degreeByRecursion]
  | sum a b iha ihb => rw [degree_sum, iha, ihb, degreeByRecursion]
  | product a b iha ihb => rw [degree_product, iha, ihb, degreeByRecursion]

theorem run_degreeAlgebra (e : Expr ν) : degreeAlgebra.run e.flatten [] = some [e.degree] := by
  rw [Algebra.run_flatten, degree_eq_fold]
  rfl

/-- The nodes that a traversal with a stack lists are those of the recursive post-order, which are
the subtrees at all places of the tree, each place once and in order. The degree is computed along
their steps: there are always the values that a step takes, one value is left in the end, and this
is the degree by recursion. -/
theorem postorder_by_recursion (e : Expr ν) :
    e.traversal = e.postorderSubtrees ∧
      (∃ places : List (List Nat), places.Pairwise Precedes ∧ places.Nodup ∧
        (∀ p, p ∈ places ↔ ∃ x, at? p e = some x) ∧
          e.traversal.map some = places.map (at? · e)) ∧
      (∀ (xs ys : List (Step ν)) (s : Step ν), e.traversal.map head = xs ++ s :: ys →
        ∃ stack, degreeAlgebra.run xs [] = some stack ∧ s.arity ≤ stack.length) ∧
      degreeAlgebra.run (e.traversal.map head) [] = some [e.degree] ∧
      e.degree = e.degreeByRecursion := by
  have hrun : degreeAlgebra.run (e.traversal.map head) [] = some [e.degree] := run_degreeAlgebra e
  refine ⟨traversal_eq_postorderSubtrees e, ⟨e.places, pairwise_places e, nodup_places e,
    fun _ => mem_places_iff, ?_⟩, fun xs ys s h => ?_, hrun, degree_eq_degreeByRecursion e⟩
  · rw [map_at?_places, traversal_eq_postorderSubtrees]
  · rw [h] at hrun
    exact Algebra.exists_run_of_append degreeAlgebra hrun

/-- The square of a column. -/
def columnSquare : Expr := .product (.query default) (.query default)

/-- The square of a column, less its product with a challenge. -/
def sharedSquare : Expr := .sum columnSquare (.neg (.product (.leaf (.challenge 0 0)) columnSquare))

/-- The steps in front of the last product. -/
def sharedSteps : List Step :=
  columnSquare.postorder ++ .leaf (.challenge 0 0) :: columnSquare.postorder

theorem postorder_by_recursion_shared :
    sharedSquare.traversal.count columnSquare = 2 ∧
      sharedSquare.traversal.map head = sharedSteps ++ .product :: [.neg, .sum] ∧
        (∃ stack, degreeAlgebra.run sharedSteps [] = some stack ∧ 2 ≤ stack.length) ∧
          sharedSquare.degree = 2 := by
  obtain ⟨htraversal, -, hoperands, -, hdegree⟩ := postorder_by_recursion sharedSquare
  have hsteps : sharedSquare.traversal.map head = sharedSteps ++ .product :: [.neg, .sum] := by
    rw [htraversal]
    rfl
  exact ⟨by rw [htraversal]; decide, hsteps, hoperands _ _ _ hsteps, by rw [hdegree]; rfl⟩

end Expr

end Plonkish
