import Plonkish.Proofs.Lowering.Constants
import Plonkish.Proofs.Lowering.Failure
import Plonkish.Proofs.Lowering.Meaning

/-!
# What a failure leaves behind

Lowering an expression stops at the first leaf that is not admitted. The literals in front of that
leaf have been entered by then, and they stay in the table.

* `VariableSpace.Admits`, `Leaf.refusal`: which leaves can be lowered at a table, and the error of
  those that cannot.
* `Lowering.runAt_forM_visit`: leaves that are admitted enter their literals.
* `Lowering.lowered_or_refused`: an expression is lowered, or it is refused for its first leaf that
  is not admitted.
-/

namespace Plonkish

/-- The error of a leaf that cannot be lowered. -/
def Leaf.refusal : Leaf → SchemaError
  | .constant v => .frozenTable v
  | .query q =>
    .unregisteredQuery (.ofKind q.column.kind) (q.column.map .int) (q.rotation.map .int)
  | .challenge i _ => .unregisteredChallenge (.int i)
  | .selector i => .selector (.int i)

namespace VariableSpace

open ConstantTable

variable {V : VariableSpace} {t : ConstantTable} {l : Leaf}

/-- A leaf can be lowered: what it names is in the space, and a literal is not new to a frozen
table. -/
def Admits (V : VariableSpace) (t : ConstantTable) : Leaf → Prop
  | .constant v => t.frozen = true → v.toBytes ∈ t.entries
  | l => V.Finds l

instance : DecidablePred (V.Admits t)
  | .constant v => inferInstanceAs (Decidable (t.frozen = true → v.toBytes ∈ t.entries))
  | .query q => inferInstanceAs (Decidable (V.Finds (.query q)))
  | .challenge i phase => inferInstanceAs (Decidable (V.Finds (.challenge i phase)))
  | .selector i => inferInstanceAs (Decidable (V.Finds (.selector i)))

/-- What is admitted does not change while admitted literals are entered: a frozen table has them
all, and any other takes every literal. -/
theorem admits_followedBy_iff {front : List Leaf} (h : ∀ l ∈ front, V.Admits t l) :
    V.Admits (t.followedBy (front.filterMap Leaf.constant?)) l ↔ V.Admits t l := by
  cases hfrozen : t.frozen with
  | true =>
    have hold : ∀ v ∈ front.filterMap Leaf.constant?, v.toBytes ∈ t.entries := by
      intro v hv
      obtain ⟨l, hl, hconstant⟩ := List.mem_filterMap.1 hv
      obtain rfl := Leaf.constant?_eq_some_iff.1 hconstant
      exact h _ hl hfrozen
    rw [followedBy_of_forall_mem hold]
  | false =>
    cases l with
    | constant v => simp [Admits, hfrozen]
    | _ => rfl

/-- Among some leaves all are admitted, or there is a first one that is not. -/
theorem forall_admits_or_split (V : VariableSpace) (t : ConstantTable) (ls : List Leaf) :
    (∀ l ∈ ls, V.Admits t l) ∨
      ∃ front l rest, ls = front ++ l :: rest ∧ (∀ l' ∈ front, V.Admits t l') ∧
        ¬V.Admits t l := by
  cases hfind : ls.find? fun l => ¬V.Admits t l with
  | none =>
    refine .inl fun l hl => ?_
    simpa using List.find?_eq_none.1 hfind l hl
  | some l =>
    obtain ⟨hl, front, rest, hsplit, hfront⟩ := List.find?_eq_some_iff_append.1 hfind
    exact .inr ⟨front, l, rest, hsplit, by simpa using hfront, by simpa using hl⟩

end VariableSpace

namespace Lowering

open ConstantTable Outcome VariableSpace

variable {V : VariableSpace} {t : ConstantTable} {l : Leaf} {front rest : List Leaf} {e : Expr}

/-! ## Leaves -/

theorem runAt_leaf_of_admits (h : V.Admits t l) :
    ∃ ir, (leaf V l).runAt t = (.ok ir, t.followedBy ([l].filterMap Leaf.constant?)) := by
  cases l with
  | constant v =>
    obtain ⟨i, hi⟩ := exists_intern_eq_ok h
    exact ⟨.const i, runAt_map_eq_ok_iff.2 ⟨i, hi, rfl⟩⟩
  | query q =>
    obtain ⟨i, hi⟩ := (exists_indexOf_iff (queryClass_ne_challenge q)).2 h
    exact ⟨.var _ i, runAt_map_eq_ok_iff.2 ⟨i, Prod.ext hi followedBy_nil.symm, rfl⟩⟩
  | challenge i phase =>
    obtain ⟨j, hj⟩ := exists_challengeIndex_iff.2 h
    exact ⟨.var .challenge j, runAt_map_eq_ok_iff.2 ⟨j, Prod.ext hj followedBy_nil.symm, rfl⟩⟩
  | selector i => exact absurd h id

theorem runAt_leaf_of_not_admits (h : ¬V.Admits t l) :
    (leaf V l).runAt t = (.error l.refusal, t) := by
  cases l with
  | constant v =>
    obtain ⟨hfrozen, hnew⟩ := Classical.not_imp.1 h
    rw [leaf, runAt_bind, runAt_intern, intern_eq_error hfrozen hnew]
    rfl
  | query q =>
    have hindex : V.indexOf (.ofKind q.column.kind) q.column q.rotation =
        .error (Leaf.refusal (.query q)) := indexOf_of_not_mem (queryClass_ne_challenge q) h
    rw [leaf, hindex]
    rfl
  | challenge i phase =>
    rw [leaf, challengeIndex_of_not_lt h]
    rfl
  | selector i => rfl

/-- Lowers a leaf for its effect on the table alone. -/
def visit (V : VariableSpace) (l : Leaf) : Lowering Unit := (fun _ => ()) <$> leaf V l

theorem runAt_visit_of_admits (h : V.Admits t l) :
    (visit V l).runAt t = (.ok (), t.followedBy ([l].filterMap Leaf.constant?)) := by
  obtain ⟨ir, hir⟩ := runAt_leaf_of_admits h
  rw [visit, runAt_map, hir]
  rfl

theorem runAt_visit_of_not_admits (h : ¬V.Admits t l) :
    (visit V l).runAt t = (.error l.refusal, t) := by
  rw [visit, runAt_map, runAt_leaf_of_not_admits h]
  rfl

/-- Leaves that are admitted enter their literals. -/
theorem runAt_forM_visit {ls : List Leaf} (h : ∀ l ∈ ls, V.Admits t l) :
    (forM ls (visit V)).runAt t = (.ok (), t.followedBy (ls.filterMap Leaf.constant?)) := by
  induction ls generalizing t with
  | nil =>
    rw [List.filterMap_nil, followedBy_nil]
    rfl
  | cons l ls ih =>
    obtain ⟨hl, hls⟩ := List.forall_mem_cons.1 h
    have hone : ∀ l' ∈ [l], V.Admits t l' := List.forall_mem_singleton.2 hl
    -- The other leaves are lowered at the table that the first one leaves.
    have hrest := ih fun l' hl' => (admits_followedBy_iff hone).2 (hls l' hl')
    rw [← followedBy_append, ← List.filterMap_append] at hrest
    rw [List.forM_cons, runAt_bind, runAt_visit_of_admits hl]
    exact hrest

/-- The first leaf that is not admitted is refused, behind the literals in front of it. -/
theorem runAt_forM_visit_append (hfront : ∀ l' ∈ front, V.Admits t l') (hl : ¬V.Admits t l) :
    (forM (front ++ l :: rest) (visit V)).runAt t =
      (.error l.refusal, t.followedBy (front.filterMap Leaf.constant?)) := by
  rw [← admits_followedBy_iff hfront] at hl
  rw [List.forM_append, runAt_bind, runAt_forM_visit hfront]
  simp only [List.forM_cons, runAt_bind, runAt_visit_of_not_admits hl]

/-! ## Expressions -/

/-- Lowering an expression ends as visiting its leaves does. -/
theorem runAt_forM_leaves (V : VariableSpace) (t : ConstantTable) (e : Expr) :
    (forM e.leaves (visit V)).runAt t =
      (verdict ((expr V e).runAt t).1, ((expr V e).runAt t).2) := by
  have hrun := runAt_map (fun _ => ()) (expr V e) t
  rw [expr_eq_fold, (algebra V).map_unit_fold] at hrun
  rw [expr_eq_fold]
  exact hrun

theorem runAt_expr_of_admits (h : ∀ l ∈ e.leaves, V.Admits t l) :
    ∃ ir, (expr V e).runAt t = (.ok ir, t.followedBy e.literals) := by
  have hrun := runAt_forM_leaves V t e
  rw [runAt_forM_visit h, Prod.mk.injEq] at hrun
  obtain ⟨ir, hir⟩ := verdict_eq_ok_iff.1 hrun.1.symm
  exact ⟨ir, Prod.ext hir hrun.2.symm⟩

theorem runAt_expr_of_split (hsplit : e.leaves = front ++ l :: rest)
    (hfront : ∀ l' ∈ front, V.Admits t l') (hl : ¬V.Admits t l) :
    (expr V e).runAt t = (.error l.refusal, t.followedBy (front.filterMap Leaf.constant?)) := by
  have hrun := runAt_forM_leaves V t e
  rw [hsplit, runAt_forM_visit_append hfront hl, Prod.mk.injEq] at hrun
  exact Prod.ext (verdict_eq_error_iff.1 hrun.1.symm) hrun.2.symm

/-- An expression is lowered exactly if all its leaves are admitted, and then the table has its
literals behind those it had. Otherwise it is refused for the first leaf that is not admitted, and
the table has the literals in front of that leaf. -/
theorem lowered_or_refused (V : VariableSpace) (t : ConstantTable) (e : Expr) :
    ((∃ ir t', (expr V e).runAt t = (.ok ir, t')) ↔ ∀ l ∈ e.leaves, V.Admits t l) ∧
      ((∃ ir, (expr V e).runAt t = (.ok ir, t.followedBy e.literals)) ∨
        ∃ front l rest, e.leaves = front ++ l :: rest ∧ (∀ l' ∈ front, V.Admits t l') ∧
          ¬V.Admits t l ∧
            (expr V e).runAt t =
              (.error l.refusal, t.followedBy (front.filterMap Leaf.constant?))) := by
  rcases forall_admits_or_split V t e.leaves with h | ⟨front, l, rest, hsplit, hfront, hl⟩
  · obtain ⟨ir, hir⟩ := runAt_expr_of_admits h
    exact ⟨iff_of_true ⟨ir, _, hir⟩ h, .inl ⟨ir, hir⟩⟩
  · have hrun := runAt_expr_of_split hsplit hfront hl
    refine ⟨iff_of_false ?_ ?_, .inr ⟨front, l, rest, hsplit, hfront, hl, hrun⟩⟩
    · rintro ⟨ir, t', hir⟩
      rw [hrun] at hir
      cases hir
    · intro h
      exact hl (h l (by simp [hsplit]))

/-- A challenge that is not there stands between two new literals. -/
def broken : Expr :=
  .sum (.product (.constant 2) (.query default)) (.sum (.leaf (.challenge 3 0)) (.constant 9))

theorem lowered_or_refused_broken :
    (¬∃ ir t', (expr oneQuery broken).runAt ⟨[7].map Scalar.toBytes, false⟩ = (.ok ir, t')) ∧
      (expr oneQuery broken).runAt ⟨[7].map Scalar.toBytes, false⟩ =
        (.error (.unregisteredChallenge (.int 3)), ⟨[7, 2].map Scalar.toBytes, false⟩) := by
  obtain ⟨hiff, -⟩ := lowered_or_refused oneQuery ⟨[7].map Scalar.toBytes, false⟩ broken
  refine ⟨hiff.not.2 (by decide +kernel), ?_⟩
  rw [expr_eq_fold]
  rfl

end Lowering

end Plonkish
