import Plonkish.Proofs.Ir
import Plonkish.Proofs.Lowering.Run
import Plonkish.Proofs.VariableSpace

/-!
# Variables of lowered expressions

Lowering names variables by positions that it has looked up, so each is inside its class.

* `VariableSpace.Has`: a space has a variable.
* `Lowering.has_of_exprs`: lowered expressions refer to variables of the space only.
-/

namespace Plonkish

/-- The position of a variable is inside its class. -/
def VariableSpace.Has (V : VariableSpace) (v : VariableClass × Int) : Prop :=
  0 ≤ v.2 ∧ v.2 < V.size v.1

namespace Lowering

open VariableSpace

variable {V : VariableSpace} {t t' : ConstantTable} {ir : Ir} {v : VariableClass × Int}

theorem mem_vars_product {a b : Ir} :
    v ∈ (product a b).vars ↔ v ∈ a.vars ∨ v ∈ b.vars := by
  unfold product
  split
  · simp
  · simp
  · rw [Ir.vars_product, List.mem_append]

theorem has_of_leaf {l : Leaf} (h : (leaf V l).runAt t = (.ok ir, t')) :
    ∀ v ∈ ir.vars, V.Has v := by
  cases l with
  | constant v =>
    obtain ⟨i, -, rfl⟩ := runAt_map_eq_ok_iff.1 h
    simp
  | query q =>
    obtain ⟨i, hi, rfl⟩ := runAt_map_eq_ok_iff.1 h
    rw [Ir.vars_var, List.forall_mem_singleton]
    exact ⟨Int.natCast_nonneg i, lt_size_of_indexOf (Prod.mk.inj hi).1⟩
  | challenge i phase =>
    obtain ⟨j, hj, rfl⟩ := runAt_map_eq_ok_iff.1 h
    obtain ⟨rfl, hnonneg, hlt⟩ := challengeIndex_eq_ok_iff.1 (Prod.mk.inj hj).1
    rw [Ir.vars_var, List.forall_mem_singleton]
    exact ⟨hnonneg, hlt⟩
  | selector i => cases h

theorem has_of_expr {e : Expr} (h : (expr V e).runAt t = (.ok ir, t')) :
    ∀ v ∈ ir.vars, V.Has v := by
  induction e generalizing t t' ir with
  | leaf l =>
    rw [expr_leaf] at h
    exact has_of_leaf h
  | neg e ih =>
    rw [expr_neg] at h
    obtain ⟨x, hx, rfl⟩ := runAt_map_eq_ok_iff.1 h
    rw [Ir.vars_neg]
    exact ih hx
  | sum a b iha ihb =>
    rw [expr_sum] at h
    obtain ⟨x, y, t₁, hx, hy, rfl⟩ := runAt_pair_eq_ok_iff.1 h
    rw [Ir.vars_sum, List.forall_mem_append]
    exact ⟨iha hx, ihb hy⟩
  | product a b iha ihb =>
    rw [expr_product] at h
    obtain ⟨x, y, t₁, hx, hy, rfl⟩ := runAt_pair_eq_ok_iff.1 h
    intro v hv
    rcases mem_vars_product.1 hv with hv | hv
    · exact iha hx v hv
    · exact ihb hy v hv

/-- Lowered expressions refer to variables of the space only. -/
theorem has_of_exprs {es : List Expr} {irs : List Ir} (h : (exprs V es).runAt t = (.ok irs, t')) :
    ∀ v ∈ irs.flatMap Ir.vars, V.Has v := by
  induction es generalizing t t' irs with
  | nil =>
    cases h
    simp
  | cons e es ih =>
    rw [exprs_cons] at h
    obtain ⟨x, xs, t₁, hx, hxs, rfl⟩ := runAt_pair_eq_ok_iff.1 h
    rw [List.flatMap_cons, List.forall_mem_append]
    exact ⟨has_of_expr hx, ih hxs⟩

end Lowering

end Plonkish
