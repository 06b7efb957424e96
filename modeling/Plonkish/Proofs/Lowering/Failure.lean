import Plonkish.Proofs.Expr
import Plonkish.Proofs.Lowering.Circuit
import Plonkish.Proofs.VariableSpace

/-!
# Why lowering fails

While the table takes new constants, lowering an expression fails as the first leaf does that cannot
be looked up.

* `Lowering.Checks`: a computation fails as some lookups do.
* `Lowering.expr_checks`, `Lowering.circuit_checks`: lowering fails as looking its leaves up.
-/

namespace Plonkish.Lowering

open Outcome VariableSpace

variable {α β : Type} {x : Lowering α} {f : α → Lowering β} {r r' : Except SchemaError Unit}

/-- On every table that takes new constants, a computation has a given verdict, and the table that
it leaves takes new constants again. -/
def Checks (x : Lowering α) (r : Except SchemaError Unit) : Prop :=
  ∀ t : ConstantTable, t.frozen = false →
    verdict (x.runAt t).1 = r ∧ (x.runAt t).2.frozen = false

theorem checks_pure (a : α) : Checks (pure a) (.ok ()) := fun _ h => ⟨rfl, h⟩

theorem checks_ofExcept (s : Except SchemaError α) : Checks (ofExcept s) (verdict s) :=
  fun _ h => ⟨rfl, h⟩

theorem checks_intern (v : Scalar) : Checks (intern v) (.ok ()) := by
  intro t hfrozen
  rw [runAt_intern]
  rcases ConstantTable.intern_cases v t with ⟨i, -, h⟩ | ⟨-, h, -⟩ | ⟨-, -, h⟩
  · rw [h]
    exact ⟨rfl, hfrozen⟩
  · rw [hfrozen] at h
    cases h
  · rw [h]
    exact ⟨rfl, hfrozen⟩

theorem Checks.bind (hx : Checks x r) (hf : ∀ a, Checks (f a) r') :
    Checks (x >>= f) (do r; r') := by
  intro t hfrozen
  obtain ⟨rfl, hfrozen⟩ := hx t hfrozen
  rw [runAt_bind]
  generalize x.runAt t = outcome at hfrozen ⊢
  obtain ⟨s, t₁⟩ := outcome
  cases s with
  | error e => exact ⟨rfl, hfrozen⟩
  | ok a => exact hf a t₁ hfrozen

/-- What follows without failing does not change the verdict. -/
theorem Checks.bind_pure {g : α → β} (hx : Checks x r) : Checks (do let a ← x; return g a) r := by
  have h := hx.bind fun a => checks_pure (g a)
  cases r <;> exact h

variable (V : VariableSpace)

theorem leaf_checks (l : Leaf) : Checks (leaf V l) (V.checkLeaf l) := by
  cases l with
  | constant v => exact (checks_intern v).bind_pure
  | query q => exact (checks_ofExcept _).bind_pure
  | challenge i phase => exact (checks_ofExcept _).bind_pure
  | selector i => exact checks_ofExcept _

/-- Lowering fails as the first leaf does that cannot be looked up. -/
theorem expr_checks (e : Expr) : Checks (expr V e) (forM e.leaves V.checkLeaf) := by
  induction e with
  | leaf l =>
    rw [expr_leaf, Expr.leaves, List.forM_cons, List.forM_nil, bind_pure_unit]
    exact leaf_checks V l
  | neg e ih =>
    rw [expr_neg, Expr.leaves]
    exact ih.bind_pure
  | sum a b iha ihb =>
    rw [expr_sum, Expr.leaves, List.forM_append]
    exact iha.bind fun _ => ihb.bind_pure
  | product a b iha ihb =>
    rw [expr_product, Expr.leaves, List.forM_append]
    exact iha.bind fun _ => ihb.bind_pure

theorem exprs_checks (es : List Expr) :
    Checks (exprs V es) (forM (es.flatMap Expr.leaves) V.checkLeaf) := by
  induction es with
  | nil => exact checks_pure []
  | cons e es ih =>
    rw [exprs_cons, List.flatMap_cons, List.forM_append]
    exact (expr_checks V e).bind fun _ => ih.bind_pure

/-- A computation has the verdict of what its result is turned into. -/
theorem Checks.of_map {g : α → β} (h : Checks (g <$> x) r) : Checks x r := by
  intro t hfrozen
  have hmap := h t hfrozen
  rw [runAt_map, verdict_map] at hmap
  exact hmap

/-- A circuit is lowered, or it fails as the first leaf does that cannot be looked up. -/
theorem circuit_checks (c : Circuit) :
    Checks (circuit c) (forM (c.exprs.flatMap Expr.leaves) (ofCircuit c).checkLeaf) := by
  have hexprs : Checks (Parts.exprs <$> circuit c)
      (do verdict (ofCircuit c).check
          forM (c.exprs.flatMap Expr.leaves) (ofCircuit c).checkLeaf) := by
    rw [exprs_circuit]
    exact (checks_ofExcept _).bind fun _ => exprs_checks (ofCircuit c) c.exprs
  rw [check_int] at hexprs
  exact hexprs.of_map

end Plonkish.Lowering
