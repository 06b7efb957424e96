import Plonkish.Lowering
import Plonkish.Proofs.ConstantTable
import Plonkish.Proofs.Expr

/-!
# Runs of lowering

Lowering an expression goes through the leaves from left to right and enters constants as it meets
them.

* `Lowering.runAt_bind_eq_ok_iff`, `Lowering.runAt_pair_eq_ok_iff`: the steps of a run that
  succeeds.
* `Lowering.Stable`: a computation that only adds to the table, and that gives the same at every
  later table once it has succeeded.
* `Lowering.expr_of_leaves`: what holds of an expression because it does of its leaves.
* `Lowering.expr_stable`: lowering an expression is such a computation.
-/

namespace Plonkish.Lowering

open ConstantTable

variable {α β γ : Type} {x : Lowering α} {y : Lowering β} {f : α → Lowering β}
  {t t' : ConstantTable} {b : β} {c : γ}

/-- What a computation gives at a table, and the table that it leaves. -/
def runAt (x : Lowering α) (t : ConstantTable) : Except SchemaError α × ConstantTable := x.run t

/-! ## Sequences -/

theorem runAt_intern (v : Scalar) (t : ConstantTable) : (intern v).runAt t = t.intern v := rfl

theorem runAt_bind (x : Lowering α) (f : α → Lowering β) (t : ConstantTable) :
    (x >>= f).runAt t =
      match x.runAt t with
      | (.ok a, t') => (f a).runAt t'
      | (.error e, t') => (.error e, t') := by
  show (match x.runAt t with | (a, t') => ExceptT.bindCont f a t') = _
  obtain ⟨r, t'⟩ := x.runAt t
  cases r <;> rfl

/-- A run succeeds exactly if its first step does, and what follows does with what it left. -/
theorem runAt_bind_eq_ok_iff :
    (x >>= f).runAt t = (.ok b, t') ↔
      ∃ a t₁, x.runAt t = (.ok a, t₁) ∧ (f a).runAt t₁ = (.ok b, t') := by
  rw [runAt_bind]
  obtain ⟨r, t₁⟩ := x.runAt t
  cases r <;> simp [and_assoc]

theorem runAt_map (g : α → β) (x : Lowering α) (t : ConstantTable) :
    (g <$> x).runAt t = ((x.runAt t).1.map g, (x.runAt t).2) := by
  rw [map_eq_pure_bind, runAt_bind]
  obtain ⟨r, t'⟩ := x.runAt t
  cases r <;> rfl

theorem runAt_map_eq_ok_iff {g : α → β} :
    (do let a ← x; return g a).runAt t = (.ok b, t') ↔
      ∃ a, x.runAt t = (.ok a, t') ∧ g a = b := by
  rw [runAt_bind_eq_ok_iff]
  constructor
  · rintro ⟨a, t₁, ha, ⟨⟩⟩
    exact ⟨a, ha, rfl⟩
  · rintro ⟨a, ha, rfl⟩
    exact ⟨a, t', ha, rfl⟩

/-- Two operands are computed one after the other, and then combined. -/
theorem runAt_pair_eq_ok_iff {g : α → β → γ} :
    (do let a ← x; let b ← y; return g a b).runAt t = (.ok c, t') ↔
      ∃ a b t₁, x.runAt t = (.ok a, t₁) ∧ y.runAt t₁ = (.ok b, t') ∧ g a b = c := by
  rw [runAt_bind_eq_ok_iff]
  simp only [runAt_map_eq_ok_iff]
  constructor
  · rintro ⟨a, t₁, ha, b, hb, hc⟩
    exact ⟨a, b, t₁, ha, hb, hc⟩
  · rintro ⟨a, b, t₁, ha, hb, hc⟩
    exact ⟨a, t₁, ha, b, hb, hc⟩

/-! ## The table -/

/-- A computation does nothing to the table but what its steps may do, even if it fails. -/
def Grows (x : Lowering α) : Prop := ∀ t : ConstantTable, t.Reaches (x.runAt t).2

theorem Grows.reaches {r : Except SchemaError α} (hx : Grows x) (h : x.runAt t = (r, t')) :
    t.Reaches t' := by
  have hreaches := hx t
  rwa [h] at hreaches

theorem Grows.bind (hx : Grows x) (hf : ∀ a, Grows (f a)) : Grows (x >>= f) := by
  intro t
  have hfirst := hx t
  rw [runAt_bind]
  generalize x.runAt t = outcome at hfirst ⊢
  obtain ⟨r, t₁⟩ := outcome
  cases r with
  | error e => exact hfirst
  | ok a => exact hfirst.trans (hf a t₁)

/-- A computation does nothing to the table but enter constants, and if it has succeeded once, it
gives the same at every later table and leaves that table as it is. -/
structure Stable (x : Lowering α) : Prop where
  grows : Grows x
  again : ∀ ⦃t t' t'' a⦄, x.runAt t = (.ok a, t') → t'.Reaches t'' → x.runAt t'' = (.ok a, t'')

theorem stable_pure (a : α) : Stable (pure a) where
  grows := Reaches.refl
  again := by
    rintro t t' t'' _ ⟨⟩ -
    rfl

theorem stable_ofExcept (r : Except SchemaError α) : Stable (ofExcept r) where
  grows := Reaches.refl
  again := by
    rintro t t' t'' a ⟨⟩ -
    rfl

/-- A constant that was entered is found where it is. -/
theorem stable_intern (v : Scalar) : Stable (intern v) where
  grows := reaches_intern v
  again t t' t'' i h hlater := by
    rw [runAt_intern, ConstantTable.intern, hlater.position?_eq (position?_of_intern h)]

/-- For the first step, the tables that the second one reaches are later ones too. -/
theorem Stable.bind (hx : Stable x) (hf : ∀ a, Stable (f a)) : Stable (x >>= f) where
  grows := hx.grows.bind fun a => (hf a).grows
  again t t' t'' b h hlater := by
    obtain ⟨a, t₁, ha, hb⟩ := runAt_bind_eq_ok_iff.1 h
    have hmore : t₁.Reaches t'' := ((hf a).grows.reaches hb).trans hlater
    exact runAt_bind_eq_ok_iff.2 ⟨a, t'', hx.again ha hmore, (hf a).again hb hlater⟩

theorem Stable.mapM (hf : ∀ a, Stable (f a)) (as : List α) : Stable (as.mapM f) := by
  induction as with
  | nil => exact stable_pure []
  | cons a as ih =>
    rw [List.mapM_cons]
    exact (hf a).bind fun _ => ih.bind fun _ => stable_pure _

/-! ## Expressions -/

variable {ν : Type} [Quantity ν] [DecidableEq ν] (V : VariableSpace ν)

theorem leaf_stable (l : Leaf ν) : Stable (leaf V l) := by
  cases l with
  | constant v => exact (stable_intern v).bind fun _ => stable_pure _
  | query q => exact (stable_ofExcept _).bind fun _ => stable_pure _
  | challenge i phase => exact (stable_ofExcept _).bind fun _ => stable_pure _
  | selector i => exact stable_ofExcept _

theorem expr_eq_fold (e : Expr ν) : expr V e = (algebra V).fold e :=
  Algebra.value_eq_fold (algebra V) e

theorem expr_leaf (l : Leaf ν) : expr V (.leaf l) = leaf V l := expr_eq_fold V _

theorem expr_neg (e : Expr ν) :
    expr V (.neg e) = do
      let x ← expr V e
      return .neg x := by
  rw [expr_eq_fold, expr_eq_fold]
  rfl

theorem expr_sum (a b : Expr ν) :
    expr V (.sum a b) = do
      let x ← expr V a
      let y ← expr V b
      return .sum x y := by
  rw [expr_eq_fold, expr_eq_fold, expr_eq_fold]
  rfl

theorem expr_product (a b : Expr ν) :
    expr V (.product a b) = do
      let x ← expr V a
      let y ← expr V b
      return product x y := by
  rw [expr_eq_fold, expr_eq_fold, expr_eq_fold]
  rfl

/-- What holds of the leaves, and of sequences if it does of their steps, holds of an expression. -/
theorem expr_of_leaves {P : {α : Type} → Lowering α → Prop} (hpure : ∀ {α} (a : α), P (pure a))
    (hbind : ∀ {α β} {x : Lowering α} {f : α → Lowering β}, P x → (∀ a, P (f a)) → P (x >>= f))
    {e : Expr ν} (hleaf : ∀ l ∈ e.leaves, P (leaf V l)) : P (expr V e) := by
  induction e with
  | leaf l =>
    rw [expr_leaf]
    exact hleaf l List.mem_cons_self
  | neg e ih =>
    rw [expr_neg]
    exact hbind (ih hleaf) fun _ => hpure _
  | sum a b iha ihb =>
    obtain ⟨hleft, hright⟩ := List.forall_mem_append.1 hleaf
    rw [expr_sum]
    exact hbind (iha hleft) fun _ => hbind (ihb hright) fun _ => hpure _
  | product a b iha ihb =>
    obtain ⟨hleft, hright⟩ := List.forall_mem_append.1 hleaf
    rw [expr_product]
    exact hbind (iha hleft) fun _ => hbind (ihb hright) fun _ => hpure _

theorem expr_stable (e : Expr ν) : Stable (expr V e) :=
  expr_of_leaves V stable_pure Stable.bind fun l _ => leaf_stable V l

theorem exprs_cons (e : Expr ν) (es : List (Expr ν)) :
    exprs V (e :: es) = do
      let x ← expr V e
      let xs ← exprs V es
      return x :: xs :=
  List.mapM_cons

theorem exprs_stable (es : List (Expr ν)) : Stable (exprs V es) := .mapM (expr_stable V) es

end Plonkish.Lowering
