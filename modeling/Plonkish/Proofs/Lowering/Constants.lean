import Plonkish.Proofs.Expr
import Plonkish.Proofs.Ir
import Plonkish.Proofs.Lowering.Run

/-!
# Constants of lowered expressions

The table grows by the literals of an expression from left to right, and the lowered expression
refers to each of them once. Scaling moves references, so they may come in another order.

* `Expr.literals`: the literals of an expression.
* `Lowering.Enters`: what a computation enters into the table, and refers to.
* `Lowering.exprs_enters`: lowering enters the literals and refers to them.
-/

namespace Plonkish

variable {ν : Type}

/-- The value of a literal. -/
def Leaf.constant? : Leaf ν → Option Scalar
  | .constant v => some v
  | _ => none

theorem Leaf.constant?_eq_some_iff {l : Leaf ν} {v : Scalar} :
    l.constant? = some v ↔ l = .constant v := by
  cases l <;> simp [constant?]

/-- The values of the literals of a tree, from left to right. -/
def Expr.literals (e : Expr ν) : List Scalar := e.leaves.filterMap Leaf.constant?

namespace Lowering

open ConstantTable

variable {α β γ : Type} {x : Lowering α} {y : Lowering β} {refs : α → List Int}
  {refs' : β → List Int} {vs ws : List Scalar}

/-- A computation that succeeds has entered a list of constants, and its result refers to them. -/
def Enters (x : Lowering α) (refs : α → List Int) (vs : List Scalar) : Prop :=
  ∀ ⦃t t' a us⦄, t.Holds us → x.runAt t = (.ok a, t') → t'.Holds (us ++ vs) ∧ t'.Refers (refs a) vs

theorem enters_pure (a : α) (h : refs a = []) : Enters (pure a) refs [] := by
  rintro t t' _ us hholds ⟨⟩
  rw [List.append_nil, h]
  exact ⟨hholds, refers_nil⟩

theorem enters_ofExcept (r : Except SchemaError α) : Enters (ofExcept r) (fun _ => []) [] := by
  rintro t t' a us hholds ⟨⟩
  rw [List.append_nil]
  exact ⟨hholds, refers_nil⟩

theorem enters_intern (v : Scalar) : Enters (intern v) (fun i => [(i : Int)]) [v] :=
  fun _ _ _ _ hholds h => ⟨hholds.intern h, refers_of_intern h⟩

theorem Enters.map (hx : Enters x refs vs) {g : α → β} (hg : ∀ a, (refs' (g a)).Perm (refs a)) :
    Enters (do let a ← x; return g a) refs' vs := by
  intro t t' b us hholds h
  obtain ⟨a, ha, rfl⟩ := runAt_map_eq_ok_iff.1 h
  obtain ⟨hholds, hrefers⟩ := hx hholds ha
  exact ⟨hholds, hrefers.perm (hg a)⟩

/-- The second operand only adds to the table that the first one refers to. -/
theorem Enters.map₂ (hx : Enters x refs vs) (hy : Enters y refs' ws) (hgrows : Grows y)
    {g : α → β → γ} {refs'' : γ → List Int}
    (hg : ∀ a b, (refs'' (g a b)).Perm (refs a ++ refs' b)) :
    Enters (do let a ← x; let b ← y; return g a b) refs'' (vs ++ ws) := by
  intro t t' c us hholds h
  obtain ⟨a, b, t₁, ha, hb, rfl⟩ := runAt_pair_eq_ok_iff.1 h
  obtain ⟨hholds₁, hrefers₁⟩ := hx hholds ha
  obtain ⟨hholds₂, hrefers₂⟩ := hy hholds₁ hb
  rw [List.append_assoc] at hholds₂
  exact ⟨hholds₂, ((hrefers₁.later (hgrows.reaches hb)).append hrefers₂).perm (hg a b)⟩

/-! ## Expressions -/

/-- A product refers to what its operands refer to, in some order. -/
theorem constants_product_perm (a b : Ir ν) :
    (product a b).constants.Perm (a.constants ++ b.constants) := by
  unfold product
  split
  · rw [Ir.constants_scaled, Ir.constants_const]
    exact .refl _
  · rw [Ir.constants_scaled, Ir.constants_const]
    exact (List.perm_append_singleton _ _).symm
  · rw [Ir.constants_product]

variable [Quantity ν] [DecidableEq ν] (V : VariableSpace ν)

theorem leaf_enters (l : Leaf ν) :
    Enters (leaf V l) Ir.constants ([l].filterMap Leaf.constant?) := by
  cases l with
  | constant v => exact (enters_intern v).map fun i => .of_eq (Ir.constants_const i)
  | query q => exact (enters_ofExcept _).map fun i => .of_eq (Ir.constants_var _ _)
  | challenge index phase => exact (enters_ofExcept _).map fun i => .of_eq (Ir.constants_var _ _)
  | selector index =>
    rintro t t' a us - ⟨⟩

/-- Lowering an expression enters its literals, and the result refers to each. -/
theorem expr_enters (e : Expr ν) : Enters (expr V e) Ir.constants e.literals := by
  induction e with
  | leaf l =>
    rw [expr_leaf]
    exact leaf_enters V l
  | neg e ih =>
    rw [expr_neg]
    exact ih.map fun x => .of_eq (Ir.constants_neg x)
  | sum a b iha ihb =>
    rw [expr_sum, Expr.literals, Expr.leaves, List.filterMap_append]
    exact iha.map₂ ihb (expr_stable V b).grows fun x y => .of_eq (Ir.constants_sum x y)
  | product a b iha ihb =>
    rw [expr_product, Expr.literals, Expr.leaves, List.filterMap_append]
    exact iha.map₂ ihb (expr_stable V b).grows constants_product_perm

theorem exprs_enters (es : List (Expr ν)) :
    Enters (exprs V es) (List.flatMap Ir.constants) (es.flatMap Expr.literals) := by
  induction es with
  | nil => exact enters_pure [] rfl
  | cons e es ih =>
    rw [exprs_cons, List.flatMap_cons]
    exact (expr_enters V e).map₂ ih (exprs_stable V es).grows fun x xs => .of_eq List.flatMap_cons

end Lowering

end Plonkish
