import Plonkish.Proofs.ConstantTable.Operations
import Plonkish.Proofs.Lowering.Meaning
import Plonkish.Proofs.Outline

/-!
# Lowering again

What has been lowered once is lowered to the same at any later time. Its constants are in the table
and stay where they are, so nothing is entered and a frozen table does not refuse.

* `Activity`: what may be done with a table between two lowerings.
* `Lowering.runAt_circuit_table`: a circuit is lowered again on the frozen table of its outline.
* `Lowering.runAt_again`: expressions are lowered again, after any activities, and in any order on
  the frozen table of an outline.
-/

namespace Plonkish

/-! ## Lists of expressions -/

namespace Lowering

section Lists

variable {ν : Type} [Quantity ν] [DecidableEq ν] {V : VariableSpace ν} {es : List (Expr ν)}
  {irs : List (Ir ν)} {t t' : ConstantTable}

/-- Each of some expressions that were lowered together is lowered to the same by itself, at the
table that all of them have left. -/
theorem forall₂_runAt_of_exprs (h : (exprs V es).runAt t = (.ok irs, t')) :
    List.Forall₂ (fun e ir => (expr V e).runAt t' = (.ok ir, t')) es irs := by
  induction es generalizing t irs with
  | nil =>
    cases h
    exact .nil
  | cons e es ih =>
    rw [exprs_cons] at h
    obtain ⟨x, xs, t₁, hx, hxs, rfl⟩ := runAt_pair_eq_ok_iff.1 h
    have hmore := (exprs_stable V es).grows.reaches hxs
    exact .cons ((expr_stable V e).again hx hmore) (ih hxs)

/-- Expressions that are lowered without a change to the table are lowered so in a row. -/
theorem runAt_exprs_of_forall₂
    (h : List.Forall₂ (fun e ir => (expr V e).runAt t = (.ok ir, t)) es irs) :
    (exprs V es).runAt t = (.ok irs, t) := by
  induction h with
  | nil => rfl
  | cons hx _ ih =>
    rw [exprs_cons]
    exact runAt_pair_eq_ok_iff.2 ⟨_, _, t, hx, ih, rfl⟩

end Lists

end Lowering

/-! ## Between two lowerings -/

/-- What may be done with a table: an operation, or the lowering of an expression, which may
fail. -/
inductive Activity (ν : Type := Int)
  | operate (op : Operation)
  | lower (V : VariableSpace ν) (e : Expr ν)

namespace ConstantTable

variable {ν : Type} [Quantity ν] [DecidableEq ν]

/-- The table after an activity. -/
def afterActivity (t : ConstantTable) : Activity ν → ConstantTable
  | .operate op => (t.perform op).2
  | .lower V e => ((Lowering.expr V e).runAt t).2

theorem reaches_afterActivity (t : ConstantTable) (activity : Activity ν) :
    t.Reaches (t.afterActivity activity) := by
  cases activity with
  | operate op => exact reaches_perform t op
  | lower V e => exact (Lowering.expr_stable V e).grows t

/-- The table after some activities. -/
def afterActivities (t : ConstantTable) (activities : List (Activity ν)) : ConstantTable :=
  activities.foldl afterActivity t

theorem reaches_afterActivities (t : ConstantTable) (activities : List (Activity ν)) :
    t.Reaches (t.afterActivities activities) := by
  induction activities generalizing t with
  | nil => exact Reaches.refl t
  | cons activity activities ih =>
    exact (t.reaches_afterActivity activity).trans (ih (t.afterActivity activity))

end ConstantTable

/-- The frozen table of constants of an outline. -/
def Outline.table {ν : Type} (o : Outline ν) : ConstantTable := ⟨o.constants, true⟩

namespace Lowering

open ConstantTable

variable {ν : Type} [Quantity ν] [DecidableEq ν] {k : Int} {c : Circuit ν} {key : VerifyingKey}
  {o : Outline ν}

/-- A circuit is lowered again on the frozen table of its outline. -/
theorem runAt_circuit_table (h : Outline.ofCircuit k c key = .ok o) :
    (circuit c).runAt o.table = (.ok ⟨o.gates, o.lookups, o.shuffles⟩, o.table) := by
  obtain ⟨-, -, -, parts, t, hrun, rfl⟩ := Outline.ofCircuit_eq_ok_iff.1 h
  exact (circuit_stable c).again hrun (Relation.ReflTransGen.single (.freeze t))

theorem forall₂_runAt_table (h : Outline.ofCircuit k c key = .ok o) :
    List.Forall₂ (fun e ir => (expr (.ofCircuit c) e).runAt o.table = (.ok ir, o.table)) c.exprs
      o.exprs :=
  forall₂_runAt_of_exprs (runAt_circuit (runAt_circuit_table h))

/-- An expression that was lowered is lowered to the same, and without a change to the table, after
any activities. On the frozen table of an outline the circuit is lowered again to the gates, lookups
and shuffles of the outline, and its expressions are in any order. -/
theorem runAt_again :
    (∀ (V : VariableSpace ν) (e : Expr ν) (t t' : ConstantTable) (ir : Ir ν),
      (expr V e).runAt t = (.ok ir, t') →
        ∀ activities : List (Activity ν),
          (expr V e).runAt (t'.afterActivities activities) =
            (.ok ir, t'.afterActivities activities)) ∧
      ∀ (k : Int) (c : Circuit ν) (key : VerifyingKey) (o : Outline ν),
        Outline.ofCircuit k c key = .ok o →
          (circuit c).runAt o.table = (.ok ⟨o.gates, o.lookups, o.shuffles⟩, o.table) ∧
            c.exprs.length = o.exprs.length ∧
              ∀ order : List (Expr ν × Ir ν), order ⊆ c.exprs.zip o.exprs →
                (exprs (.ofCircuit c) (order.map Prod.fst)).runAt o.table =
                  (.ok (order.map Prod.snd), o.table) := by
  refine ⟨fun V e t t' ir h activities => ?_, fun k c key o h => ?_⟩
  · exact (expr_stable V e).again h (reaches_afterActivities t' activities)
  · obtain ⟨hlength, hpair⟩ := List.forall₂_iff_zip.1 (forall₂_runAt_table h)
    refine ⟨runAt_circuit_table h, hlength, fun order hsub => runAt_exprs_of_forall₂ ?_⟩
    rw [List.forall₂_map_left_iff, List.forall₂_map_right_iff, List.forall₂_same]
    exact fun p hp => hpair (hsub hp)

/-- Another constant is entered, an expression fails behind a constant that stays, the table is
frozen, and an expression with a new constant is refused. -/
def interruptions : List Activity :=
  [.operate (.intern 7), .lower oneQuery (.product (.constant 9) (.leaf (.selector 0))),
    .operate .freeze, .lower oneQuery (.constant 11)]

theorem runAt_again_interrupted :
    (expr oneQuery (.product (.constant 2) (.query default))).runAt {} =
        (.ok (.scaled (.var .advice 0) 0), ⟨[Scalar.toBytes 2], false⟩) ∧
      (expr oneQuery (.product (.constant 2) (.query default))).runAt
          ⟨[2, 7, 9].map Scalar.toBytes, true⟩ =
        (.ok (.scaled (.var .advice 0) 0), ⟨[2, 7, 9].map Scalar.toBytes, true⟩) ∧
      Outline.ofCircuit 4 Outline.affine default = .ok Outline.affineOutline ∧
        (exprs (.ofCircuit Outline.affine) Outline.affine.exprs.reverse).runAt
            Outline.affineOutline.table =
          (.ok Outline.affineOutline.exprs.reverse, Outline.affineOutline.table) := by
  obtain ⟨hexpr, houtline⟩ := runAt_again (ν := Int)
  have hafter : (⟨[Scalar.toBytes 2], false⟩ : ConstantTable).afterActivities interruptions =
      ⟨[2, 7, 9].map Scalar.toBytes, true⟩ := by decide +kernel
  have hagain := hexpr _ _ _ _ _ runAt_expr_oneQuery interruptions
  rw [hafter] at hagain
  obtain ⟨-, -, horder⟩ := houtline _ _ _ _ Outline.ofCircuit_affine
  exact ⟨runAt_expr_oneQuery, hagain, Outline.ofCircuit_affine,
    horder (Outline.affine.exprs.zip Outline.affineOutline.exprs).reverse (by simp)⟩

end Lowering

end Plonkish
