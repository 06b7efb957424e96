import Plonkish.Outline
import Plonkish.Proofs.Lowering.Circuit
import Plonkish.Proofs.Lowering.Constants
import Plonkish.Proofs.Lowering.Failure
import Plonkish.Proofs.Lowering.Variables
import Plonkish.Proofs.Outcome

/-!
# Outlines of circuits

The table of an outline holds the literals of the circuit and nothing else, and expressions refer
to what the outline has.

* `Outline.ofCircuit_eq_ok_iff`: which outline a circuit has.
* `Outline.exists_ofCircuit_iff`, `Outline.ofCircuit_eq_error`: which circuits have an outline, and
  why others have none.
* `Outline.constants_ofCircuit`: the table of constants, and what refers to it.
* `Outline.has_of_ofCircuit`: variables are inside their classes.
-/

namespace Plonkish

open Outcome Lowering

variable {ν : Type}

/-- The literals of a circuit, in the order in which its expressions are lowered. -/
def Circuit.literals (c : Circuit ν) : List Scalar := c.exprs.flatMap Expr.literals

namespace Outline

/-- The expressions of an outline. -/
def exprs (o : Outline ν) : List (Ir ν) := exprsOf o.gates o.lookups o.shuffles

/-- The positions of constants that the expressions of an outline refer to. -/
def references (o : Outline ν) : List Int := o.exprs.flatMap Ir.constants

/-- The variables that the expressions of an outline refer to. -/
def vars (o : Outline ν) : List (VariableClass × ν) := o.exprs.flatMap Ir.vars

variable {k : Int} {key : VerifyingKey}

section Quantities

variable [Quantity ν] [DecidableEq ν] {c : Circuit ν} {o : Outline ν}

/-- A circuit has an outline exactly if the size and the phases fit a byte, the fingerprint has the
size of a scalar and the circuit can be lowered, beginning with an empty table. -/
theorem ofCircuit_eq_ok_iff :
    ofCircuit k c key = .ok o ↔
      checkByte "k" k = .ok () ∧
        (∀ phase ∈ c.advicePhases ++ c.challengePhases, checkByte "phase" phase = .ok ()) ∧
          key.transcript.length = Scalar.byteSize ∧
            ∃ parts t, (circuit c).runAt {} = (.ok parts, t) ∧ o = ofParts k c key parts t := by
  unfold ofCircuit
  simp only [bind_eq_ok_iff]
  constructor
  · rintro ⟨⟨⟩, hk, ⟨⟩, hphases, h⟩
    split at h
    · cases h
    · next hlength =>
      split at h
      · next parts t hrun =>
        cases h
        exact ⟨hk, forM_eq_ok_iff.1 hphases, Decidable.not_not.1 hlength, parts, t, hrun, rfl⟩
      · cases h
  · rintro ⟨hk, hphases, hlength, parts, t, hrun, rfl⟩
    have hrun : (circuit c).run {} = (.ok parts, t) := hrun
    refine ⟨(), hk, (), forM_eq_ok_iff.2 hphases, ?_⟩
    rw [if_neg (not_not_intro hlength), hrun]

/-- The expressions of an outline are those of the circuit, lowered beginning with an empty
table. -/
theorem runAt_exprs_of_ofCircuit (h : ofCircuit k c key = .ok o) :
    (Lowering.exprs (.ofCircuit c) c.exprs).runAt {} = (.ok o.exprs, ⟨o.constants, false⟩) := by
  obtain ⟨-, -, -, parts, t, hrun, rfl⟩ := ofCircuit_eq_ok_iff.1 h
  have hrun := runAt_circuit hrun
  obtain ⟨hholds, -⟩ := exprs_enters _ _ ConstantTable.holds_empty hrun
  rw [hrun]
  obtain ⟨entries, frozen⟩ := t
  obtain rfl : frozen = false := hholds.frozen
  rfl

/-- The table of an outline holds the literals of the circuit, and its expressions refer to each
of them. -/
theorem enters_of_ofCircuit (h : ofCircuit k c key = .ok o) :
    (⟨o.constants, false⟩ : ConstantTable).Holds c.literals ∧
      (⟨o.constants, false⟩ : ConstantTable).Refers o.references c.literals :=
  exprs_enters _ _ ConstantTable.holds_empty (runAt_exprs_of_ofCircuit h)

/-- An outline refers to every constant of its table, and to nothing else. -/
theorem mem_references_iff (h : ofCircuit k c key = .ok o) {r : Int} :
    r ∈ o.references ↔ 0 ≤ r ∧ r < o.constants.length := by
  obtain ⟨hholds, hrefers⟩ := enters_of_ofCircuit h
  exact hholds.mem_iff hrefers

/-- The table of an outline holds the literals of the circuit, each where it is first met. The
expressions refer to all of the table and to nothing else, once for each literal. -/
theorem constants_ofCircuit (h : ofCircuit k c key = .ok o) :
    o.constants = c.literals.eraseDups.map Scalar.toBytes ∧
      (∀ r : Int, r ∈ o.references ↔ 0 ≤ r ∧ r < o.constants.length) ∧
        o.references.length = c.literals.length := by
  obtain ⟨hholds, hrefers⟩ := enters_of_ofCircuit h
  exact ⟨hholds.entries, fun r => mem_references_iff h, hrefers.length_eq⟩

end Quantities

theorem checkByte_eq_ok_iff {what : Text} {value : Int} :
    checkByte what value = .ok () ↔ 0 ≤ value ∧ value ≤ 255 := by
  rw [checkByte_int]
  by_cases h : 0 ≤ value ∧ value ≤ 255 <;> simp [h]

theorem exists_overflow_of_checkByte {what : Text} {value : Int} {e : OutlineError}
    (h : checkByte what value = .error e) : ∃ o, e = .overflow o := by
  rw [checkByte_int] at h
  split at h
  · cases h
  · cases h
    exact ⟨_, rfl⟩

/-- A circuit has no outline because a quantity does not fit a byte, because of the size of the
fingerprint or because it cannot be lowered, beginning with an empty table. -/
theorem ofCircuit_eq_error {c : Circuit} {e : OutlineError} (h : ofCircuit k c key = .error e) :
    (∃ o, e = .overflow o) ∨ (∃ size, e = .transcript size) ∨
      ∃ e', e = .schema e' ∧ ((circuit c).runAt {}).1 = .error e' := by
  unfold ofCircuit at h
  rcases bind_eq_error_iff.1 h with h | ⟨-, -, h⟩
  · exact .inl (exists_overflow_of_checkByte h)
  rcases bind_eq_error_iff.1 h with h | ⟨-, -, h⟩
  · obtain ⟨phase, -, h⟩ := exists_of_forM_eq_error h
    exact .inl (exists_overflow_of_checkByte h)
  split at h
  · cases h
    exact .inr (.inl ⟨_, rfl⟩)
  split at h
  · cases h
  · next hrun =>
    cases h
    exact .inr (.inr ⟨_, rfl, congrArg Prod.fst hrun⟩)

/-- A circuit can be lowered exactly if all that its expressions name is there. -/
theorem exists_runAt_circuit_iff {c : Circuit} :
    (∃ parts t, (circuit c).runAt {} = (.ok parts, t)) ↔
      ∀ e ∈ c.exprs, ∀ l ∈ e.leaves, (VariableSpace.ofCircuit c).Finds l := by
  have hverdict : verdict ((circuit c).runAt {}).1 = .ok () ↔
      ∀ e ∈ c.exprs, ∀ l ∈ e.leaves, (VariableSpace.ofCircuit c).Finds l := by
    rw [(circuit_checks c {} rfl).1, forM_eq_ok_iff, List.forall_mem_flatMap]
    simp only [VariableSpace.checkLeaf_eq_ok_iff]
  rw [← hverdict, verdict_eq_ok_iff]
  constructor
  · rintro ⟨parts, t, hrun⟩
    exact ⟨parts, by rw [hrun]⟩
  · rintro ⟨parts, hparts⟩
    exact ⟨parts, _, Prod.ext hparts rfl⟩

/-- A circuit has an outline exactly if the size and the phases fit a byte, the fingerprint has the
size of a scalar and all that the expressions name is there. -/
theorem exists_ofCircuit_iff {c : Circuit} :
    (∃ o, ofCircuit k c key = .ok o) ↔
      (0 ≤ k ∧ k ≤ 255) ∧
        (∀ phase ∈ c.advicePhases ++ c.challengePhases, 0 ≤ phase ∧ phase ≤ 255) ∧
          key.transcript.length = Scalar.byteSize ∧
            ∀ e ∈ c.exprs, ∀ l ∈ e.leaves, (VariableSpace.ofCircuit c).Finds l := by
  simp only [ofCircuit_eq_ok_iff, checkByte_eq_ok_iff, ← exists_runAt_circuit_iff]
  constructor
  · rintro ⟨o, hk, hphases, hlength, parts, t, hrun, -⟩
    exact ⟨hk, hphases, hlength, parts, t, hrun⟩
  · rintro ⟨hk, hphases, hlength, parts, t, hrun⟩
    exact ⟨_, hk, hphases, hlength, parts, t, hrun, rfl⟩

/-- The variables that an outline refers to are among those of its circuit. -/
theorem has_of_ofCircuit {c : Circuit} {o : Outline} (h : ofCircuit k c key = .ok o) :
    ∀ v ∈ o.vars, o.space.Has v := by
  have hhas := has_of_exprs (runAt_exprs_of_ofCircuit h)
  obtain ⟨-, -, -, parts, t, -, rfl⟩ := ofCircuit_eq_ok_iff.1 h
  exact hhas

/-! ## A circuit with repeated literals -/

/-- A column whose value is doubled and moved by three, and looked up among twice the value. -/
def affine : Circuit where
  fixedCount := 0
  instCount := 0
  advicePhases := [0]
  adviceQueries := [default]
  gates := [⟨.null, [.sum (.product (.constant 2) (.query default)) (.constant 3)]⟩]
  lookups := [⟨.null, [.constant 3], [.product (.query default) (.constant 2)]⟩]

/-- Its gate and its lookup, lowered. -/
def affineParts : Parts where
  gates := [⟨.null, [.sum (.scaled (.var .advice 0) 0) (.const 1)]⟩]
  lookups := [⟨.null, [.const 1], [.scaled (.var .advice 0) 0]⟩]
  shuffles := []

/-- The outline with sixteen rows. -/
def affineOutline : Outline :=
  ofParts 4 affine default affineParts ⟨[Scalar.toBytes 2, Scalar.toBytes 3], false⟩

theorem ofCircuit_affine : ofCircuit 4 affine default = .ok affineOutline := by
  decide +kernel

theorem constants_affine :
    ofCircuit 4 affine default = .ok affineOutline ∧
      affineOutline.constants = ([2, 3, 3, 2] : List Scalar).eraseDups.map Scalar.toBytes ∧
        (∀ r : Int, r ∈ affineOutline.references ↔ 0 ≤ r ∧ r < 2) ∧
          affineOutline.references.length = 4 :=
  ⟨ofCircuit_affine, constants_ofCircuit ofCircuit_affine⟩

end Outline

end Plonkish
