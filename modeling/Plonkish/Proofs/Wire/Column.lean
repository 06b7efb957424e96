import Plonkish.Proofs.Wire.Passage
import Plonkish.Wire.Column

/-!
# The codec of columns and queries

Phases are not on the wire, so a column is read back exactly if its phase is the one that the list
of advice phases gives it.

* `Column.HasPhaseIn`: that condition.
* `Wire.decodeColumn_eq_ok_iff`, `Wire.decodeQuery_eq_ok_iff`: what is read from some bytes is what
  they are written for, if the phase is right.
-/

namespace Plonkish

/-- The phase of a column is the one that the phases of the advice columns give it: for an advice
column that at its index, for another column zero. -/
def Column.HasPhaseIn (phases : List Int) (c : Column) : Prop :=
  match c.kind with
  | .advice => 0 ≤ c.index ∧ phases[c.index.toNat]? = some c.phase
  | _ => c.phase = 0

instance : ∀ (phases : List Int) (c : Column), Decidable (c.HasPhaseIn phases)
  | phases, ⟨.advice, index, phase⟩ =>
    inferInstanceAs (Decidable (0 ≤ index ∧ phases[index.toNat]? = some phase))
  | _, ⟨.fixed, _, phase⟩ => inferInstanceAs (Decidable (phase = 0))
  | _, ⟨.inst, _, phase⟩ => inferInstanceAs (Decidable (phase = 0))

namespace Wire

open Outcome Reader

variable {r r' : Reader} {data : Bytes} {phases : List Int}

theorem kindOfTag?_eq_some_iff {b : UInt8} {kind : ColumnKind} :
    kindOfTag? b = some kind ↔ b = kindTag kind := by
  unfold kindOfTag?
  constructor
  · intro h
    repeat' split at h
    all_goals cases h <;> assumption
  · rintro rfl
    cases kind <;> rfl

theorem phaseOf_eq_ok_iff {kind : ColumnKind} {i : Nat} {phase : Int} :
    phaseOf (some phases) kind i = .ok phase ↔ Column.HasPhaseIn phases ⟨kind, i, phase⟩ := by
  cases kind with
  | advice =>
    simp only [phaseOf, Column.HasPhaseIn, Int.toNat_natCast]
    constructor
    · intro h
      split at h
      · next p hp =>
        cases h
        exact ⟨Int.natCast_nonneg i, hp⟩
      · cases h
    · rintro ⟨-, h⟩
      rw [h]
  | fixed => simp [phaseOf, Column.HasPhaseIn, eq_comm]
  | inst => simp [phaseOf, Column.HasPhaseIn, eq_comm]

theorem encodeColumn_eq_ok_iff {c : Column} {bytes : Bytes} :
    encodeColumn c = .ok bytes ↔
      ∃ index, word 4 "column index" c.index = .ok index ∧ kindTag c.kind :: index = bytes := by
  simp only [encodeColumn, bind_eq_ok_iff, pure_eq_ok_iff]

theorem readColumn_eq_ok_iff {c : Column} :
    readColumn (some phases) r = .ok (c, r') ↔
      (∃ bytes, encodeColumn c = .ok bytes ∧ r.Passes bytes r') ∧ c.HasPhaseIn phases := by
  simp only [readColumn, bind_eq_ok_iff, Prod.exists, byte_eq_ok_iff, encodeColumn_eq_ok_iff]
  constructor
  · rintro ⟨tag, r₁, htag, h⟩
    split at h
    · cases h
    · next kind hkind =>
      simp only [bind_eq_ok_iff, Prod.exists, pure_eq_ok_iff, Prod.mk.injEq,
        number_eq_ok_iff_word "column index", phaseOf_eq_ok_iff] at h
      obtain ⟨i, r₂, ⟨index, hindex, hpass⟩, phase, hphase, rfl, rfl⟩ := h
      obtain rfl := kindOfTag?_eq_some_iff.1 hkind
      exact ⟨⟨_, ⟨index, hindex, rfl⟩, passes_cons_iff.2 ⟨r₁, htag, hpass⟩⟩, hphase⟩
  · obtain ⟨kind, index, phase⟩ := c
    rintro ⟨⟨_, ⟨bytes, hword, rfl⟩, hpass⟩, hphase⟩
    obtain ⟨r₁, htag, hrest⟩ := passes_cons_iff.1 hpass
    obtain ⟨i, rfl, -, -⟩ := word_eq_ok_iff_exists.1 hword
    refine ⟨kindTag kind, r₁, htag, ?_⟩
    rw [kindOfTag?_eq_some_iff.2 rfl]
    simp only [bind_eq_ok_iff, Prod.exists, pure_eq_ok_iff,
      Prod.mk.injEq, number_eq_ok_iff_word "column index", phaseOf_eq_ok_iff]
    exact ⟨i, r', ⟨bytes, hword, hrest⟩, phase, hphase, rfl, rfl⟩

/-- The byte of a direction. -/
def directionByte (forward : Bool) : UInt8 := if forward then 1 else 0

theorem encodeQuery_eq_ok_iff {q : Query} {bytes : Bytes} :
    encodeQuery q = .ok bytes ↔
      ∃ column, encodeColumn q.column = .ok column ∧
        ∃ magnitude, word 4 "rotation magnitude" q.rotation.magnitude = .ok magnitude ∧
          column ++ directionByte q.rotation.forward :: magnitude = bytes := by
  simp only [encodeQuery, bind_eq_ok_iff, pure_eq_ok_iff, directionByte]

theorem readRotation_eq_ok_iff {rotation : Rotation} :
    readRotation r = .ok (rotation, r') ↔
      ∃ magnitude, word 4 "rotation magnitude" rotation.magnitude = .ok magnitude ∧
        r.Passes (directionByte rotation.forward :: magnitude) r' := by
  simp only [readRotation, bind_eq_ok_iff, Prod.exists, byte_eq_ok_iff]
  constructor
  · rintro ⟨direction, r₁, hdir, h⟩
    split at h
    · cases h
    · next hd =>
      simp only [bind_eq_ok_iff, Prod.exists, pure_eq_ok_iff, Prod.mk.injEq,
        number_eq_ok_iff_word "rotation magnitude"] at h
      obtain ⟨n, r₂, ⟨magnitude, hword, hpass⟩, rfl, rfl⟩ := h
      have hbyte : directionByte (direction = 1) = direction := by
        by_cases h1 : direction = 1
        · simp [directionByte, h1]
        · have h0 : direction = 0 := by
            by_contra h0
            exact hd ⟨h0, h1⟩
          simp [directionByte, h0]
      exact ⟨magnitude, hword, passes_cons_iff.2 ⟨r₁, by rwa [hbyte], hpass⟩⟩
  · obtain ⟨m, forward⟩ := rotation
    rintro ⟨magnitude, hword, hpass⟩
    obtain ⟨r₁, hdir, hrest⟩ := passes_cons_iff.1 hpass
    obtain ⟨n, rfl, -, -⟩ := word_eq_ok_iff_exists.1 hword
    refine ⟨_, r₁, hdir, ?_⟩
    have hvalid : ¬(directionByte forward ≠ 0 ∧ directionByte forward ≠ 1) := by
      cases forward <;> decide
    have hforward : decide (directionByte forward = 1) = forward := by
      cases forward <;> decide
    rw [if_neg hvalid]
    simp only [bind_eq_ok_iff, Prod.exists, pure_eq_ok_iff, Prod.mk.injEq,
      number_eq_ok_iff_word "rotation magnitude", hforward]
    exact ⟨n, r', ⟨magnitude, hword, hrest⟩, rfl, rfl⟩

/-- A column is read from the bytes that it is written as, and from no others. -/
theorem decodeColumn_eq_ok_iff {c : Column} :
    decodeColumn (some phases) data = .ok c ↔ encodeColumn c = .ok data ∧ c.HasPhaseIn phases := by
  simp only [decodeColumn, bind_eq_ok_iff, Prod.exists, pure_eq_ok_iff, readColumn_eq_ok_iff,
    expectEnd_eq_ok_iff]
  constructor
  · rintro ⟨_, r, ⟨⟨bytes, hbytes, hpass⟩, hphase⟩, _, hend, rfl⟩
    obtain rfl := passes_to_end_iff.1 ⟨r, hpass, hend⟩
    exact ⟨hbytes, hphase⟩
  · rintro ⟨hdata, hphase⟩
    obtain ⟨r, hpass, hend⟩ := passes_to_end_iff.2 (rfl : data = data)
    exact ⟨c, r, ⟨⟨data, hdata, hpass⟩, hphase⟩, (), hend, rfl⟩

/-- A query is read from the bytes that it is written as, and from no others. -/
theorem decodeQuery_eq_ok_iff {q : Query} :
    decodeQuery (some phases) data = .ok q ↔
      encodeQuery q = .ok data ∧ q.column.HasPhaseIn phases := by
  simp only [decodeQuery, bind_eq_ok_iff, Prod.exists, pure_eq_ok_iff, readColumn_eq_ok_iff,
    readRotation_eq_ok_iff, expectEnd_eq_ok_iff, encodeQuery_eq_ok_iff]
  constructor
  · rintro ⟨_, r₁, ⟨⟨column, hcolumn, hpass⟩, hphase⟩, _, r₂, ⟨magnitude, hword, hpass'⟩, _, hend,
      rfl⟩
    obtain rfl := passes_to_end_iff.1 ⟨r₂, hpass.trans hpass', hend⟩
    exact ⟨⟨column, hcolumn, magnitude, hword, rfl⟩, hphase⟩
  · rintro ⟨⟨column, hcolumn, magnitude, hword, rfl⟩, hphase⟩
    obtain ⟨r₂, hpass, hend⟩ := passes_to_end_iff.2
      (rfl : column ++ directionByte q.rotation.forward :: magnitude = _)
    obtain ⟨r₁, hpass, hpass'⟩ := passes_append_iff.1 hpass
    exact ⟨q.column, r₁, ⟨⟨column, hcolumn, hpass⟩, hphase⟩, q.rotation, r₂,
      ⟨magnitude, hword, hpass'⟩, (), hend, rfl⟩

end Wire

end Plonkish
