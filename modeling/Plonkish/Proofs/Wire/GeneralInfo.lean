import Plonkish.Proofs.Wire.Passage
import Plonkish.Wire.Outline

/-!
# The codec of the general information

Numbers, phases and width flags each have one spelling, and commitments are joined without
separators: the general information keeps all parameters but where commitments end.

* `GeneralInfo.Describes`: what is kept.
* `Outline.generalInfo_eq_ok_iff`: the elements are written for an outline exactly if what they are
  read as describes it.
-/

namespace Plonkish

namespace Wire

open Outcome

variable {element : Bytes}

theorem infoNumber_eq_ok_iff {index size n : Nat} (what : Text) :
    infoNumber index size element = .ok n ↔ word size what (n : Int) = .ok element := by
  rw [word_eq_ok_iff_exists]
  unfold infoNumber
  constructor
  · intro h
    split at h
    · cases h
    · next hsize =>
      cases h
      rw [not_not] at hsize
      have hlt := Bytes.toNat_lt element
      rw [hsize] at hlt
      exact ⟨element.toNat, rfl, hlt, (Bytes.eq_ofNat_iff hlt).2 ⟨hsize, rfl⟩⟩
  · rintro ⟨m, hm, hlt, h⟩
    obtain rfl := Int.natCast_inj.1 hm
    obtain ⟨hsize, hn⟩ := (Bytes.eq_ofNat_iff hlt).1 h
    rw [if_neg (not_not.2 hsize), hn]

/-- A word is read back as the natural number that it is written for. -/
theorem exists_infoNumber_of_word {size : Nat} {what : Text} {value : Int} (index : Nat)
    (h : word size what value = .ok element) :
    ∃ n : Nat, value = n ∧ infoNumber index size element = .ok n := by
  obtain ⟨n, rfl, -, -⟩ := word_eq_ok_iff_exists.1 h
  exact ⟨n, rfl, (infoNumber_eq_ok_iff what).2 h⟩

namespace Width

theorem ofFlag?_eq_some_iff {b : UInt8} {w : Width} : ofFlag? b = some w ↔ b = w.flag := by
  unfold ofFlag?
  constructor
  · intro h
    repeat' split at h
    all_goals cases h <;> assumption
  · rintro rfl
    cases w <;> rfl

@[simp] theorem ofFlag?_flag (w : Width) : ofFlag? w.flag = some w := ofFlag?_eq_some_iff.2 rfl

theorem flag_injective {v w : Width} (h : v.flag = w.flag) : v = w := by
  have hv := ofFlag?_flag v
  rw [h, ofFlag?_flag] at hv
  exact (Option.some.inj hv).symm

end Width

theorem infoWidth_eq_ok_iff {w : Width} : infoWidth element = .ok w ↔ element = [w.flag] := by
  constructor
  · intro h
    unfold infoWidth at h
    repeat' split at h
    · next hw =>
      cases h
      rw [Width.ofFlag?_eq_some_iff.1 hw]
    · cases h
    · cases h
  · rintro rfl
    simp only [infoWidth, Width.ofFlag?_flag]

end Wire

open Wire Outcome

namespace Outline

theorem encodePhase_eq_ok_iff {phase : Int} {bytes : Bytes} :
    encodePhase phase = .ok bytes ↔ ∃ b : UInt8, phase = b.toNat ∧ bytes = [b] := by
  rw [encodePhase_int, word_eq_ok_iff_exists]
  constructor
  · rintro ⟨n, rfl, hn, rfl⟩
    refine ⟨UInt8.ofNat n, ?_, rfl⟩
    have hn : n < 256 := hn
    rw [UInt8.toNat_ofNat', Nat.mod_eq_of_lt hn]
  · rintro ⟨b, rfl, rfl⟩
    refine ⟨b.toNat, rfl, b.toNat_lt, ?_⟩
    rw [Bytes.ofNat, Bytes.ofNat, UInt8.ofNat_toNat]

/-- Phases are one byte each, in order. -/
theorem encodePhases_eq_ok_iff {phases : List Int} {bytes : Bytes} :
    encodePhases phases = .ok bytes ↔ phases = infoPhases bytes := by
  simp only [encodePhases, bind_eq_ok_iff, pure_eq_ok_iff]
  induction phases generalizing bytes with
  | nil =>
    cases bytes with
    | nil => exact ⟨fun _ => rfl, fun _ => ⟨[], rfl, rfl⟩⟩
    | cons b bytes =>
      constructor
      · rintro ⟨_, h, hb⟩
        cases h
        cases hb
      · intro h
        cases h
  | cons phase phases ih =>
    simp only [List.mapM_cons, bind_eq_ok_iff, pure_eq_ok_iff, encodePhase_eq_ok_iff]
    constructor
    · rintro ⟨_, ⟨_, ⟨b, rfl, rfl⟩, parts, hparts, rfl⟩, rfl⟩
      rw [ih.1 ⟨parts, hparts, rfl⟩]
      simp [infoPhases]
    · intro h
      cases bytes with
      | nil => cases h
      | cons b bytes =>
        simp only [infoPhases, List.map_cons, List.cons.injEq] at h
        obtain ⟨hb, hbytes⟩ := h
        obtain ⟨parts, hparts, rfl⟩ := ih.2 hbytes
        exact ⟨[b] :: parts, ⟨[b], ⟨b, hb, rfl⟩, parts, hparts, rfl⟩, rfl⟩

end Outline

/-- The general information holds the parameters of an outline and two widths. Of the commitments
it holds the bytes. -/
structure Wire.GeneralInfo.Describes (info : GeneralInfo) (o : Outline) (query pool : Width) :
    Prop where
  transcript : o.transcript = info.transcript
  fixedCommitments : o.fixedCommitments.flatten = info.fixedCommitments
  permutationCommitments : o.permutationCommitments.flatten = info.permutationCommitments
  k : o.k = info.k
  maxQueries : o.maxQueries = info.maxQueries
  degree : o.degree = info.degree
  fixedCount : o.fixedCount = info.fixedCount
  instCount : o.instCount = info.instCount
  advicePhases : o.advicePhases = info.advicePhases
  challengePhases : o.challengePhases = info.challengePhases
  queryWidth : query = info.queryWidth
  poolWidth : pool = info.poolWidth

namespace Outline

variable {o : Outline} {query pool : Width} {elements : List Bytes}

theorem exists_describes_of_generalInfo (h : o.generalInfo query pool = .ok elements) :
    ∃ info, GeneralInfo.ofElements elements = .ok info ∧ info.Describes o query pool := by
  simp only [generalInfo, bind_eq_ok_iff, pure_eq_ok_iff, encodePhases_eq_ok_iff] at h
  obtain ⟨_, hk, _, hmax, _, hdegree, _, hfixed, _, hinst, advice, hadvice, challenge, hchallenge,
    rfl⟩ := h
  obtain ⟨k, hk, hk'⟩ := exists_infoNumber_of_word 3 hk
  obtain ⟨maxQueries, hmax, hmax'⟩ := exists_infoNumber_of_word 4 hmax
  obtain ⟨degree, hdegree, hdegree'⟩ := exists_infoNumber_of_word 5 hdegree
  obtain ⟨fixedCount, hfixed, hfixed'⟩ := exists_infoNumber_of_word 6 hfixed
  obtain ⟨instCount, hinst, hinst'⟩ := exists_infoNumber_of_word 7 hinst
  refine ⟨⟨o.transcript, _, _, k, maxQueries, degree, fixedCount, instCount, infoPhases advice,
    infoPhases challenge, query, pool⟩, ?_, rfl, rfl, rfl, hk, hmax, hdegree, hfixed, hinst,
    hadvice, hchallenge, rfl, rfl⟩
  simp only [GeneralInfo.ofElements, bind_eq_ok_iff, pure_eq_ok_iff, infoWidth_eq_ok_iff]
  exact ⟨k, hk', maxQueries, hmax', degree, hdegree', fixedCount, hfixed', instCount, hinst', query,
    rfl, pool, rfl, rfl⟩

theorem generalInfo_of_describes {info : GeneralInfo}
    (h : GeneralInfo.ofElements elements = .ok info) (hd : info.Describes o query pool) :
    o.generalInfo query pool = .ok elements := by
  unfold GeneralInfo.ofElements at h
  split at h
  · simp only [bind_eq_ok_iff, pure_eq_ok_iff, infoWidth_eq_ok_iff] at h
    obtain ⟨k, hk, maxQueries, hmax, degree, hdegree, fixedCount, hfixed, instCount, hinst, query',
      rfl, pool', rfl, rfl⟩ := h
    simp only [generalInfo, bind_eq_ok_iff, pure_eq_ok_iff, encodePhases_eq_ok_iff]
    rw [hd.k, hd.maxQueries, hd.degree, hd.fixedCount, hd.instCount, hd.transcript,
      hd.fixedCommitments, hd.permutationCommitments, hd.queryWidth, hd.poolWidth]
    exact ⟨_, (infoNumber_eq_ok_iff _).1 hk, _, (infoNumber_eq_ok_iff _).1 hmax,
      _, (infoNumber_eq_ok_iff _).1 hdegree, _, (infoNumber_eq_ok_iff _).1 hfixed,
      _, (infoNumber_eq_ok_iff _).1 hinst, _, hd.advicePhases, _, hd.challengePhases, rfl⟩
  · cases h

/-- The general information is written for an outline exactly if it is read as a description of
it. -/
theorem generalInfo_eq_ok_iff :
    o.generalInfo query pool = .ok elements ↔
      ∃ info, GeneralInfo.ofElements elements = .ok info ∧ info.Describes o query pool :=
  ⟨exists_describes_of_generalInfo, fun ⟨_, h, hd⟩ => generalInfo_of_describes h hd⟩

end Outline

end Plonkish
