import Plonkish.Wire.Word

/-!
# Ranges of words and widths

An integer is written exactly if it is in the range of its word, and the width that is chosen for
some lists has room for every position in them.

* `Wire.exists_word_iff`: the integers that are written.
* `Wire.Width.fitsWord_of_select`: positions have room in the chosen width.
-/

namespace Plonkish.Wire

/-- An integer is in the range of a word of `size` bytes. -/
def FitsWord (size : Nat) (value : Int) : Prop := 0 ≤ value ∧ value ≤ maxWord size

instance (size : Nat) (value : Int) : Decidable (FitsWord size value) :=
  inferInstanceAs (Decidable (_ ∧ _))

variable {size : Nat} {what : Text} {value : Int}

theorem exists_word_iff : (∃ bytes, word size what value = .ok bytes) ↔ FitsWord size value := by
  simp only [word_eq_ok_iff, FitsWord]
  exact ⟨fun ⟨_, h0, h1, _⟩ => ⟨h0, h1⟩, fun ⟨h0, h1⟩ => ⟨_, h0, h1, rfl⟩⟩

theorem fitsWord_one_iff : FitsWord 1 value ↔ 0 ≤ value ∧ value ≤ 255 := Iff.rfl

theorem fitsWord_four_iff : FitsWord 4 value ↔ 0 ≤ value ∧ value < 0x100000000 := by
  have hmax : (maxWord 4 : Int) = 0xFFFFFFFF := rfl
  rw [FitsWord, hmax]
  omega

theorem fitsWord_eight_iff : FitsWord 8 value ↔ 0 ≤ value ∧ value < 0x10000000000000000 := by
  have hmax : (maxWord 8 : Int) = 0xFFFFFFFFFFFFFFFF := rfl
  rw [FitsWord, hmax]
  omega

namespace Width

variable {counts : List Nat} {w : Width}

theorem select_eq_ok_iff :
    select what counts = .ok w ↔
      (∀ n ∈ counts, n ≤ maxCount) ∧ (w = .u8 ↔ ∀ n ∈ counts, n ≤ 255) := by
  have hall : counts.all (fun n => decide (n ≤ 255)) = true ↔ ∀ n ∈ counts, n ≤ 255 := by simp
  unfold select
  split
  · next n hn =>
    have hmem := List.mem_of_find?_eq_some hn
    have hlt := List.find?_some hn
    simp only [decide_eq_true_eq] at hlt
    constructor
    · rintro ⟨⟩
    · rintro ⟨hle, -⟩
      exact absurd (hle n hmem) (Nat.not_le.2 hlt)
  · next hn =>
    have hle : ∀ n ∈ counts, n ≤ maxCount := by simpa using hn
    rw [Except.ok.injEq, ← hall]
    constructor
    · rintro rfl
      exact ⟨hle, by split <;> simp_all⟩
    · rintro ⟨-, hw⟩
      cases w <;> simp_all

theorem exists_select_iff :
    (∃ w, select what counts = .ok w) ↔ ∀ n ∈ counts, n ≤ 0x100000000 := by
  simp only [select_eq_ok_iff, exists_and_left]
  refine and_iff_left_of_imp fun _ => ?_
  by_cases hshort : ∀ n ∈ counts, n ≤ 255
  · exact ⟨.u8, iff_of_true rfl hshort⟩
  · exact ⟨.u32, iff_of_false nofun hshort⟩

/-- The chosen width has room for every position in the lists that it was chosen for. -/
theorem fitsWord_of_select (h : select what counts = .ok w) {n : Nat} (hn : n ∈ counts)
    (hnonneg : 0 ≤ value) (hlt : value < n) : FitsWord w.size value := by
  obtain ⟨hcounts, hshort⟩ := select_eq_ok_iff.1 h
  cases w with
  | u8 =>
    have := hshort.1 rfl n hn
    exact fitsWord_one_iff.2 ⟨hnonneg, by omega⟩
  | u32 =>
    have hle : n ≤ 0x100000000 := hcounts n hn
    exact fitsWord_four_iff.2 ⟨hnonneg, by omega⟩

end Width

end Plonkish.Wire
