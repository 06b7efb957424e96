import Plonkish.Bytes

/-!
# Numbers and their bytes

* `Bytes.eq_ofNat_iff`: the digits of a number of a given width are the only bytes of that width
  that spell it.
* `Bytes.ofNat_eq_littleEndian`: the byte at a position is the digit of that weight.
-/

namespace Plonkish.Bytes

theorem capacity_pos (w : Nat) : 0 < capacity w := by
  induction w with
  | zero => exact Nat.one_pos
  | succ w ih => simp only [capacity]; omega

theorem toNat_ofNat_of_lt {w n : Nat} (h : n < capacity w) : toNat (ofNat w n) = n := by
  rw [toNat_ofNat, Nat.mod_eq_of_lt h]

theorem eq_ofNat_iff {bs : Bytes} {w n : Nat} (hn : n < capacity w) :
    bs = ofNat w n ↔ bs.length = w ∧ bs.toNat = n := by
  constructor
  · rintro rfl
    exact ⟨length_ofNat w n, toNat_ofNat_of_lt hn⟩
  · rintro ⟨rfl, rfl⟩
    exact (ofNat_toNat bs).symm

/-- The bytes of a number, if it has no more digits than there are bytes. -/
def ofNat? (width n : Nat) : Option Bytes := if n < capacity width then some (ofNat width n) else none

/-- The bytes each of which is the digit of its weight, a power of 256. -/
def littleEndian (size n : Nat) : Bytes :=
  (List.range size).map fun i => UInt8.ofNat (n / capacity i)

theorem ofNat_eq_littleEndian (size n : Nat) : ofNat size n = littleEndian size n := by
  induction size generalizing n with
  | zero => rfl
  | succ size ih =>
    have hfirst : n / capacity 0 = n := Nat.div_one n
    have hmore (i : Nat) : n / capacity (i + 1) = n / 256 / capacity i :=
      (Nat.div_div_eq_div_mul n 256 (capacity i)).symm
    rw [ofNat, ih, littleEndian, littleEndian, List.range_succ_eq_map]
    simp [hfirst, hmore]

end Plonkish.Bytes
