import Mathlib.Data.List.Basic
import Plonkish.Bytes.Hex

/-!
# Hexadecimal text read back

* `Hex.decode_toHex`: the hexadecimal text of a byte string is read as the byte string.
-/

namespace Plonkish.Hex

open Bytes

variable {n : Nat} {b : UInt8}

/-- Each of the sixteen digits is a digit, and no blank. -/
theorem digit?_hexDigit (h : n < 16) :
    digit? (hexDigit n) = some n ∧ isBlank (hexDigit n) = false ∧ (hexDigit n).toNat < 128 := by
  have hall : ∀ n < 16, digit? (hexDigit n) = some n ∧ isBlank (hexDigit n) = false ∧
      (hexDigit n).toNat < 128 := by
    decide
  exact hall n h

theorem high_lt (b : UInt8) : b.toNat / 16 < 16 := by
  have h := b.toNat_lt
  omega

theorem low_lt (b : UInt8) : b.toNat % 16 < 16 := Nat.mod_lt _ (by decide)

/-- The digits of some bytes are read as the bytes. -/
theorem pairs_flatMap_hexPair (pos : Nat) (read bs : Bytes) :
    pairs pos read (bs.flatMap hexPair) = .ok (read.reverse ++ bs) := by
  induction bs generalizing pos read with
  | nil => rw [List.append_nil]; rfl
  | cons b bs ih =>
    obtain ⟨hhigh, hblank, -⟩ := digit?_hexDigit (high_lt b)
    obtain ⟨hlow, -, -⟩ := digit?_hexDigit (low_lt b)
    have hbyte : UInt8.ofNat (16 * (b.toNat / 16) + b.toNat % 16) = b := by
      rw [Nat.div_add_mod, UInt8.ofNat_toNat]
    rw [List.flatMap_cons, hexPair, List.cons_append, List.singleton_append]
    unfold pairs
    simp only [hblank, Bool.false_eq_true, if_false, hhigh, hlow, hbyte, ih, List.reverse_cons,
      List.append_assoc, List.singleton_append]

theorem lt_of_mem_hexPair {c : Char} (h : c ∈ hexPair b) : c.toNat < 128 := by
  obtain ⟨-, -, hhigh⟩ := digit?_hexDigit (high_lt b)
  obtain ⟨-, -, hlow⟩ := digit?_hexDigit (low_lt b)
  rcases List.mem_pair.1 h with rfl | rfl
  · exact hhigh
  · exact hlow

/-- The hexadecimal text of a byte string is read as the byte string. -/
theorem decode_toHex (bs : Bytes) : decode (.ofString bs.toHex) = .ok bs := by
  have hascii : ((bs.flatMap hexPair).map CodePoint.ofChar).findIdx? (fun p => 128 ≤ p.val) =
      none := by
    rw [List.findIdx?_eq_none_iff, List.forall_mem_map]
    intro c hc
    obtain ⟨b, -, hc⟩ := List.mem_flatMap.1 hc
    exact decide_eq_false (Nat.not_le.2 (lt_of_mem_hexPair hc))
  have hread : CodePoint.toChar? ∘ CodePoint.ofChar = some := funext CodePoint.toChar?_ofChar
  have hchars : ((bs.flatMap hexPair).map CodePoint.ofChar).filterMap CodePoint.toChar? =
      bs.flatMap hexPair := by
    rw [List.filterMap_map, hread, List.filterMap_some]
  rw [decode, Text.ofString, toHex, String.toList_ofList, hascii]
  simp only [hchars]
  exact pairs_flatMap_hexPair 0 [] bs

end Plonkish.Hex
