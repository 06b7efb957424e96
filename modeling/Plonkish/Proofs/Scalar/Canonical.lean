import Mathlib.Data.Int.ModEq
import Plonkish.Proofs.Bytes
import Plonkish.Scalar

/-!
# The codec of scalars

Each scalar has one canonical form, and each canonical form is read as the scalar that it spells.

* `Scalar.IsCanonical`: the byte strings that are canonical forms.
* `Scalar.ofBytes_eq_ok_iff`: a scalar is read from its canonical bytes, and from no others.
* `Scalar.ofInt_eq_iff`: integers stand for one scalar exactly if they are congruent.
* `Scalar.canonical_forms`: the canonical forms of integers, and what is read from byte strings.
-/

namespace Plonkish.Scalar

variable {bytes : Bytes} {x : Scalar}

/-- A canonical form has the size of a scalar and spells a number below the modulus. -/
def IsCanonical (bytes : Bytes) : Prop := bytes.length = byteSize ∧ bytes.toNat < modulus

instance : Decidable (IsCanonical bytes) := inferInstanceAs (Decidable (_ ∧ _))

theorem val_lt_capacity (x : Scalar) : x.val < Bytes.capacity byteSize :=
  Nat.lt_trans x.isLt (by decide)

theorem ofBytes_eq_ok_iff : ofBytes bytes = .ok x ↔ bytes = x.toBytes := by
  constructor
  · intro h
    unfold ofBytes at h
    split at h
    · cases h
    · next hlength =>
      split at h
      · cases h
        exact (Bytes.eq_ofNat_iff (val_lt_capacity _)).2 ⟨Decidable.not_not.1 hlength, rfl⟩
      · cases h
  · rintro rfl
    exact ofBytes_toBytes x

theorem toBytes_injective : Function.Injective toBytes := by
  intro x y h
  have hread := ofBytes_eq_ok_iff.2 h
  rw [ofBytes_toBytes] at hread
  exact Except.ok.inj hread

theorem isCanonical_iff : IsCanonical bytes ↔ ∃ x, ofBytes bytes = .ok x := by
  constructor
  · rintro ⟨hlength, hlt⟩
    exact ⟨⟨bytes.toNat, hlt⟩, by simp [ofBytes, hlength, hlt]⟩
  · rintro ⟨x, h⟩
    obtain rfl := ofBytes_eq_ok_iff.1 h
    refine ⟨length_toBytes x, ?_⟩
    rw [toBytes, Bytes.toNat_ofNat_of_lt (val_lt_capacity x)]
    exact x.isLt

theorem val_ofInt (v : Int) : ((ofInt v).val : Int) = v % modulus :=
  Int.toNat_of_nonneg (Int.emod_nonneg v (by decide))

/-- Integers stand for one scalar exactly if they are congruent. -/
theorem ofInt_eq_iff {u v : Int} : ofInt u = ofInt v ↔ u ≡ v [ZMOD modulus] := by
  have hpos : (0 : Int) < modulus := by decide
  have hu : 0 ≤ u % modulus := Int.emod_nonneg u (Int.ne_of_gt hpos)
  have hv : 0 ≤ v % modulus := Int.emod_nonneg v (Int.ne_of_gt hpos)
  rw [ofInt, ofInt, Fin.mk.injEq, Int.ModEq]
  omega

/-- Every integer has a canonical form of 32 bytes, with room for all of its residue, from which the
residue is read. A byte string is read exactly if it is 32 bytes that spell a number below the
modulus, and then as the one scalar that it is the canonical form of. So integers have one canonical
form exactly if they are congruent. -/
theorem canonical_forms :
    (∀ v : Int, Bytes.ofNat? 32 (ofInt v).val = some (ofInt v).toBytes ∧
      (ofInt v).toBytes.length = 32 ∧
        ∃ x, ofBytes (ofInt v).toBytes = .ok x ∧ (x.val : Int) = v % modulus) ∧
      (∀ bytes : Bytes,
        ((∃ x, ofBytes bytes = .ok x) ↔ bytes.length = 32 ∧ bytes.toNat < modulus) ∧
          ∀ x, ofBytes bytes = .ok x ↔ x.toBytes = bytes) ∧
        ∀ u v : Int, (ofInt u).toBytes = (ofInt v).toBytes ↔ u ≡ v [ZMOD modulus] := by
  refine ⟨fun v => ⟨?_, length_toBytes (ofInt v), ?_⟩, fun bytes => ⟨?_, fun x => ?_⟩, fun u v => ?_⟩
  · exact if_pos (val_lt_capacity (ofInt v))
  · exact ⟨ofInt v, ofBytes_toBytes (ofInt v), val_ofInt v⟩
  · exact isCanonical_iff.symm
  · rw [ofBytes_eq_ok_iff, eq_comm]
  · rw [toBytes_injective.eq_iff, ofInt_eq_iff]

/-- The bytes of the modulus are not a second form of zero. -/
example : ofBytes (Bytes.ofNat 32 modulus) = .error (.notReduced (Bytes.ofNat 32 modulus)) := by
  decide +kernel

end Plonkish.Scalar
