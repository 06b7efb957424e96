import Plonkish.Proofs.Poly.Coefficient

/-!
# Normal forms of term lists

Sorting terms, adding up and dropping zeros gives the one normal form that has the coefficients of
the list. So the order of the terms does not matter, and the lists that are kept are those that
pass the test.

* `Poly.normalize_of_isNormal`, `Poly.normalize_perm`: normal forms are kept, and orders forgotten.
* `Poly.weighted_only_residues`: the coefficients of terms that are given with integers.
* `Poly.normalize_canonical`: what normalizing does to a list, and which lists it keeps.
-/

namespace Plonkish

/-- The residue of a sum is the sum of the residues. -/
theorem Scalar.ofInt_add (u v : Int) : ofInt (u + v) = ofInt u + ofInt v := by
  have hpos : (0 : Int) < modulus := by decide
  have hu := Int.emod_nonneg u (Int.ne_of_gt hpos)
  have hv := Int.emod_nonneg v (Int.ne_of_gt hpos)
  have huv := Int.emod_nonneg (u + v) (Int.ne_of_gt hpos)
  apply Fin.ext
  rw [Fin.val_add]
  apply Int.natCast_inj.1
  simp only [ofInt, Int.natCast_emod, Int.natCast_add, Int.toNat_of_nonneg hu,
    Int.toNat_of_nonneg hv, Int.toNat_of_nonneg huv, Int.emod_add_emod, Int.add_emod_emod]

namespace Poly

variable {terms a b : List Term} {m : Monomial}

/-! ## Normal forms -/

/-- A normal form is kept. -/
theorem normalize_of_isNormal (h : IsNormal terms) : normalize terms = terms :=
  eq_of_weighted_only (isNormal_normalize terms) h fun m => weighted_normalize (only m) terms

/-- The lists that are kept are those that pass the test. -/
theorem isNormalized_iff_normalize_eq : isNormalized terms = true ↔ normalize terms = terms := by
  rw [isNormalized_iff]
  constructor
  · exact normalize_of_isNormal
  · intro h
    rw [← h]
    exact isNormal_normalize terms

/-- The order of the terms does not matter. -/
theorem normalize_perm (h : a.Perm b) : normalize a = normalize b := by
  refine eq_of_weighted_only (isNormal_normalize a) (isNormal_normalize b) fun m => ?_
  rw [weighted_normalize, weighted_normalize, weighted_perm h]

/-! ## Integer coefficients -/

/-- The terms whose coefficients are the residues of integers. -/
def residues (given : List (Int × Monomial)) : List Term :=
  given.map fun t => (Scalar.ofInt t.1, t.2)

/-- The sum of all integers that are given for a monomial. -/
def total (given : List (Int × Monomial)) (m : Monomial) : Int :=
  ((given.filter fun t => t.2 = m).map Prod.fst).sum

theorem total_cons (t : Int × Monomial) (given : List (Int × Monomial)) (m : Monomial) :
    total (t :: given) m = (if t.2 = m then t.1 else 0) + total given m := by
  unfold total
  by_cases h : t.2 = m
  · rw [List.filter_cons_of_pos (by simpa using h), if_pos h, List.map_cons, List.sum_cons]
  · rw [List.filter_cons_of_neg (by simpa using h), if_neg h, Int.zero_add]

/-- The coefficient of a monomial is the residue of the sum of all integers given for it. -/
theorem weighted_only_residues (given : List (Int × Monomial)) (m : Monomial) :
    weighted (only m) (residues given) = Scalar.ofInt (total given m) := by
  induction given with
  | nil => rfl
  | cons t given ih =>
    rw [total_cons, Scalar.ofInt_add, ← ih, residues, List.map_cons, weighted_cons, only]
    by_cases h : t.2 = m
    · rw [if_pos h, if_pos h, mul_one]
      rfl
    · rw [if_neg h, if_neg h, mul_zero]
      rfl

/-- Normalizing terms that are given with integers adds up what is given for each monomial: the
terms of the result are the sums that are not divisible by the modulus. The order of the terms
does not matter, and normalizing again changes nothing. The term lists that normalizing keeps are
those that pass the test. -/
theorem normalize_canonical (given : List (Int × Monomial)) :
    (∀ (n : Int) (m : Monomial),
      coeff ⟨n, normalize (residues given)⟩ m = Scalar.ofInt (total given m)) ∧
    (∀ t : Term, t ∈ normalize (residues given) ↔
      t.1 ≠ 0 ∧ Scalar.ofInt (total given t.2) = t.1) ∧
    (∀ given' : List (Int × Monomial), given'.Perm given →
      normalize (residues given') = normalize (residues given)) ∧
    normalize (normalize (residues given)) = normalize (residues given) ∧
    ∀ terms : List Term, isNormalized terms = true ↔ normalize terms = terms := by
  refine ⟨fun n m => ?_, fun t => ?_, fun given' hperm => ?_, ?_, fun terms => ?_⟩
  · rw [coeff_eq_weighted, weighted_normalize, weighted_only_residues]
  · rw [mem_iff (isNormal_normalize _), weighted_normalize, weighted_only_residues]
  · exact normalize_perm (hperm.map _)
  · exact normalize_of_isNormal (isNormal_normalize _)
  · exact isNormalized_iff_normalize_eq

/-- Terms of two variables. The first two coefficients of the first one cancel. -/
def cancelling : List (Int × Monomial) :=
  [(2, .ofVariable 0), (5, .ofVariable 1), (modulus - 2, .ofVariable 0), (7, .ofVariable 0)]

theorem normalize_canonical_cancelling :
    cancelling.reverse.Perm cancelling ∧
      normalize (residues cancelling.reverse) = normalize (residues cancelling) ∧
      coeff ⟨2, normalize (residues cancelling)⟩ (.ofVariable 0) = 7 := by
  obtain ⟨hcoeff, -, hperm, -, -⟩ := normalize_canonical cancelling
  have hreverse : cancelling.reverse.Perm cancelling := List.reverse_perm _
  have htotal : Scalar.ofInt (total cancelling (.ofVariable 0)) = 7 := by decide +kernel
  exact ⟨hreverse, hperm _ hreverse, (hcoeff 2 _).trans htotal⟩

end Poly

end Plonkish
