import Plonkish.Proofs.Monomial.Exponent
import Plonkish.Proofs.Poly.Weighted

/-!
# Coefficients

A normal form is told by its coefficients, and so by its weighted sums. Two ways to compute a
polynomial agree if they agree under all weights.

* `Poly.mem_iff`: the terms of a normal form are its coefficients other than zero.
* `Poly.eq_of_weighted_only`: normal forms with equal coefficients are equal.
* `Poly.sameTerms_iff_coeff`: polynomials are equal exactly if their coefficients are.
* `Poly.sameTerms_of_weighted`: polynomials are equal if their weighted sums are.
-/

namespace Plonkish.Poly

variable {terms a b : List Term} {p q : Poly} {m : Monomial}

/-- The weight of one monomial alone. -/
def only (m n : Monomial) : Scalar := if n = m then 1 else 0

theorem coeff_eq_weighted (p : Poly) (m : Monomial) : p.coeff m = weighted (only m) p.terms := by
  obtain ⟨n, terms⟩ := p
  unfold coeff
  induction terms with
  | nil => rfl
  | cons t terms ih =>
    rw [weighted_cons, ← ih]
    by_cases h : t.2 = m
    · rw [List.filter_cons_of_pos (by simpa using h), only, if_pos h, mul_one]
      rfl
    · rw [List.filter_cons_of_neg (by simpa using h), only, if_neg h, mul_zero, zero_add]

theorem weighted_only_eq_zero (h : ∀ t ∈ terms, t.2 ≠ m) : weighted (only m) terms = 0 := by
  rw [weighted_congr (ψ := fun _ => 0) fun t ht => if_neg (h t ht), weighted_zero]

/-- The terms of a normal form are its coefficients other than zero. -/
theorem mem_iff (h : IsNormal terms) {t : Term} :
    t ∈ terms ↔ t.1 ≠ 0 ∧ weighted (only t.2) terms = t.1 := by
  induction terms with
  | nil =>
    rw [weighted_nil]
    simp [eq_comm]
  | cons u terms ih =>
    obtain ⟨hu, hbefore, hterms⟩ := isNormal_cons_iff.1 h
    rw [List.mem_cons, weighted_cons]
    by_cases hut : u.2 = t.2
    · -- No other term has the monomial of the first.
      have hne : ∀ v ∈ terms, v.2 ≠ t.2 := by
        intro v hv hvt
        have hself := hbefore v hv
        rw [hut, hvt] at hself
        exact Monomial.not_before_self _ hself
      rw [only, if_pos hut, mul_one, weighted_only_eq_zero hne, add_zero]
      constructor
      · rintro (rfl | ht)
        · exact ⟨hu, rfl⟩
        · exact absurd rfl (hne t ht)
      · rintro ⟨-, ht⟩
        exact .inl (Prod.ext ht.symm hut.symm)
    · have hne : t ≠ u := fun ht => hut (by rw [ht])
      rw [only, if_neg hut, mul_zero, zero_add, or_iff_right hne]
      exact ih hterms

theorem eq_of_mem_iff (ha : IsNormal a) (hb : IsNormal b) (h : ∀ t, t ∈ a ↔ t ∈ b) : a = b := by
  have : Std.Irrefl fun s t : Term => s.2.before t.2 = true := ⟨fun s => s.2.not_before_self⟩
  have : Std.Antisymm fun s t : Term => s.2.before t.2 = true :=
    ⟨fun s t hst hts => absurd (Monomial.before_trans hst hts) s.2.not_before_self⟩
  exact ha.1.eq_of_mem_iff hb.1 h

/-- Normal forms with equal coefficients are equal. -/
theorem eq_of_weighted_only (ha : IsNormal a) (hb : IsNormal b)
    (h : ∀ m, weighted (only m) a = weighted (only m) b) : a = b :=
  eq_of_mem_iff ha hb fun t => by rw [mem_iff ha, mem_iff hb, h]

theorem sameTerms_iff : p.sameTerms q = true ↔ p.terms = q.terms := beq_iff_eq

/-- Polynomials are equal exactly if every monomial has the same coefficient in both. -/
theorem sameTerms_iff_coeff (hp : p.WellFormed) (hq : q.WellFormed) :
    p.sameTerms q = true ↔ ∀ m : Monomial, m.IsNormal → p.coeff m = q.coeff m := by
  rw [sameTerms_iff]
  simp only [coeff_eq_weighted]
  constructor
  · intro h m _
    rw [h]
  · intro h
    refine eq_of_mem_iff hp.normal hq.normal fun t => ?_
    constructor
    · intro ht
      obtain ⟨hne, hcoeff⟩ := (mem_iff hp.normal).1 ht
      exact (mem_iff hq.normal).2 ⟨hne, (h t.2 (hp.monomials t ht)).symm.trans hcoeff⟩
    · intro ht
      obtain ⟨hne, hcoeff⟩ := (mem_iff hq.normal).1 ht
      exact (mem_iff hp.normal).2 ⟨hne, (h t.2 (hq.monomials t ht)).trans hcoeff⟩

/-- Polynomials with the same weighted sums are equal. -/
theorem sameTerms_of_weighted (hp : p.WellFormed) (hq : q.WellFormed)
    (h : ∀ φ, weighted φ p.terms = weighted φ q.terms) : p.sameTerms q = true :=
  (sameTerms_iff_coeff hp hq).2 fun m _ => by rw [coeff_eq_weighted, coeff_eq_weighted, h]

end Plonkish.Poly
