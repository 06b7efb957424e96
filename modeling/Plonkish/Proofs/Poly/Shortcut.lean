import Plonkish.Proofs.Poly.Canonical

/-!
# Shortcuts

Sums and products are computed by merging sorted lists and by scaling, and not by sorting. Each of
these shortcuts gives what the plain definition gives.

* `Poly.normalize_append`: merging two normal forms is normalizing both together.
* `Poly.scale_eq_mul`: scaling is multiplying by a literal.
* `Poly.mulByScaling_eq_mul`: products that are computed by scaling are products.
* `Poly.shortcuts`: all of them together, with that of monomials.
-/

namespace Plonkish

/-- The variables of a monomial that are below a bound are among the first so many, if the bound
is not negative. -/
theorem Monomial.isAmong_of_isBelow {m : Monomial} {bound : Int} (hbound : 0 ≤ bound)
    (h : m.IsBelow bound) : m.isAmong bound = true := by
  rw [isAmong, lastVariable?]
  cases hlast : m.factors.getLast? with
  | none => simpa using hbound
  | some f => simpa using h f (List.mem_of_getLast? hlast)

namespace Poly

variable {a b : List Term} {p q : Poly}

/-! ## Sums -/

/-- Merging two normal forms gives the normal form of all terms together. -/
theorem normalize_append (ha : IsNormal a) (hb : IsNormal b) :
    normalize (a ++ b) = mergeTerms a b := by
  refine eq_of_weighted_only (isNormal_normalize _) (isNormal_mergeTerms ha hb) fun m => ?_
  rw [weighted_normalize, weighted_append, weighted_mergeTerms]

/-- What is made of the terms of two polynomials has the terms of their sum. -/
theorem terms_of_ofTerms_append (hp : p.WellFormed) (hq : q.WellFormed) {n : Int} {r : Poly}
    (h : ofTerms n (p.terms ++ q.terms) = .ok r) : r.terms = (p.add q).terms := by
  rw [(ofTerms_eq_ok h).1]
  exact normalize_append hp.normal hq.normal

/-- The terms of two polynomials are accepted together, if there are enough variables for
both. -/
theorem ofTerms_append (hp : p.WellFormed) (hq : q.WellFormed) {n : Int} (hn : 0 ≤ n)
    (hpn : p.numVars ≤ n) (hqn : q.numVars ≤ n) :
    ofTerms n (p.terms ++ q.terms) = .ok ⟨n, (p.add q).terms⟩ := by
  have hsum : (p.add q).WellFormed := hp.add hq
  have hbelow : ∀ t ∈ mergeTerms p.terms q.terms, t.2.isAmong n = true := by
    intro t ht
    refine Monomial.isAmong_of_isBelow hn fun f hf => ?_
    exact lt_of_lt_of_le (hsum.below t ht f hf) (max_le hpn hqn)
  have hfind : (mergeTerms p.terms q.terms).find? (fun t => !t.2.isAmong n) = none := by
    rw [List.find?_eq_none]
    intro t ht
    simp [hbelow t ht]
  rw [ofTerms, normalize_append hp.normal hq.normal]
  simp only [hfind]
  rfl

/-! ## Products -/

theorem weighted_literal (φ : Monomial → Scalar) (n : Int) (v : Scalar) :
    weighted φ (literal n v).terms = v * φ .one := by
  unfold literal
  split
  · next h => rw [h, zero_mul, weighted_nil]
  · rw [weighted_cons, weighted_nil, add_zero]

theorem weighted_mul_literal (φ : Monomial → Scalar) (p : Poly) (n : Int) (v : Scalar) :
    weighted φ (p.mul (literal n v)).terms = weighted φ p.terms * v := by
  rw [weighted_mul, mul_comm _ v, ← weighted_mul_left]
  refine weighted_congr fun t _ => ?_
  rw [weighted_literal, Monomial.mul_one]

theorem weighted_literal_mul (φ : Monomial → Scalar) (p : Poly) (n : Int) (v : Scalar) :
    weighted φ ((literal n v).mul p).terms = weighted φ p.terms * v := by
  rw [weighted_mul, weighted_literal, mul_comm]
  simp only [Monomial.one_mul]

/-- Scaling is multiplying by a literal. -/
theorem scale_eq_mul (hp : p.WellFormed) (n : Int) (v : Scalar) :
    (p.scale v).terms = (p.mul (literal n v)).terms := by
  have hmul : (p.mul (literal n v)).WellFormed := hp.mul (wellFormed_literal n v)
  refine eq_of_weighted_only (hp.scale v).normal hmul.normal fun m => ?_
  rw [weighted_scale, weighted_mul_literal]

/-- Products that are computed by scaling are products. -/
theorem mulByScaling_eq_mul (hp : p.WellFormed) (hq : q.WellFormed) :
    (p.mulByScaling q).terms = (p.mul q).terms := by
  refine eq_of_weighted_only (hp.mulByScaling hq).normal (hp.mul hq).normal fun m => ?_
  unfold mulByScaling
  split
  · next h =>
    rw [weighted_scale, ← weighted_literal_mul _ q 0, weighted_mul, weighted_mul,
      ← terms_of_isLiteral 0 hp.normal h]
  · split
    · next h =>
      rw [weighted_scale, ← weighted_mul_literal _ p 0, weighted_mul, weighted_mul,
        ← terms_of_isLiteral 0 hq.normal h]
    · rfl

/-- The shortcuts give what the plain definitions give. The product of two monomials is made of the
factors of both. The sum of two polynomials is made of the terms of both, whatever number of
variables suffices. A multiple is the product with a literal, and a product with a literal factor
may be computed as a multiple. -/
theorem shortcuts {s t : Monomial} (hs : s.IsNormal) (ht : t.IsNormal) (hp : p.WellFormed)
    (hq : q.WellFormed) :
    Monomial.ofSigned (s.signed ++ t.signed) = .ok (s.mul t) ∧
    (∀ (n : Int) (r : Poly), ofTerms n (p.terms ++ q.terms) = .ok r →
      r.terms = (p.add q).terms) ∧
    (∀ n : Int, 0 ≤ n → p.numVars ≤ n → q.numVars ≤ n →
      ∃ r, ofTerms n (p.terms ++ q.terms) = .ok r) ∧
    (∀ v : Int, ∃ c, ofConstant 0 (Scalar.ofInt v) = .ok c ∧
      (p.scale (Scalar.ofInt v)).terms = (p.mul c).terms) ∧
    (p.mulByScaling q).terms = (p.mul q).terms ∧
    (p.numVars = q.numVars → (p.mulByScaling q).numVars = (p.mul q).numVars) := by
  refine ⟨Monomial.ofSigned_append hs ht, fun n r => terms_of_ofTerms_append hp hq,
    fun n hn hpn hqn => ⟨_, ofTerms_append hp hq hn hpn hqn⟩, fun v => ?_,
    mulByScaling_eq_mul hp hq, fun h => ?_⟩
  · exact ⟨literal 0 (Scalar.ofInt v), ofConstant_eq (Int.le_refl 0) _, scale_eq_mul hp 0 _⟩
  · rw [numVars_mulByScaling h, numVars_mul, ← h, max_self]

/-- Five more than a variable. -/
def shifted : Poly := (literal 2 5).add (indeterminate 2 0)

theorem shortcuts_shifted :
    Monomial.IsNormal ⟨[(0, 2), (3, 1)]⟩ ∧ Monomial.IsNormal ⟨[(1, 1), (3, 4)]⟩ ∧
      shifted.WellFormed ∧ (literal 2 5).neg.WellFormed ∧
      Monomial.ofSigned [(0, 2), (3, 1), (1, 1), (3, 4)] =
        .ok (Monomial.mul ⟨[(0, 2), (3, 1)]⟩ ⟨[(1, 1), (3, 4)]⟩) ∧
      (∃ r, ofTerms 2 (shifted.terms ++ (literal 2 5).neg.terms) = .ok r ∧
        r.terms = (shifted.add (literal 2 5).neg).terms) ∧
      shifted.mulByScaling (literal 2 5).neg = shifted.mul (literal 2 5).neg := by
  have hs : Monomial.IsNormal ⟨[(0, 2), (3, 1)]⟩ := ⟨by decide, by decide⟩
  have ht : Monomial.IsNormal ⟨[(1, 1), (3, 4)]⟩ := ⟨by decide, by decide⟩
  have hp : shifted.WellFormed :=
    (wellFormed_literal 2 5).add (wellFormed_indeterminate (by decide))
  have hq : (literal 2 5).neg.WellFormed := (wellFormed_literal 2 5).neg
  obtain ⟨hproduct, hterms, hsum, -, hmul, hnumVars⟩ := shortcuts hs ht hp hq
  obtain ⟨r, hr⟩ := hsum 2 (by decide) (Int.le_refl 2) (Int.le_refl 2)
  exact ⟨hs, ht, hp, hq, hproduct, ⟨r, hr, hterms 2 r hr⟩,
    congrArg₂ Poly.mk (hnumVars rfl) hmul⟩

end Poly

end Plonkish
