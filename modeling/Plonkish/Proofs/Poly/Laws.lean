import Plonkish.Proofs.Poly.Built
import Plonkish.Proofs.Poly.Coefficient

/-!
# Laws of polynomials

Polynomials are a commutative ring, up to their numbers of variables. Each law compares two ways to
compute a polynomial, and both have the same weighted sums.

* `Poly.RingLaws`: the laws of commutative rings, with equality by coefficients and evaluation as
  a homomorphism.
* `Poly.ringLaws_of_built`: polynomials that are built obey them.
-/

namespace Plonkish.Poly

variable {p q s : Poly}

/-! ## Sums -/

theorem weighted_add_terms (φ : Monomial → Scalar) (p q : Poly) :
    weighted φ (p.add q).terms = weighted φ p.terms + weighted φ q.terms :=
  weighted_mergeTerms φ p.terms q.terms

theorem sameTerms_add_comm (hp : p.WellFormed) (hq : q.WellFormed) :
    (p.add q).sameTerms (q.add p) = true := by
  refine sameTerms_of_weighted (hp.add hq) (hq.add hp) fun φ => ?_
  rw [weighted_add_terms, weighted_add_terms, add_comm]

theorem sameTerms_add_assoc (hp : p.WellFormed) (hq : q.WellFormed) (hs : s.WellFormed) :
    ((p.add q).add s).sameTerms (p.add (q.add s)) = true := by
  refine sameTerms_of_weighted ((hp.add hq).add hs) (hp.add (hq.add hs)) fun φ => ?_
  simp only [weighted_add_terms]
  rw [add_assoc]

theorem sameTerms_add_zero (hp : p.WellFormed) (n : Int) :
    (p.add (zero n)).sameTerms p = true := by
  refine sameTerms_of_weighted (hp.add (wellFormed_zero n)) hp fun φ => ?_
  rw [weighted_add_terms]
  exact add_zero _

theorem isZero_add_neg (hp : p.WellFormed) : (p.add p.neg).isZero = true := by
  have hsame : (p.add p.neg).sameTerms (zero 0) = true := by
    refine sameTerms_of_weighted (hp.add hp.neg) (wellFormed_zero 0) fun φ => ?_
    have hneg : weighted φ p.neg.terms = -weighted φ p.terms := weighted_neg φ p.terms
    rw [weighted_add_terms, hneg, add_neg_cancel]
    rfl
  rw [isZero, sameTerms_iff.1 hsame]
  rfl

/-! ## Products -/

theorem sameTerms_mul_comm (hp : p.WellFormed) (hq : q.WellFormed) :
    (p.mul q).sameTerms (q.mul p) = true := by
  refine sameTerms_of_weighted (hp.mul hq) (hq.mul hp) fun φ => ?_
  rw [weighted_mul, weighted_comm, weighted_mul]
  refine weighted_congr fun t ht => weighted_congr fun u hu => ?_
  rw [Monomial.mul_comm (hp.monomials u hu) (hq.monomials t ht)]

theorem sameTerms_mul_assoc (hp : p.WellFormed) (hq : q.WellFormed) (hs : s.WellFormed) :
    ((p.mul q).mul s).sameTerms (p.mul (q.mul s)) = true := by
  refine sameTerms_of_weighted ((hp.mul hq).mul hs) (hp.mul (hq.mul hs)) fun φ => ?_
  simp only [weighted_mul]
  refine weighted_congr fun t ht => weighted_congr fun u hu => weighted_congr fun v hv => ?_
  rw [Monomial.mul_assoc (hp.monomials t ht) (hq.monomials u hu) (hs.monomials v hv)]

theorem sameTerms_mul_add (hp : p.WellFormed) (hq : q.WellFormed) (hs : s.WellFormed) :
    (p.mul (q.add s)).sameTerms ((p.mul q).add (p.mul s)) = true := by
  refine sameTerms_of_weighted (hp.mul (hq.add hs)) ((hp.mul hq).add (hp.mul hs)) fun φ => ?_
  simp only [weighted_mul, weighted_add_terms, weighted_add]

theorem sameTerms_mul_one (hp : p.WellFormed) (n : Int) :
    (p.mul (literal n 1)).sameTerms p = true := by
  refine sameTerms_of_weighted (hp.mul (wellFormed_literal n 1)) hp fun φ => ?_
  have hone : (literal n 1 : Poly).terms = [(1, Monomial.one)] := by
    rw [literal, if_neg (by decide)]
  rw [weighted_mul, hone]
  refine weighted_congr fun t _ => ?_
  rw [weighted_cons, weighted_nil, Monomial.mul_one, one_mul, add_zero]

/-! ## Values -/

/-- Values at a point that is long enough follow the operations. -/
theorem exists_eval_operations (hp : p.WellFormed) (hq : q.WellFormed) {point : List Scalar}
    (hpsize : p.numVars ≤ point.length) (hqsize : q.numVars ≤ point.length) :
    ∃ x y, p.eval point = .ok x ∧ q.eval point = .ok y ∧ (p.add q).eval point = .ok (x + y) ∧
      (p.mul q).eval point = .ok (x * y) ∧ p.neg.eval point = .ok (-x) ∧
      ∀ c, (p.scale c).eval point = .ok (x * c) := by
  have hmax : max p.numVars q.numVars ≤ point.length := max_le hpsize hqsize
  refine ⟨_, _, eval_eq_getD hp hpsize, eval_eq_getD hq hqsize, ?_, ?_, ?_, fun c => ?_⟩
  · rw [eval_eq_getD (hp.add hq) hmax, value_add]
  · rw [eval_eq_getD (hp.mul hq) ((numVars_mul p q).trans_le hmax), value_mul]
  · rw [eval_eq_getD hp.neg hpsize, value_neg]
  · rw [eval_eq_getD (hp.scale c) ((numVars_scale p c).trans_le hpsize), value_scale]

/-! ## The ring -/

/-- The laws of commutative rings for three polynomials, where numbers of variables do not
count. -/
structure RingLaws (p q s : Poly) : Prop where
  add_comm : (p.add q).sameTerms (q.add p) = true
  add_assoc : ((p.add q).add s).sameTerms (p.add (q.add s)) = true
  mul_comm : (p.mul q).sameTerms (q.mul p) = true
  mul_assoc : ((p.mul q).mul s).sameTerms (p.mul (q.mul s)) = true
  mul_add : (p.mul (q.add s)).sameTerms ((p.mul q).add (p.mul s)) = true
  add_zero : ∀ n : Int, (p.add (zero n)).sameTerms p = true
  mul_one : ∀ n : Int, 0 ≤ n →
    ∃ one, ofConstant n 1 = .ok one ∧ (p.mul one).sameTerms p = true
  add_neg : (p.add p.neg).isZero = true
  sub_eq : (p.sub q).sameTerms (p.add q.neg) = true
  /-- Polynomials are equal exactly if every monomial has the same coefficient in both. -/
  same_iff : p.sameTerms q = true ↔ ∀ m : Monomial, m.IsNormal → p.coeff m = q.coeff m
  /-- At a point with a coordinate for each variable, values follow the operations. -/
  eval : ∀ point : List Scalar, p.numVars ≤ point.length → q.numVars ≤ point.length →
    ∃ x y, p.eval point = .ok x ∧ q.eval point = .ok y ∧ (p.add q).eval point = .ok (x + y) ∧
      (p.mul q).eval point = .ok (x * y) ∧ p.neg.eval point = .ok (-x) ∧
      ∀ c, (p.scale c).eval point = .ok (x * c)

/-- Polynomials that are built obey the laws of commutative rings. -/
theorem ringLaws_of_built (hp : p.Built) (hq : q.Built) (hs : s.Built) : RingLaws p q s where
  add_comm := sameTerms_add_comm hp.wellFormed hq.wellFormed
  add_assoc := sameTerms_add_assoc hp.wellFormed hq.wellFormed hs.wellFormed
  mul_comm := sameTerms_mul_comm hp.wellFormed hq.wellFormed
  mul_assoc := sameTerms_mul_assoc hp.wellFormed hq.wellFormed hs.wellFormed
  mul_add := sameTerms_mul_add hp.wellFormed hq.wellFormed hs.wellFormed
  add_zero := sameTerms_add_zero hp.wellFormed
  mul_one n hn := ⟨literal n 1, ofConstant_eq hn 1, sameTerms_mul_one hp.wellFormed n⟩
  add_neg := isZero_add_neg hp.wellFormed
  sub_eq := sameTerms_iff.2 rfl
  same_iff := sameTerms_iff_coeff hp.wellFormed hq.wellFormed
  eval _ := exists_eval_operations hp.wellFormed hq.wellFormed

theorem ringLaws_squares :
    squares.Built ∧ (indeterminate 3 2).Built ∧ (squares.add squares).neg.Built ∧
      RingLaws squares (indeterminate 3 2) (squares.add squares).neg := by
  have hz : (indeterminate 3 2).Built := built_indeterminate (by decide)
  have hs : (squares.add squares).neg.Built := (built_squares.add built_squares).neg
  exact ⟨built_squares, hz, hs, ringLaws_of_built built_squares hz hs⟩

end Plonkish.Poly
