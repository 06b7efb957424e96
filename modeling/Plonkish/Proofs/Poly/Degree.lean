import Plonkish.Proofs.List
import Plonkish.Proofs.Poly.Normal

/-!
# Degrees in the first variables

The degree of a monomial in the variables below a bound is the sum of their exponents, and that of a
polynomial is the largest of its terms. Terms may cancel, so an operation bounds the degree of its
result from above.

* `Monomial.degreeBelow_mul`: degrees of monomials add up.
* `Poly.degreeBelow_le_iff`: a bound on a polynomial is a bound on each of its terms.
* `Poly.degreeBelow_add_le`, `Poly.degreeBelow_mulByScaling_le`: a sum is bounded by the larger
  operand, a product by the sum of both.
-/

namespace Plonkish

variable {bound : Int}

namespace Monomial

/-- The degree in the variables below a bound. -/
def degreeBelow (bound : Int) (m : Monomial) : Nat :=
  degree (ι := Nat) ⟨m.factors.filter fun f => (f.1 : Int) < bound⟩

theorem degreeBelow_cons (f : Nat × Nat) (factors : List (Nat × Nat)) :
    degreeBelow bound ⟨f :: factors⟩ =
      (if (f.1 : Int) < bound then f.2 else 0) + degreeBelow bound ⟨factors⟩ := by
  unfold degreeBelow
  by_cases h : (f.1 : Int) < bound
  · rw [List.filter_cons_of_pos (by simpa using h), if_pos h]
    rfl
  · rw [List.filter_cons_of_neg (by simpa using h), if_neg h, Nat.zero_add]

theorem degreeBelow_ofVariable (i : Nat) :
    degreeBelow bound (ofVariable i) = if (i : Int) < bound then 1 else 0 :=
  degreeBelow_cons (i, 1) []

/-- The degree of a product is the sum of the degrees. -/
theorem degreeBelow_mul (m n : Monomial) :
    degreeBelow bound (m.mul n) = degreeBelow bound m + degreeBelow bound n := by
  obtain ⟨a⟩ := m
  obtain ⟨b⟩ := n
  show degreeBelow bound ⟨mergeFactors a b⟩ = _
  fun_induction mergeFactors a b with
  | case1 b => exact (Nat.zero_add _).symm
  | case2 a => rfl
  | case3 i e a j f b hc ih =>
    rw [degreeBelow_cons, ih, degreeBelow_cons (i, e)]
    omega
  | case4 i e a j f b hc ih =>
    rw [degreeBelow_cons, ih, degreeBelow_cons (j, f)]
    omega
  | case5 i e a j f b hc ih =>
    obtain rfl := Nat.compare_eq_eq.1 hc
    rw [degreeBelow_cons, ih, degreeBelow_cons (i, e), degreeBelow_cons (i, f)]
    dsimp only
    split <;> omega

end Monomial

namespace Poly

variable {p q : Poly} {d : Nat} {t : Term}

/-- The largest degree of a term in the variables below a bound; zero for the zero polynomial. -/
def degreeBelow (bound : Int) (p : Poly) : Nat :=
  (p.terms.map (·.2.degreeBelow bound)).foldl max 0

theorem degreeBelow_le_iff :
    p.degreeBelow bound ≤ d ↔ ∀ t ∈ p.terms, t.2.degreeBelow bound ≤ d := by
  rw [degreeBelow, foldl_max_le_iff, List.forall_mem_map]
  exact and_iff_right (Nat.zero_le d)

theorem le_degreeBelow (h : t ∈ p.terms) : t.2.degreeBelow bound ≤ p.degreeBelow bound :=
  degreeBelow_le_iff.1 (Nat.le_refl _) t h

theorem degreeBelow_literal (n : Int) (v : Scalar) : (literal n v).degreeBelow bound = 0 := by
  unfold literal
  split <;> rfl

theorem degreeBelow_indeterminate (n : Int) (i : Nat) :
    (indeterminate n i).degreeBelow bound = if (i : Int) < bound then 1 else 0 := by
  rw [← Monomial.degreeBelow_ofVariable]
  exact Nat.max_eq_right (Nat.zero_le _)

theorem degreeBelow_neg (p : Poly) : p.neg.degreeBelow bound = p.degreeBelow bound := by
  rw [degreeBelow, degreeBelow, neg, List.map_map]
  rfl

theorem degreeBelow_add_le (p q : Poly) :
    (p.add q).degreeBelow bound ≤ max (p.degreeBelow bound) (q.degreeBelow bound) := by
  have hp : ∀ t ∈ p.terms, t.2.degreeBelow bound ≤ max (p.degreeBelow bound) (q.degreeBelow bound) :=
    fun t ht => (le_degreeBelow ht).trans (Nat.le_max_left _ _)
  have hq : ∀ t ∈ q.terms, t.2.degreeBelow bound ≤ max (p.degreeBelow bound) (q.degreeBelow bound) :=
    fun t ht => (le_degreeBelow ht).trans (Nat.le_max_right _ _)
  exact degreeBelow_le_iff.2 (forall_mergeTerms (P := (·.degreeBelow bound ≤ _)) hp hq)

theorem degreeBelow_scale_le (p : Poly) (s : Scalar) :
    (p.scale s).degreeBelow bound ≤ p.degreeBelow bound := by
  unfold scale
  split
  · exact Nat.zero_le _
  · refine degreeBelow_le_iff.2 (List.forall_mem_map.2 fun t ht => ?_)
    exact le_degreeBelow (t := t) ht

theorem degreeBelow_mul_le (p q : Poly) :
    (p.mul q).degreeBelow bound ≤ p.degreeBelow bound + q.degreeBelow bound := by
  unfold mul
  dsimp only
  split
  · exact Nat.zero_le _
  · have hcross : ∀ t ∈ crossTerms p.terms q.terms,
        t.2.degreeBelow bound ≤ p.degreeBelow bound + q.degreeBelow bound := by
      refine forall_crossTerms (P := (·.degreeBelow bound ≤ _)) fun s hs t ht => ?_
      rw [Monomial.degreeBelow_mul]
      exact Nat.add_le_add (le_degreeBelow hs) (le_degreeBelow ht)
    exact degreeBelow_le_iff.2 (forall_normalize (P := (·.degreeBelow bound ≤ _)) hcross)

theorem degreeBelow_mulByScaling_le (p q : Poly) :
    (p.mulByScaling q).degreeBelow bound ≤ p.degreeBelow bound + q.degreeBelow bound := by
  unfold mulByScaling
  split
  · exact (degreeBelow_scale_le q _).trans (Nat.le_add_left _ _)
  · split
    · exact (degreeBelow_scale_le p _).trans (Nat.le_add_right _ _)
    · exact degreeBelow_mul_le p q

end Poly

end Plonkish
