import Plonkish.Proofs.Poly.Normal

/-!
# Weighted sums of terms

Whatever the monomials are weighted by, sorting and merging keep the weighted sum of the
coefficients.

* `Poly.weighted_normalize`, `Poly.weighted_mergeTerms`: the sums that are kept.
* `Poly.weighted_crossTerms`, `Poly.weighted_comm`: the sums over products of terms.
-/

namespace Plonkish.Poly

variable {φ : Monomial → Scalar} {terms a b : List Term}

/-- The sum of the coefficients, each weighted by its monomial. -/
def weighted (φ : Monomial → Scalar) (terms : List Term) : Scalar :=
  (terms.map fun t => t.1 * φ t.2).sum

theorem weighted_nil (φ : Monomial → Scalar) : weighted φ [] = 0 := rfl

theorem weighted_cons (φ : Monomial → Scalar) (t : Term) (terms : List Term) :
    weighted φ (t :: terms) = t.1 * φ t.2 + weighted φ terms := by
  rw [weighted, List.map_cons, List.sum_cons]
  rfl

theorem weighted_append (φ : Monomial → Scalar) (a b : List Term) :
    weighted φ (a ++ b) = weighted φ a + weighted φ b := by
  rw [weighted, List.map_append, List.sum_append]
  rfl

theorem weighted_perm (h : a.Perm b) : weighted φ a = weighted φ b := (h.map _).sum_eq

theorem weighted_consTerm (φ : Monomial → Scalar) (t : Term) (terms : List Term) :
    weighted φ (consTerm t terms) = t.1 * φ t.2 + weighted φ terms := by
  cases terms with
  | nil => rfl
  | cons u terms =>
    rw [consTerm]
    split
    · next h =>
      rw [weighted_cons, weighted_cons, Monomial.sameAs_iff.1 h]
      ring
    · exact weighted_cons φ t (u :: terms)

theorem weighted_foldr_consTerm (φ : Monomial → Scalar) (terms : List Term) :
    weighted φ (terms.foldr consTerm []) = weighted φ terms := by
  induction terms with
  | nil => rfl
  | cons t terms ih => rw [List.foldr_cons, weighted_consTerm, ih, weighted_cons]

theorem weighted_filter_ne_zero (φ : Monomial → Scalar) (terms : List Term) :
    weighted φ (terms.filter fun t => t.1 ≠ 0) = weighted φ terms := by
  induction terms with
  | nil => rfl
  | cons t terms ih =>
    by_cases h : t.1 = 0
    · rw [List.filter_cons_of_neg (by simpa using h), ih, weighted_cons, h, zero_mul, zero_add]
    · rw [List.filter_cons_of_pos (by simpa using h), weighted_cons, ih, weighted_cons]

/-- Sorting terms, adding up and dropping zeros keeps every weighted sum. -/
theorem weighted_normalize (φ : Monomial → Scalar) (terms : List Term) :
    weighted φ (normalize terms) = weighted φ terms := by
  rw [normalize, weighted_filter_ne_zero, weighted_foldr_consTerm]
  exact weighted_perm (List.mergeSort_perm terms _)

/-- Merging adds up weighted sums. -/
theorem weighted_mergeTerms (φ : Monomial → Scalar) (a b : List Term) :
    weighted φ (mergeTerms a b) = weighted φ a + weighted φ b := by
  fun_induction mergeTerms a b with
  | case1 b => rw [weighted_nil, zero_add]
  | case2 a => rw [weighted_nil, add_zero]
  | case3 s a t b hst ih =>
    rw [weighted_cons, ih, weighted_cons φ s a]
    ring
  | case4 s a t b hst hts ih =>
    rw [weighted_cons, ih, weighted_cons φ t b]
    ring
  | case5 s a t b hst hts hsum ih =>
    rw [weighted_cons, ih, weighted_cons φ s a, weighted_cons φ t b,
      ← Monomial.eq_of_not_before hst hts]
    ring
  | case6 s a t b hst hts hsum ih =>
    -- The coefficients cancel, so the two terms weigh nothing together.
    rw [ih, weighted_cons φ s a, weighted_cons φ t b, ← Monomial.eq_of_not_before hst hts]
    have hcancel : s.1 * φ s.2 + t.1 * φ s.2 = 0 := by
      rw [← add_mul, not_not.1 hsum, zero_mul]
    calc weighted φ a + weighted φ b
        = (s.1 * φ s.2 + t.1 * φ s.2) + (weighted φ a + weighted φ b) := by rw [hcancel, zero_add]
      _ = s.1 * φ s.2 + weighted φ a + (t.1 * φ s.2 + weighted φ b) := by ring

theorem weighted_neg (φ : Monomial → Scalar) (terms : List Term) :
    weighted φ (terms.map fun (c, m) => (-c, m)) = -weighted φ terms := by
  induction terms with
  | nil => exact neg_zero.symm
  | cons t terms ih =>
    rw [List.map_cons, weighted_cons, ih, weighted_cons]
    ring

theorem weighted_mul_right (φ : Monomial → Scalar) (terms : List Term) (s : Scalar) :
    weighted φ (terms.map fun (c, m) => (c * s, m)) = weighted φ terms * s := by
  induction terms with
  | nil => exact (zero_mul s).symm
  | cons t terms ih =>
    rw [List.map_cons, weighted_cons, ih, weighted_cons]
    ring

/-! ## Sums of sums -/

theorem weighted_congr {φ ψ : Monomial → Scalar} (h : ∀ t ∈ terms, φ t.2 = ψ t.2) :
    weighted φ terms = weighted ψ terms := by
  unfold weighted
  rw [List.map_congr_left fun t ht => by rw [h t ht]]

theorem weighted_zero (terms : List Term) : weighted (fun _ => 0) terms = 0 := by
  induction terms with
  | nil => rfl
  | cons t terms ih => rw [weighted_cons, ih, mul_zero, add_zero]

theorem weighted_add (φ ψ : Monomial → Scalar) (terms : List Term) :
    weighted (fun m => φ m + ψ m) terms = weighted φ terms + weighted ψ terms := by
  induction terms with
  | nil => exact (add_zero 0).symm
  | cons t terms ih =>
    rw [weighted_cons, ih, weighted_cons, weighted_cons]
    ring

theorem weighted_mul_left (c : Scalar) (φ : Monomial → Scalar) (terms : List Term) :
    weighted (fun m => c * φ m) terms = c * weighted φ terms := by
  induction terms with
  | nil => exact (mul_zero c).symm
  | cons t terms ih =>
    rw [weighted_cons, ih, weighted_cons]
    ring

/-- Two lists of terms may be summed over in either order. -/
theorem weighted_comm (ψ : Monomial → Monomial → Scalar) (a b : List Term) :
    weighted (fun m => weighted (ψ m) b) a = weighted (fun n => weighted (fun m => ψ m n) a) b := by
  induction a with
  | nil => exact (weighted_zero b).symm
  | cons s a ih =>
    rw [weighted_cons, ih, ← weighted_mul_left, ← weighted_add]
    simp only [weighted_cons]

/-- The products of terms are summed over by summing over one factor, and then the other. -/
theorem weighted_crossTerms (φ : Monomial → Scalar) (a b : List Term) :
    weighted φ (crossTerms a b) = weighted (fun m => weighted (fun n => φ (m.mul n)) b) a := by
  have hrow : ∀ s : Term, weighted φ (b.map fun (d, n) => (s.1 * d, s.2.mul n)) =
      s.1 * weighted (fun n => φ (s.2.mul n)) b := by
    intro s
    induction b with
    | nil => exact (mul_zero _).symm
    | cons t b ih =>
      rw [List.map_cons, weighted_cons, ih, weighted_cons]
      ring
  induction a with
  | nil => rfl
  | cons s a ih =>
    rw [crossTerms, List.flatMap_cons, weighted_append, hrow, ← crossTerms, ih, weighted_cons]

/-! ## Products -/

theorem weighted_of_isZero {p : Poly} (h : p.isZero = true) : weighted φ p.terms = 0 := by
  rw [List.isEmpty_iff.1 h]
  rfl

theorem weighted_scale (φ : Monomial → Scalar) (p : Poly) (s : Scalar) :
    weighted φ (p.scale s).terms = weighted φ p.terms * s := by
  unfold scale
  split
  · next h =>
    rcases h with rfl | h
    · exact (mul_zero _).symm
    · rw [weighted_of_isZero h, zero_mul]
      rfl
  · exact weighted_mul_right φ p.terms s

/-- A product is summed over by summing over one factor, and then the other. -/
theorem weighted_mul (φ : Monomial → Scalar) (p q : Poly) :
    weighted φ (p.mul q).terms =
      weighted (fun m => weighted (fun n => φ (m.mul n)) q.terms) p.terms := by
  unfold mul
  dsimp only
  split
  · next h =>
    rcases h with h | h
    · exact (weighted_of_isZero h).symm
    · simp only [weighted_of_isZero h, weighted_zero]
      rfl
  · rw [weighted_normalize, weighted_crossTerms]

end Plonkish.Poly
