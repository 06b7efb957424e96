import Plonkish.Proofs.Poly.Weighted

/-!
# Values of polynomials

The value of a polynomial is the sum of its coefficients, weighted by the values of their monomials
at a point.

* `Poly.value_add`, `Poly.value_neg`, `Poly.value_scale`, `Poly.value_mul`: values follow the
  operations.
* `Poly.eval_eq`: evaluation gives the value, if the point has enough coordinates.
-/

namespace Plonkish.Poly

variable {p q : Poly} {x : Nat → Scalar}

/-- The value of a polynomial where each variable has a value. -/
def value (x : Nat → Scalar) (p : Poly) : Scalar := weighted (Monomial.value x) p.terms

theorem value_literal (x : Nat → Scalar) (n : Int) (v : Scalar) : (literal n v).value x = v := by
  unfold literal
  split
  · next h => exact h.symm
  · rw [value, weighted_cons, weighted_nil, Monomial.value_one, mul_one, add_zero]

theorem value_indeterminate (x : Nat → Scalar) (n : Int) (i : Nat) :
    (indeterminate n i).value x = x i := by
  rw [value, indeterminate, weighted_cons, weighted_nil, Monomial.value_ofVariable, one_mul,
    add_zero]

theorem value_add (x : Nat → Scalar) (p q : Poly) : (p.add q).value x = p.value x + q.value x :=
  weighted_mergeTerms _ p.terms q.terms

theorem value_neg (x : Nat → Scalar) (p : Poly) : p.neg.value x = -p.value x :=
  weighted_neg _ p.terms

theorem value_scale (x : Nat → Scalar) (p : Poly) (s : Scalar) :
    (p.scale s).value x = p.value x * s :=
  weighted_scale _ p s

theorem value_mul (x : Nat → Scalar) (p q : Poly) : (p.mul q).value x = p.value x * q.value x := by
  have hinner : ∀ m : Monomial, weighted (fun n => (m.mul n).value x) q.terms =
      q.value x * m.value x := by
    intro m
    simp only [Monomial.value_mul, weighted_mul_left]
    exact mul_comm _ _
  rw [value, weighted_mul]
  simp only [hinner, weighted_mul_left]
  exact mul_comm _ _

/-- In normal form a polynomial of literals has its leading coefficient as value. -/
theorem value_of_isLiteral (hp : IsNormal p.terms) (h : p.isLiteral = true) :
    p.value x = p.leadingCoeff := by
  rw [value, terms_of_isLiteral 0 hp h]
  exact value_literal x 0 _

theorem value_mulByScaling (x : Nat → Scalar) (hp : IsNormal p.terms) (hq : IsNormal q.terms) :
    (p.mulByScaling q).value x = p.value x * q.value x := by
  unfold mulByScaling
  split
  · next h => rw [value_scale, value_of_isLiteral hp h, mul_comm]
  · split
    · next h => rw [value_scale, value_of_isLiteral hq h]
    · exact value_mul x p q

/-- Evaluation gives the value, if the point has a coordinate for each variable. -/
theorem eval_eq {point : List Scalar} (hp : p.WellFormed) (hsize : p.numVars ≤ point.length)
    (hx : ∀ i y, point[i]? = some y → x i = y) : p.eval point = .ok (p.value x) := by
  have hterm : ∀ t ∈ p.terms, t.2.eval point = .ok (t.2.value x) := by
    intro t ht
    refine Monomial.eval_eq fun f hf => ?_
    have hlt : f.1 < point.length := by
      have := hp.below t ht f hf
      omega
    rw [List.getElem?_eq_getElem hlt, hx f.1 _ (List.getElem?_eq_getElem hlt)]
  have hfold : ∀ (terms : List Term) (acc : Scalar),
      (∀ t ∈ terms, t.2.eval point = .ok (t.2.value x)) →
        terms.foldlM (fun acc t => do
          let y ← t.2.eval point
          return acc + t.1 * y) acc = Except.ok (acc + weighted (Monomial.value x) terms) := by
    intro terms
    induction terms with
    | nil =>
      intro acc _
      rw [weighted_nil, add_zero]
      rfl
    | cons t terms ih =>
      intro acc h
      obtain ⟨ht, hterms⟩ := List.forall_mem_cons.1 h
      simp only [List.foldlM_cons, ht, bind, Except.bind, pure, Except.pure] at ih ⊢
      rw [ih _ hterms, weighted_cons, add_assoc]
  have hzero := hfold p.terms 0 hterm
  rw [zero_add] at hzero
  rw [eval, if_neg (by omega)]
  exact hzero

/-- Evaluation at a point gives the value at its coordinates. -/
theorem eval_eq_getD {point : List Scalar} (hp : p.WellFormed) (hsize : p.numVars ≤ point.length) :
    p.eval point = .ok (p.value fun i => point[i]?.getD 0) :=
  eval_eq hp hsize fun i y hy => by rw [hy]; rfl

end Plonkish.Poly
