import Plonkish.Expansion
import Plonkish.Proofs.Expr
import Plonkish.Proofs.Poly.Value
import Plonkish.Proofs.VariableSpace

/-!
# Values and failures of expansion

The polynomial of an expression has the value of the expression, with each variable standing for
what its number names. Expansion fails only at leaves, and for the same reason as looking them up,
unless the number of challenges is negative.

* `Expansion.wellFormed_expr`: polynomials of expressions are well-formed.
* `Expansion.value_expr`: their values.
* `Expansion.verdict_expr`: when expansion fails.
-/

namespace Plonkish

open Outcome

namespace VariableSpace

/-- What the variables stand for: each query and each challenge has the value of its number. -/
def assignment (V : VariableSpace) (x : Nat → Scalar) : Assignment where
  query q :=
    match V.indexOf (queryClass q) q.column q.rotation with
    | .ok i => x (V.number (queryClass q) i)
    | .error _ => 0
  challenge i := x (V.number .challenge i)
  selector _ := 0

theorem assignment_query {V : VariableSpace} {x : Nat → Scalar} {q : Query} {i : Nat}
    (h : V.indexOf (queryClass q) q.column q.rotation = .ok i) :
    (V.assignment x).query q = x (V.number (queryClass q) i) := by
  simp only [assignment, h]

end VariableSpace

namespace Expansion

open VariableSpace

variable {V : VariableSpace} {p : Poly} {x : Nat → Scalar}

theorem expr_eq_fold (V : VariableSpace) (e : Expr) : expr V e = (algebra V).fold e :=
  Algebra.value_eq_fold (algebra V) e

/-! ## Leaves -/

/-- What a leaf that is expanded is expanded to: a literal, or a variable below the width. -/
theorem leaf_eq_ok {l : Leaf} (h : leaf V l = .ok p) :
    (∃ v, l = .constant v ∧ p = .literal V.width v) ∨
      (∃ q i, l = .query q ∧ V.indexOf (queryClass q) q.column q.rotation = .ok i ∧
        p = .indeterminate V.width (V.number (queryClass q) i) ∧
        (V.number (queryClass q) i : Int) < V.width) ∨
      (∃ i phase, l = .challenge i phase ∧ V.challengeIndex i = .ok i ∧
        p = .indeterminate V.width (V.number .challenge i) ∧
        (V.number .challenge i : Int) < V.width) := by
  cases l with
  | constant v =>
    rw [leaf, mapError_eq_ok_iff] at h
    exact .inl ⟨v, rfl, Poly.eq_literal_of_ofConstant h⟩
  | query q =>
    simp only [leaf, bind_eq_ok_iff, mapError_eq_ok_iff] at h
    obtain ⟨i, hi, h⟩ := h
    exact .inr (.inl ⟨q, i, rfl, hi, Poly.eq_indeterminate_of_ofVariable h⟩)
  | challenge i phase =>
    simp only [leaf, bind_eq_ok_iff, mapError_eq_ok_iff] at h
    obtain ⟨j, hj, h⟩ := h
    obtain ⟨rfl, -, -⟩ := challengeIndex_eq_ok_iff.1 hj
    exact .inr (.inr ⟨i, phase, rfl, hj, Poly.eq_indeterminate_of_ofVariable h⟩)
  | selector i => cases h

theorem wellFormed_leaf {l : Leaf} (h : leaf V l = .ok p) : p.WellFormed ∧ p.numVars = V.width := by
  rcases leaf_eq_ok h with ⟨v, -, rfl⟩ | ⟨q, i, -, -, rfl, hlt⟩ | ⟨i, phase, -, -, rfl, hlt⟩
  · exact ⟨Poly.wellFormed_literal V.width v, rfl⟩
  · exact ⟨Poly.wellFormed_indeterminate hlt, rfl⟩
  · exact ⟨Poly.wellFormed_indeterminate hlt, rfl⟩

theorem value_leaf {l : Leaf} (h : leaf V l = .ok p) : p.value x = l.eval (V.assignment x) := by
  rcases leaf_eq_ok h with ⟨v, rfl, rfl⟩ | ⟨q, i, rfl, hi, rfl, -⟩ | ⟨i, phase, rfl, -, rfl, -⟩
  · exact Poly.value_literal x V.width v
  · rw [Poly.value_indeterminate]
    exact (assignment_query hi).symm
  · exact Poly.value_indeterminate x V.width _

/-! ## Values -/

theorem wellFormed_fold {e : Expr} (h : (algebra V).fold e = .ok p) :
    p.WellFormed ∧ p.numVars = V.width := by
  induction e generalizing p with
  | leaf l => exact wellFormed_leaf h
  | neg e ih =>
    simp only [Algebra.fold, bind_eq_ok_iff, pure_eq_ok_iff] at h
    obtain ⟨q, hq, rfl⟩ := h
    obtain ⟨hwf, hvars⟩ := ih hq
    exact ⟨hwf.neg, hvars⟩
  | sum a b iha ihb =>
    simp only [Algebra.fold, bind_eq_ok_iff, pure_eq_ok_iff] at h
    obtain ⟨q, hq, r, hr, rfl⟩ := h
    obtain ⟨hqwf, hqvars⟩ := iha hq
    obtain ⟨hrwf, hrvars⟩ := ihb hr
    refine ⟨hqwf.add hrwf, ?_⟩
    show max q.numVars r.numVars = V.width
    rw [hqvars, hrvars, max_self]
  | product a b iha ihb =>
    simp only [Algebra.fold, bind_eq_ok_iff, pure_eq_ok_iff] at h
    obtain ⟨q, hq, r, hr, rfl⟩ := h
    obtain ⟨hqwf, hqvars⟩ := iha hq
    obtain ⟨hrwf, hrvars⟩ := ihb hr
    refine ⟨hqwf.mulByScaling hrwf, ?_⟩
    exact (Poly.numVars_mulByScaling (hqvars.trans hrvars.symm)).trans hqvars

/-- Polynomials of expressions are well-formed, in all variables of the space. -/
theorem wellFormed_expr {e : Expr} (h : expr V e = .ok p) : p.WellFormed ∧ p.numVars = V.width := by
  rw [expr_eq_fold] at h
  exact wellFormed_fold h

/-- The value of the polynomial of an expression is the value of the expression. -/
theorem value_expr {e : Expr} (h : expr V e = .ok p) : p.value x = e.eval (V.assignment x) := by
  rw [expr_eq_fold] at h
  induction e generalizing p with
  | leaf l => exact value_leaf h
  | neg e ih =>
    simp only [Algebra.fold, bind_eq_ok_iff, pure_eq_ok_iff] at h
    obtain ⟨q, hq, rfl⟩ := h
    exact (Poly.value_neg x q).trans (congrArg _ (ih hq))
  | sum a b iha ihb =>
    simp only [Algebra.fold, bind_eq_ok_iff, pure_eq_ok_iff] at h
    obtain ⟨q, hq, r, hr, rfl⟩ := h
    exact (Poly.value_add x q r).trans (congrArg₂ _ (iha hq) (ihb hr))
  | product a b iha ihb =>
    simp only [Algebra.fold, bind_eq_ok_iff, pure_eq_ok_iff] at h
    obtain ⟨q, hq, r, hr, rfl⟩ := h
    have hnormal := (wellFormed_fold hq).1.normal
    have hnormal' := (wellFormed_fold hr).1.normal
    exact (Poly.value_mulByScaling x hnormal hnormal').trans (congrArg₂ _ (iha hq) (ihb hr))

/-! ## Failures -/

/-- With no negative number of challenges, a leaf is expanded exactly if it can be looked up. -/
theorem verdict_leaf (hchallenges : 0 ≤ V.challenges) (l : Leaf) :
    verdict (leaf V l) = (V.checkLeaf l).mapError .schema := by
  have hnumber : ∀ cls, ∀ i : Int, 0 ≤ i → i < V.size cls → (V.number cls i : Int) < V.width := by
    intro cls i h0 hlt
    have hwidth := offset_add_size_le_width hchallenges cls
    have hoffset := offset_nonneg V cls
    rw [number_int]
    omega
  cases l with
  | constant v =>
    have hwidth : 0 ≤ V.width := by
      have h := offset_add_size_le_width hchallenges .challenge
      have hoffset := offset_nonneg V .challenge
      simp only [size] at h
      omega
    rw [leaf, Poly.ofConstant_eq hwidth]
    rfl
  | query q =>
    simp only [leaf, checkLeaf, queryClass]
    cases hi : V.indexOf (.ofKind q.column.kind) q.column q.rotation with
    | error err => rfl
    | ok i =>
      have hlt := hnumber _ i (Int.natCast_nonneg i) (lt_size_of_indexOf hi)
      simp only [Except.mapError, bind, Except.bind, Quantity.ofInt_int, Poly.ofVariable_eq hlt]
      rfl
  | challenge i phase =>
    simp only [leaf, checkLeaf]
    cases hi : V.challengeIndex i with
    | error err => rfl
    | ok j =>
      obtain ⟨rfl, h0, hlt⟩ := challengeIndex_eq_ok_iff.1 hi
      have hlt := hnumber .challenge i h0 hlt
      simp only [Except.mapError, bind, Except.bind, Poly.ofVariable_eq hlt]
      rfl
  | selector i => rfl

/-- With no negative number of challenges, expansion fails as the first leaf does that cannot be
looked up. -/
theorem verdict_expr (hchallenges : 0 ≤ V.challenges) (e : Expr) :
    verdict (expr V e) = (forM e.leaves V.checkLeaf).mapError .schema := by
  rw [expr_eq_fold, Algebra.verdict_fold, ← forM_mapError]
  exact congrArg _ (funext fun l => verdict_leaf hchallenges l)

/-- If an expression is expanded, so is each of its leaves. -/
theorem exists_leaf_eq_ok {e : Expr} (h : expr V e = .ok p) {l : Leaf} (hl : l ∈ e.leaves) :
    ∃ q, leaf V l = .ok q := by
  have hverdict : verdict (expr V e) = .ok () := verdict_eq_ok_iff.2 ⟨p, h⟩
  rw [expr_eq_fold, Algebra.verdict_fold, forM_eq_ok_iff] at hverdict
  exact verdict_eq_ok_iff.1 (hverdict l hl)

end Expansion

end Plonkish
