import Mathlib.Algebra.BigOperators.Group.List.Basic
import Plonkish.Monomial
import Plonkish.Proofs.Outcome
import Plonkish.Proofs.Scalar.Ring

/-!
# Order and products of monomials

* `Monomial.before_trans`, `Monomial.eq_of_not_before`: monomials are totally ordered.
* `Monomial.isNormal_mul`: products of normal monomials are normal.
* `Monomial.value_mul`: the value of a product is the product of the values.
* `Monomial.eval_eq`: evaluation gives the value where the point has the coordinates.
-/

namespace Plonkish.Monomial

/-! ## Order -/

/-- Factors are compared by variable, then by exponent. -/
def compareFactor (f g : Nat × Nat) : Ordering :=
  compareLex (compareOn Prod.fst) (compareOn Prod.snd) f g

theorem compareFactors_eq_compareLex (a b : List (Nat × Nat)) :
    compareFactors a b = List.compareLex compareFactor a b := by
  induction a generalizing b with
  | nil => cases b <;> rfl
  | cons f a ih =>
    cases b with
    | nil => rfl
    | cons g b =>
      rw [compareFactors, List.compareLex_cons_cons, ih]
      simp only [compareFactor, compareLex, compareOn, Ordering.then]
      cases compare f.1 g.1 <;> cases compare f.2 g.2 <;> rfl

instance : Std.TransCmp compareFactor :=
  inferInstanceAs (Std.TransCmp (compareLex (compareOn Prod.fst) (compareOn Prod.snd)))

theorem compare_eq (m n : Monomial) :
    compare m n = List.compareLex compareFactor m.factors n.factors :=
  compareFactors_eq_compareLex m.factors n.factors

instance : Std.TransOrd Monomial where
  eq_swap {m n} := by
    rw [compare_eq, compare_eq]
    exact Std.OrientedCmp.eq_swap
  isLE_trans {m n k} := by
    rw [compare_eq, compare_eq, compare_eq]
    exact Std.TransCmp.isLE_trans

variable {m n k : Monomial}

theorem before_iff : m.before n = true ↔ compare m n = .lt := beq_iff_eq

theorem notAfter_iff : m.notAfter n = true ↔ (compare m n).isLE = true := by
  unfold notAfter
  cases compare m n <;> decide

theorem before_trans (h : m.before n = true) (h' : n.before k = true) : m.before k = true :=
  before_iff.2 (Std.TransCmp.lt_trans (before_iff.1 h) (before_iff.1 h'))

theorem not_before_self (m : Monomial) : ¬m.before m = true := by
  rw [before_iff, Std.ReflOrd.compare_self]
  decide

/-- Monomials neither of which is before the other are equal. -/
theorem eq_of_not_before (h : ¬m.before n = true) (h' : ¬n.before m = true) : m = n := by
  rw [before_iff] at h h'
  rw [← Std.OrientedCmp.gt_iff_lt] at h'
  apply sameAs_iff.1
  rw [sameAs, beq_iff_eq]
  cases hc : compare m n with
  | lt => exact absurd hc h
  | eq => rfl
  | gt => exact absurd hc h'

theorem notAfter_trans (h : m.notAfter n = true) (h' : n.notAfter k = true) :
    m.notAfter k = true :=
  notAfter_iff.2 (Std.TransCmp.isLE_trans (notAfter_iff.1 h) (notAfter_iff.1 h'))

theorem notAfter_total (m n : Monomial) : (m.notAfter n || n.notAfter m) = true := by
  rw [Bool.or_eq_true, notAfter_iff, notAfter_iff, Std.OrientedOrd.eq_swap (a := n)]
  cases compare m n <;> decide

/-- A monomial that is no later than another is before it, or the same. -/
theorem before_or_eq_of_notAfter (h : m.notAfter n = true) : m.before n = true ∨ m = n := by
  rw [notAfter_iff, Ordering.isLE_iff_eq_lt_or_eq_eq] at h
  rcases h with h | h
  · exact .inl (before_iff.2 h)
  · exact .inr (sameAs_iff.1 (beq_iff_eq.2 h))

/-! ## Products -/

section Merge

variable {a b : List (Nat × Nat)}

/-- A variable of a product is one of the factors. -/
theorem variable_mem_of_mem_mergeFactors {f : Nat × Nat} (h : f ∈ mergeFactors a b) :
    f.1 ∈ a.map Prod.fst ∨ f.1 ∈ b.map Prod.fst := by
  fun_induction mergeFactors a b with
  | case1 b => exact .inr (List.mem_map_of_mem h)
  | case2 a => exact .inl (List.mem_map_of_mem h)
  | case3 i e a j f b hc ih => grind
  | case4 i e a j f b hc ih => grind
  | case5 i e a j f b hc ih => grind

theorem pairwise_mergeFactors (ha : a.Pairwise fun f g => f.1 < g.1)
    (hb : b.Pairwise fun f g => f.1 < g.1) :
    (mergeFactors a b).Pairwise fun f g => f.1 < g.1 := by
  fun_induction mergeFactors a b with
  | case1 b => exact hb
  | case2 a => exact ha
  | case3 i e a j f b hc ih =>
    have hlt := Nat.compare_eq_lt.1 hc
    obtain ⟨hi, ha⟩ := List.pairwise_cons.1 ha
    obtain ⟨hj, -⟩ := List.pairwise_cons.1 hb
    refine List.pairwise_cons.2 ⟨fun g hg => ?_, ih ha hb⟩
    rcases variable_mem_of_mem_mergeFactors hg with h | h <;> grind
  | case4 i e a j f b hc ih =>
    have hlt := Nat.compare_eq_gt.1 hc
    obtain ⟨hi, -⟩ := List.pairwise_cons.1 ha
    obtain ⟨hj, hb⟩ := List.pairwise_cons.1 hb
    refine List.pairwise_cons.2 ⟨fun g hg => ?_, ih ha hb⟩
    rcases variable_mem_of_mem_mergeFactors hg with h | h <;> grind
  | case5 i e a j f b hc ih =>
    obtain rfl := Nat.compare_eq_eq.1 hc
    obtain ⟨hi, ha⟩ := List.pairwise_cons.1 ha
    obtain ⟨hj, hb⟩ := List.pairwise_cons.1 hb
    refine List.pairwise_cons.2 ⟨fun g hg => ?_, ih ha hb⟩
    rcases variable_mem_of_mem_mergeFactors hg with h | h <;> grind

theorem exponent_pos_mergeFactors (ha : ∀ f ∈ a, 0 < f.2) (hb : ∀ f ∈ b, 0 < f.2) :
    ∀ f ∈ mergeFactors a b, 0 < f.2 := by
  fun_induction mergeFactors a b with
  | case1 b => exact hb
  | case2 a => exact ha
  | case3 i e a j f b hc ih =>
    obtain ⟨hi, ha⟩ := List.forall_mem_cons.1 ha
    exact List.forall_mem_cons.2 ⟨hi, ih ha hb⟩
  | case4 i e a j f b hc ih =>
    obtain ⟨hj, hb⟩ := List.forall_mem_cons.1 hb
    exact List.forall_mem_cons.2 ⟨hj, ih ha hb⟩
  | case5 i e a j f b hc ih =>
    obtain ⟨hi, ha⟩ := List.forall_mem_cons.1 ha
    obtain ⟨-, hb⟩ := List.forall_mem_cons.1 hb
    exact List.forall_mem_cons.2 ⟨Nat.add_pos_left hi f, ih ha hb⟩

end Merge

/-- A product of normal monomials is normal. -/
theorem isNormal_mul (hm : m.IsNormal) (hn : n.IsNormal) : (m.mul n).IsNormal :=
  ⟨pairwise_mergeFactors hm.1 hn.1, exponent_pos_mergeFactors hm.2 hn.2⟩

/-- The variables of a monomial are below a bound. -/
def IsBelow (bound : Int) (m : Monomial) : Prop := ∀ f ∈ m.factors, (f.1 : Int) < bound

/-- In normal form it is enough to look at the last variable. -/
theorem isBelow_of_isAmong {bound : Int} (hm : m.IsNormal) (h : m.isAmong bound = true) :
    m.IsBelow bound := by
  intro f hf
  rcases List.eq_nil_or_concat' m.factors with hnil | ⟨front, last, hfactors⟩
  · rw [hnil] at hf
    cases hf
  · have hlast : (last.1 : Int) < bound := by simpa [isAmong, lastVariable?, hfactors] using h
    obtain ⟨-, -, hfront⟩ := List.pairwise_append.1 (hfactors ▸ hm.1)
    rw [hfactors] at hf
    rcases List.mem_append.1 hf with hf | hf
    · have hlt := hfront f hf last List.mem_cons_self
      omega
    · obtain rfl := List.mem_singleton.1 hf
      exact hlast

theorem isBelow_mul {bound : Int} (hm : m.IsBelow bound) (hn : n.IsBelow bound) :
    (m.mul n).IsBelow bound := by
  intro f hf
  rcases variable_mem_of_mem_mergeFactors hf with h | h
  · obtain ⟨g, hg, hfg⟩ := List.mem_map.1 h
    exact hfg ▸ hm g hg
  · obtain ⟨g, hg, hfg⟩ := List.mem_map.1 h
    exact hfg ▸ hn g hg

/-! ## Values -/

/-- The value of a monomial where each variable has a value. -/
def value (x : Nat → Scalar) (m : Monomial) : Scalar := (m.factors.map fun f => x f.1 ^ f.2).prod

variable {x : Nat → Scalar}

theorem prod_mergeFactors (x : Nat → Scalar) (a b : List (Nat × Nat)) :
    ((mergeFactors a b).map fun f => x f.1 ^ f.2).prod =
      (a.map fun f => x f.1 ^ f.2).prod * (b.map fun f => x f.1 ^ f.2).prod := by
  fun_induction mergeFactors a b with
  | case1 b => simp
  | case2 a => simp
  | case3 i e a j f b hc ih =>
    simp only [List.map_cons, List.prod_cons, ih]
    ring
  | case4 i e a j f b hc ih =>
    simp only [List.map_cons, List.prod_cons, ih]
    ring
  | case5 i e a j f b hc ih =>
    obtain rfl := Nat.compare_eq_eq.1 hc
    simp only [List.map_cons, List.prod_cons, ih]
    ring

theorem value_mul (x : Nat → Scalar) (m n : Monomial) :
    (m.mul n).value x = m.value x * n.value x := prod_mergeFactors x m.factors n.factors

theorem value_one (x : Nat → Scalar) : one.value x = 1 := rfl

theorem value_ofVariable (x : Nat → Scalar) (i : Nat) : (ofVariable i).value x = x i := by
  simp [value, ofVariable]

/-- Evaluation gives the value where the point has the coordinates. -/
theorem eval_eq {point : List Scalar} (h : ∀ f ∈ m.factors, point[f.1]? = some (x f.1)) :
    m.eval point = .ok (m.value x) := by
  obtain ⟨factors⟩ := m
  have hfold : ∀ acc : Scalar,
      factors.foldlM (fun acc f => do
        let y ← coordinate point f.1
        return acc * Scalar.pow y f.2) acc =
          Except.ok (acc * (factors.map fun f => x f.1 ^ f.2).prod) := by
    induction factors with
    | nil => simp [pure, Except.pure]
    | cons f factors ih =>
      obtain ⟨hf, hfactors⟩ := List.forall_mem_cons.1 h
      intro acc
      simp only [List.foldlM_cons, coordinate, VariableNumber.position?_nat, hf, bind, Except.bind,
        pure, Except.pure] at ih ⊢
      rw [ih hfactors, Scalar.pow_eq, List.map_cons, List.prod_cons, mul_assoc]
  have hone := hfold 1
  rw [one_mul] at hone
  exact hone

end Plonkish.Monomial
