import Mathlib.Data.List.Sort
import Plonkish.Proofs.Monomial

/-!
# Exponents of monomials

A normal monomial is told by its exponents, and a product has the sums of the exponents. So the
laws of products are those of addition.

* `Monomial.mem_factors_iff`: the factors are the positive exponents.
* `Monomial.eq_of_exponent_eq`: monomials with equal exponents are equal.
* `Monomial.exponent_mul`: the exponents of a product.
* `Monomial.isNormal_ofSigned`: monomials that are made of factors are normal.
-/

namespace Plonkish.Monomial

variable {m n k : Monomial} {i : Nat} {factors : List (Nat × Nat)}

theorem exponent_cons (f : Nat × Nat) (factors : List (Nat × Nat)) (i : Nat) :
    exponent ⟨f :: factors⟩ i = (if f.1 = i then f.2 else 0) + exponent ⟨factors⟩ i := by
  unfold exponent
  by_cases h : f.1 = i
  · rw [List.filter_cons_of_pos (by simpa using h), if_pos h]
    rfl
  · rw [List.filter_cons_of_neg (by simpa using h), if_neg h, Nat.zero_add]

theorem exponent_eq_zero (h : ∀ f ∈ factors, f.1 ≠ i) : exponent ⟨factors⟩ i = 0 := by
  induction factors with
  | nil => rfl
  | cons f factors ih =>
    obtain ⟨hf, hfactors⟩ := List.forall_mem_cons.1 h
    rw [exponent_cons, if_neg hf, ih hfactors]

/-- The factors of a normal monomial are its positive exponents. -/
theorem mem_factors_iff (hm : m.IsNormal) {f : Nat × Nat} :
    f ∈ m.factors ↔ 0 < f.2 ∧ m.exponent f.1 = f.2 := by
  obtain ⟨factors⟩ := m
  induction factors with
  | nil =>
    have hnil : exponent ⟨[]⟩ f.1 = 0 := rfl
    simp only [List.not_mem_nil, false_iff, hnil]
    omega
  | cons g factors ih =>
    obtain ⟨hsorted, hpos⟩ := hm
    obtain ⟨hg, hsorted⟩ := List.pairwise_cons.1 hsorted
    obtain ⟨hgpos, hpos⟩ := List.forall_mem_cons.1 hpos
    rw [List.mem_cons, exponent_cons]
    by_cases hgf : g.1 = f.1
    · -- No other factor has the variable of the first.
      have hrest : exponent ⟨factors⟩ f.1 = 0 :=
        exponent_eq_zero fun h hh => by have := hg h hh; omega
      have hmem : f ∉ factors := fun hf => by have := hg f hf; omega
      rw [if_pos hgf, hrest, Nat.add_zero]
      constructor
      · rintro (rfl | h)
        · exact ⟨hgpos, rfl⟩
        · exact absurd h hmem
      · rintro ⟨-, h⟩
        exact .inl (Prod.ext hgf.symm h.symm)
    · have hne : f ≠ g := fun h => hgf (by rw [h])
      rw [if_neg hgf, Nat.zero_add, or_iff_right hne]
      exact ih ⟨hsorted, hpos⟩

/-- Normal monomials with equal exponents are equal. -/
theorem eq_of_exponent_eq (hm : m.IsNormal) (hn : n.IsNormal)
    (h : ∀ i, m.exponent i = n.exponent i) : m = n := by
  have : Std.Irrefl fun f g : Nat × Nat => f.1 < g.1 := ⟨fun _ => Nat.lt_irrefl _⟩
  have : Std.Antisymm fun f g : Nat × Nat => f.1 < g.1 :=
    ⟨fun _ _ h h' => absurd h (Nat.lt_asymm h')⟩
  have hfactors : m.factors = n.factors :=
    hm.1.eq_of_mem_iff hn.1 fun f => by rw [mem_factors_iff hm, mem_factors_iff hn, h]
  cases m
  cases n
  exact congrArg mk hfactors

/-! ## Products -/

/-- A product has the sums of the exponents. -/
theorem exponent_mul (m n : Monomial) (i : Nat) :
    (m.mul n).exponent i = m.exponent i + n.exponent i := by
  obtain ⟨a⟩ := m
  obtain ⟨b⟩ := n
  show exponent ⟨mergeFactors a b⟩ i = _
  fun_induction mergeFactors a b with
  | case1 b => exact (Nat.zero_add _).symm
  | case2 a => rfl
  | case3 j e a j' f b hc ih =>
    rw [exponent_cons, ih, exponent_cons (j, e)]
    omega
  | case4 j e a j' f b hc ih =>
    rw [exponent_cons, ih, exponent_cons (j', f)]
    omega
  | case5 j e a j' f b hc ih =>
    obtain rfl := Nat.compare_eq_eq.1 hc
    rw [exponent_cons, ih, exponent_cons (j, e), exponent_cons (j, f)]
    dsimp only
    split <;> omega

theorem mul_comm (hm : m.IsNormal) (hn : n.IsNormal) : m.mul n = n.mul m :=
  eq_of_exponent_eq (isNormal_mul hm hn) (isNormal_mul hn hm) fun i => by
    rw [exponent_mul, exponent_mul, Nat.add_comm]

theorem mul_assoc (hm : m.IsNormal) (hn : n.IsNormal) (hk : k.IsNormal) :
    (m.mul n).mul k = m.mul (n.mul k) :=
  eq_of_exponent_eq (isNormal_mul (isNormal_mul hm hn) hk)
    (isNormal_mul hm (isNormal_mul hn hk)) fun i => by
    rw [exponent_mul, exponent_mul, exponent_mul, exponent_mul, Nat.add_assoc]

theorem mul_one (m : Monomial) : m.mul one = m := by
  obtain ⟨factors⟩ := m
  cases factors <;> simp [mul, one, mergeFactors]

theorem one_mul (m : Monomial) : one.mul m = m := by
  simp [mul, one, mergeFactors]

/-! ## Factors in any order -/

theorem forall_insert {P : Nat → Prop} {j e : Nat} (hj : P j) (h : ∀ f ∈ factors, P f.1) :
    ∀ f ∈ insert j e factors, P f.1 := by
  fun_induction insert j e factors with
  | case1 => exact List.forall_mem_singleton.2 hj
  | case2 j' f rest _ => exact List.forall_mem_cons.2 ⟨hj, h⟩
  | case3 f rest => exact List.forall_mem_cons.2 ⟨hj, (List.forall_mem_cons.1 h).2⟩
  | case4 j' f rest _ _ ih =>
    obtain ⟨hj', hrest⟩ := List.forall_mem_cons.1 h
    exact List.forall_mem_cons.2 ⟨hj', ih hrest⟩

theorem isNormal_insert {j e : Nat} (he : 0 < e) (h : IsNormal ⟨factors⟩) :
    IsNormal ⟨insert j e factors⟩ := by
  obtain ⟨hsorted, hpos⟩ := h
  fun_induction insert j e factors with
  | case1 => exact ⟨List.pairwise_singleton _ _, by simpa using he⟩
  | case2 j' f rest hlt =>
    refine ⟨List.pairwise_cons.2 ⟨?_, hsorted⟩, List.forall_mem_cons.2 ⟨he, hpos⟩⟩
    have hfirst := (List.pairwise_cons.1 hsorted).1
    exact List.forall_mem_cons.2 ⟨hlt, fun g hg => Nat.lt_trans hlt (hfirst g hg)⟩
  | case3 f rest =>
    obtain ⟨hf, hpos⟩ := List.forall_mem_cons.1 hpos
    refine ⟨List.pairwise_cons.2 (List.pairwise_cons.1 hsorted), ?_⟩
    exact List.forall_mem_cons.2 ⟨Nat.add_pos_left hf e, hpos⟩
  | case4 j' f rest hlt hne ih =>
    obtain ⟨hfirst, hsorted⟩ := List.pairwise_cons.1 hsorted
    obtain ⟨hf, hpos⟩ := List.forall_mem_cons.1 hpos
    obtain ⟨hsorted, hpos⟩ := ih hsorted hpos
    refine ⟨List.pairwise_cons.2 ⟨?_, hsorted⟩, List.forall_mem_cons.2 ⟨hf, hpos⟩⟩
    exact forall_insert (by omega : j' < j) hfirst

theorem exponent_append (a b : List (Nat × Nat)) (i : Nat) :
    exponent ⟨a ++ b⟩ i = exponent ⟨a⟩ i + exponent ⟨b⟩ i := by
  induction a with
  | nil => exact (Nat.zero_add _).symm
  | cons f a ih => rw [List.cons_append, exponent_cons, ih, exponent_cons, Nat.add_assoc]

theorem exponent_insert (j e : Nat) (factors : List (Nat × Nat)) (i : Nat) :
    exponent ⟨insert j e factors⟩ i = (if j = i then e else 0) + exponent ⟨factors⟩ i := by
  fun_induction insert j e factors with
  | case1 => exact exponent_cons (j, e) [] i
  | case2 j' f rest _ => exact exponent_cons (j, e) _ i
  | case3 f rest =>
    rw [exponent_cons, exponent_cons]
    dsimp only
    split <;> omega
  | case4 j' f rest _ _ ih =>
    rw [exponent_cons, ih, exponent_cons]
    omega

/-- The product of factors is normal, in whatever order they are given. -/
theorem isNormal_ofFactors (factors : List (Nat × Nat)) : (ofFactors factors).IsNormal := by
  have hfold : ∀ acc, IsNormal ⟨acc⟩ →
      IsNormal ⟨factors.foldl (fun m f => if f.2 = 0 then m else insert f.1 f.2 m) acc⟩ := by
    induction factors with
    | nil => exact fun _ hacc => hacc
    | cons f factors ih =>
      intro acc hacc
      rw [List.foldl_cons]
      refine ih _ ?_
      split
      · exact hacc
      · next hf => exact isNormal_insert (Nat.pos_of_ne_zero hf) hacc
  exact hfold [] ⟨.nil, by simp⟩

/-- The product of factors has the sums of their exponents. -/
theorem exponent_ofFactors (factors : List (Nat × Nat)) (i : Nat) :
    (ofFactors factors).exponent i = exponent ⟨factors⟩ i := by
  have hfold : ∀ acc,
      exponent ⟨factors.foldl (fun m f => if f.2 = 0 then m else insert f.1 f.2 m) acc⟩ i =
        exponent ⟨acc⟩ i + exponent ⟨factors⟩ i := by
    induction factors with
    | nil => exact fun _ => rfl
    | cons f factors ih =>
      intro acc
      rw [List.foldl_cons, ih, exponent_cons]
      split
      · next hf => rw [hf, ite_self, Nat.zero_add]
      · rw [exponent_insert]
        omega
  exact (hfold []).trans (Nat.zero_add _)

/-- The product of the factors of two normal monomials is the product of the monomials. -/
theorem ofFactors_append (hm : m.IsNormal) (hn : n.IsNormal) :
    ofFactors (m.factors ++ n.factors) = m.mul n :=
  eq_of_exponent_eq (isNormal_ofFactors _) (isNormal_mul hm hn) fun i => by
    rw [exponent_ofFactors, exponent_append, exponent_mul]

/-- The factors of a monomial, with signed numbers. -/
def signed (m : Monomial) : List (Int × Int) := m.factors.map fun f => ((f.1 : Int), (f.2 : Int))

/-- The factors of two normal monomials are accepted, and make their product. -/
theorem ofSigned_append (hm : m.IsNormal) (hn : n.IsNormal) :
    ofSigned (m.signed ++ n.signed) = .ok (m.mul n) := by
  have hnone : (m.signed ++ n.signed).find? (fun f => decide (f.1 < 0 ∨ f.2 < 0)) = none := by
    rw [signed, signed, ← List.map_append, List.find?_map, List.find?_eq_none.2, Option.map_none]
    intro f _
    simp
  have hback : (m.signed ++ n.signed).map (fun f => (f.1.toNat, f.2.toNat)) =
      m.factors ++ n.factors := by
    rw [signed, signed, ← List.map_append, List.map_map]
    exact List.map_id' _
  rw [ofSigned, hnone, hback, ofFactors_append hm hn]

/-- A monomial that is made of signed factors is normal. -/
theorem isNormal_ofSigned {signed : List (Int × Int)} (h : ofSigned signed = .ok m) :
    m.IsNormal := by
  unfold ofSigned at h
  split at h
  · cases h
  · cases h
    exact isNormal_ofFactors _

end Plonkish.Monomial
