import Plonkish.Poly
import Plonkish.Proofs.Monomial

/-!
# Normal forms of polynomials

Every operation on polynomials keeps their terms in normal form. That scaling does so is a fact
about the modulus: no product of coefficients vanishes.

* `Poly.isNormalized_iff`: the test decides the normal form.
* `Poly.isNormal_normalize`, `Poly.isNormal_mergeTerms`: sorting and merging give normal forms.
* `Poly.WellFormed`: the invariant of polynomials, kept by `WellFormed.add`, `WellFormed.neg`,
  `WellFormed.scale`, `WellFormed.mul` and `WellFormed.mulByScaling`.
-/

namespace Plonkish.Poly

/-- A coefficient and a monomial. -/
abbrev Term := Scalar × Monomial

variable {terms a b : List Term} {t u : Term}

/-! ## The test -/

theorem isNormal_nil : IsNormal ([] : List Term) := ⟨.nil, by simp⟩

theorem isNormal_cons_iff :
    IsNormal (t :: terms) ↔
      t.1 ≠ 0 ∧ (∀ u ∈ terms, t.2.before u.2 = true) ∧ IsNormal terms := by
  simp only [IsNormal, List.pairwise_cons, List.forall_mem_cons]
  tauto

/-- The test decides the normal form. -/
theorem isNormalized_iff : isNormalized terms = true ↔ IsNormal terms := by
  fun_induction isNormalized terms with
  | case1 => exact ⟨fun _ => isNormal_nil, fun _ => rfl⟩
  | case2 t => simp [IsNormal]
  | case3 t u terms ih =>
    rw [Bool.and_eq_true, Bool.and_eq_true, ih, decide_eq_true_eq]
    constructor
    · rintro ⟨⟨ht, htu⟩, hterms⟩
      have hu := (isNormal_cons_iff.1 hterms).2.1
      refine isNormal_cons_iff.2 ⟨ht, List.forall_mem_cons.2 ⟨htu, fun v hv => ?_⟩, hterms⟩
      exact Monomial.before_trans htu (hu v hv)
    · intro h
      obtain ⟨ht, hbefore, hterms⟩ := isNormal_cons_iff.1 h
      exact ⟨⟨ht, (List.forall_mem_cons.1 hbefore).1⟩, hterms⟩

/-! ## Sorting -/

/-- The monomials that remain are among those that were given. -/
theorem forall_foldr_consTerm {P : Monomial → Prop} (h : ∀ t ∈ terms, P t.2) :
    ∀ t ∈ terms.foldr consTerm [], P t.2 := by
  induction terms with
  | nil => exact h
  | cons t terms ih =>
    obtain ⟨ht, hterms⟩ := List.forall_mem_cons.1 h
    have hrest := ih hterms
    rw [List.foldr_cons]
    cases hfold : terms.foldr consTerm [] with
    | nil => exact List.forall_mem_cons.2 ⟨ht, by simp⟩
    | cons u rest =>
      rw [hfold] at hrest
      obtain ⟨hu, hrest⟩ := List.forall_mem_cons.1 hrest
      rw [consTerm]
      split
      · exact List.forall_mem_cons.2 ⟨hu, hrest⟩
      · exact List.forall_mem_cons.2 ⟨ht, List.forall_mem_cons.2 ⟨hu, hrest⟩⟩

theorem forall_normalize {P : Monomial → Prop} (h : ∀ t ∈ terms, P t.2) :
    ∀ t ∈ normalize terms, P t.2 := by
  intro t ht
  refine forall_foldr_consTerm (fun u hu => ?_) t (List.mem_of_mem_filter ht)
  exact h u (List.mem_mergeSort.1 hu)

/-- Adding up the coefficients of equal monomials in a sorted list leaves no two equal. -/
theorem pairwise_foldr_consTerm (h : terms.Pairwise fun t u => t.2.notAfter u.2 = true) :
    (terms.foldr consTerm []).Pairwise fun t u => t.2.before u.2 = true := by
  induction terms with
  | nil => exact .nil
  | cons t terms ih =>
    obtain ⟨ht, hterms⟩ := List.pairwise_cons.1 h
    have hrest := ih hterms
    have hnotAfter := forall_foldr_consTerm (P := fun m => t.2.notAfter m = true) ht
    rw [List.foldr_cons]
    cases hfold : terms.foldr consTerm [] with
    | nil => exact List.pairwise_singleton _ t
    | cons u rest =>
      rw [hfold] at hrest hnotAfter
      obtain ⟨hu, hpairwise⟩ := List.pairwise_cons.1 hrest
      rw [consTerm]
      split
      · exact List.pairwise_cons.2 ⟨hu, hpairwise⟩
      · next hsame =>
        -- The new monomial is no later than the next and not the same, so it is before all.
        have hbefore : t.2.before u.2 = true := by
          rcases Monomial.before_or_eq_of_notAfter (hnotAfter u List.mem_cons_self) with h | h
          · exact h
          · exact absurd (Monomial.sameAs_iff.2 h) hsame
        refine List.pairwise_cons.2 ⟨List.forall_mem_cons.2 ⟨hbefore, fun v hv => ?_⟩, hrest⟩
        exact Monomial.before_trans hbefore (hu v hv)

/-- Sorting terms, adding up and dropping zeros gives a normal form. -/
theorem isNormal_normalize (terms : List Term) : IsNormal (normalize terms) := by
  have hsorted : (terms.mergeSort fun s t => s.2.notAfter t.2).Pairwise
      fun t u => t.2.notAfter u.2 = true :=
    List.pairwise_mergeSort (fun s t u => Monomial.notAfter_trans (m := s.2) (n := t.2) (k := u.2))
      (fun t u => Monomial.notAfter_total t.2 u.2) terms
  refine ⟨(pairwise_foldr_consTerm hsorted).filter _, fun t ht => ?_⟩
  exact of_decide_eq_true (List.mem_filter.1 ht).2

/-! ## Merging -/

theorem forall_mergeTerms {P : Monomial → Prop} (ha : ∀ t ∈ a, P t.2) (hb : ∀ t ∈ b, P t.2) :
    ∀ t ∈ mergeTerms a b, P t.2 := by
  fun_induction mergeTerms a b with
  | case1 b => exact hb
  | case2 a => exact ha
  | case3 s a t b hst ih =>
    obtain ⟨hs, ha⟩ := List.forall_mem_cons.1 ha
    exact List.forall_mem_cons.2 ⟨hs, ih ha hb⟩
  | case4 s a t b hst hts ih =>
    obtain ⟨ht, hb⟩ := List.forall_mem_cons.1 hb
    exact List.forall_mem_cons.2 ⟨ht, ih ha hb⟩
  | case5 s a t b hst hts hsum ih =>
    obtain ⟨hs, ha⟩ := List.forall_mem_cons.1 ha
    exact List.forall_mem_cons.2 ⟨hs, ih ha (List.forall_mem_cons.1 hb).2⟩
  | case6 s a t b hst hts hsum ih =>
    exact ih (List.forall_mem_cons.1 ha).2 (List.forall_mem_cons.1 hb).2

/-- Merging normal forms gives a normal form. -/
theorem isNormal_mergeTerms (ha : IsNormal a) (hb : IsNormal b) : IsNormal (mergeTerms a b) := by
  fun_induction mergeTerms a b with
  | case1 b => exact hb
  | case2 a => exact ha
  | case3 s a t b hst ih =>
    obtain ⟨hs, hsa, ha⟩ := isNormal_cons_iff.1 ha
    have htb := (isNormal_cons_iff.1 hb).2.1
    have hsb : ∀ u ∈ t :: b, s.2.before u.2 = true :=
      List.forall_mem_cons.2 ⟨hst, fun u hu => Monomial.before_trans hst (htb u hu)⟩
    exact isNormal_cons_iff.2 ⟨hs, forall_mergeTerms (P := (s.2.before · = true)) hsa hsb, ih ha hb⟩
  | case4 s a t b hst hts ih =>
    obtain ⟨ht, htb, hb⟩ := isNormal_cons_iff.1 hb
    have hsa := (isNormal_cons_iff.1 ha).2.1
    have hta : ∀ u ∈ s :: a, t.2.before u.2 = true :=
      List.forall_mem_cons.2 ⟨hts, fun u hu => Monomial.before_trans hts (hsa u hu)⟩
    exact isNormal_cons_iff.2 ⟨ht, forall_mergeTerms (P := (t.2.before · = true)) hta htb, ih ha hb⟩
  | case5 s a t b hst hts hsum ih =>
    obtain ⟨-, hsa, ha⟩ := isNormal_cons_iff.1 ha
    obtain ⟨-, htb, hb⟩ := isNormal_cons_iff.1 hb
    rw [← Monomial.eq_of_not_before hst hts] at htb
    exact isNormal_cons_iff.2
      ⟨hsum, forall_mergeTerms (P := (s.2.before · = true)) hsa htb, ih ha hb⟩
  | case6 s a t b hst hts hsum ih =>
    exact ih (isNormal_cons_iff.1 ha).2.2 (isNormal_cons_iff.1 hb).2.2

/-- Changing coefficients to others than zero keeps a normal form. -/
theorem isNormal_map {f : Scalar → Scalar} (hf : ∀ c, c ≠ 0 → f c ≠ 0) (h : IsNormal terms) :
    IsNormal (terms.map fun (c, m) => (f c, m)) := by
  refine ⟨List.pairwise_map.2 h.1, fun t ht => ?_⟩
  obtain ⟨u, hu, rfl⟩ := List.mem_map.1 ht
  exact hf u.1 (h.2 u hu)

/-- The monomials of a product are products of those of the operands. -/
theorem forall_crossTerms {P : Monomial → Prop} (h : ∀ s ∈ a, ∀ t ∈ b, P (s.2.mul t.2)) :
    ∀ t ∈ crossTerms a b, P t.2 := by
  intro t ht
  obtain ⟨s, hs, ht⟩ := List.mem_flatMap.1 ht
  obtain ⟨u, hu, rfl⟩ := List.mem_map.1 ht
  exact h s hs u hu

/-! ## Polynomials -/

/-- Terms and monomials are in normal form, and variables are below the number of variables. -/
structure WellFormed (p : Poly) : Prop where
  normal : IsNormal p.terms
  monomials : ∀ t ∈ p.terms, t.2.IsNormal
  below : ∀ t ∈ p.terms, t.2.IsBelow p.numVars

variable {p q : Poly} {n : Int}

/-- A polynomial that is made of terms has their normal form. -/
theorem ofTerms_eq_ok {terms : List Term} (h : ofTerms n terms = .ok p) :
    p = ⟨n, normalize terms⟩ ∧ ∀ t ∈ normalize terms, t.2.isAmong n = true := by
  unfold ofTerms at h
  dsimp only at h
  split at h
  · next t _ =>
    cases htext : t.2.text <;> rw [htext] at h <;> cases h
  · next hfind =>
    cases h
    exact ⟨rfl, by simpa using hfind⟩

/-- A polynomial that is made of normal monomials is well-formed. -/
theorem wellFormed_ofTerms {terms : List Term} (hmonomials : ∀ t ∈ terms, t.2.IsNormal)
    (h : ofTerms n terms = .ok p) : p.WellFormed := by
  obtain ⟨rfl, hamong⟩ := ofTerms_eq_ok h
  have hnormal := forall_normalize hmonomials
  exact ⟨isNormal_normalize terms, hnormal,
    fun t ht => Monomial.isBelow_of_isAmong (hnormal t ht) (hamong t ht)⟩

theorem eq_literal_of_ofConstant {v : Scalar} (h : ofConstant n v = .ok p) : p = literal n v := by
  rw [(ofTerms_eq_ok h).1, normalize_singleton]
  rfl

theorem eq_indeterminate_of_ofVariable {i : Nat} (h : ofVariable n i = .ok p) :
    p = indeterminate n i ∧ (i : Int) < n := by
  have hone : (1 : Scalar) ≠ 0 := by decide
  obtain ⟨rfl, hamong⟩ := ofTerms_eq_ok h
  rw [normalize_singleton, if_neg hone] at hamong ⊢
  refine ⟨rfl, ?_⟩
  have hi := hamong _ List.mem_cons_self
  simpa [Monomial.isAmong, Monomial.lastVariable?, Monomial.ofVariable] using hi

theorem wellFormed_zero (n : Int) : WellFormed (zero n) :=
  ⟨isNormal_nil, by simp [zero], by simp [zero]⟩

theorem wellFormed_literal (n : Int) (v : Scalar) : WellFormed (literal n v) := by
  unfold literal
  split
  · exact wellFormed_zero n
  · next h =>
    refine ⟨isNormal_cons_iff.2 ⟨h, by simp, isNormal_nil⟩, ?_, ?_⟩
    · exact List.forall_mem_singleton.2 ⟨.nil, by simp [Monomial.one]⟩
    · exact List.forall_mem_singleton.2 (by simp [Monomial.IsBelow, Monomial.one])

theorem wellFormed_indeterminate {i : Nat} (h : (i : Int) < n) :
    WellFormed (indeterminate n i) := by
  have hone : (1 : Scalar) ≠ 0 := by decide
  refine ⟨isNormal_cons_iff.2 ⟨hone, by simp, isNormal_nil⟩, ?_, ?_⟩
  · exact List.forall_mem_singleton.2 ⟨List.pairwise_singleton _ _, by simp [Monomial.ofVariable]⟩
  · exact List.forall_mem_singleton.2 (List.forall_mem_singleton.2 h)

/-- In normal form a polynomial of literals is the literal with its leading coefficient. -/
theorem terms_of_isLiteral (n : Int) (hp : IsNormal p.terms) (h : p.isLiteral = true) :
    p.terms = (literal n p.leadingCoeff).terms := by
  obtain ⟨k, terms⟩ := p
  have hones : ∀ t ∈ terms, t.2 = .one := by
    intro t ht
    obtain ⟨c, ⟨factors⟩⟩ := t
    have hone := List.all_eq_true.1 h _ ht
    rw [Monomial.isOne, List.isEmpty_iff] at hone
    exact congrArg Monomial.mk hone
  match terms, hp, hones with
  | [], _, _ => rw [literal, leadingCoeff, if_pos rfl]
  | [(c, m)], hp, hones =>
    obtain rfl : m = .one := hones _ List.mem_cons_self
    rw [literal, leadingCoeff, if_neg (isNormal_cons_iff.1 hp).1]
  | t :: u :: terms, hp, hones =>
    -- Two literals are not in order.
    have hbefore := (isNormal_cons_iff.1 hp).2.1 u List.mem_cons_self
    rw [hones t List.mem_cons_self, hones u (List.mem_cons_of_mem _ List.mem_cons_self)] at hbefore
    exact absurd hbefore (Monomial.not_before_self _)

theorem numVars_scale (p : Poly) (s : Scalar) : (p.scale s).numVars = p.numVars := by
  unfold scale
  split <;> rfl

theorem numVars_mul (p q : Poly) : (p.mul q).numVars = max p.numVars q.numVars := by
  unfold mul
  dsimp only
  split <;> rfl

theorem numVars_mulByScaling (h : p.numVars = q.numVars) :
    (p.mulByScaling q).numVars = p.numVars := by
  unfold mulByScaling
  repeat' split
  · rw [numVars_scale, h]
  · exact numVars_scale p _
  · rw [numVars_mul, h, max_self]

namespace WellFormed

theorem add (hp : p.WellFormed) (hq : q.WellFormed) : (p.add q).WellFormed where
  normal := isNormal_mergeTerms hp.normal hq.normal
  monomials := forall_mergeTerms hp.monomials hq.monomials
  below := by
    refine forall_mergeTerms (P := Monomial.IsBelow _) (fun t ht f hf => ?_) fun t ht f hf => ?_
    · exact lt_of_lt_of_le (hp.below t ht f hf) (le_max_left _ _)
    · exact lt_of_lt_of_le (hq.below t ht f hf) (le_max_right _ _)

theorem map {f : Scalar → Scalar} (hf : ∀ c, c ≠ 0 → f c ≠ 0) (hp : p.WellFormed) :
    WellFormed ⟨p.numVars, p.terms.map fun (c, m) => (f c, m)⟩ where
  normal := isNormal_map hf hp.normal
  monomials := List.forall_mem_map.2 hp.monomials
  below := List.forall_mem_map.2 hp.below

theorem neg (hp : p.WellFormed) : p.neg.WellFormed :=
  hp.map fun _ hc => neg_ne_zero.2 hc

theorem scale (hp : p.WellFormed) (s : Scalar) : (p.scale s).WellFormed := by
  unfold Poly.scale
  split
  · exact wellFormed_zero p.numVars
  · next h => exact hp.map fun c hc => Scalar.mul_ne_zero hc fun hs => h (.inl hs)

theorem mul (hp : p.WellFormed) (hq : q.WellFormed) : (p.mul q).WellFormed := by
  unfold Poly.mul
  dsimp only
  split
  · exact wellFormed_zero _
  · refine ⟨isNormal_normalize _, forall_normalize (forall_crossTerms fun s hs t ht => ?_),
      forall_normalize (forall_crossTerms fun s hs t ht => ?_)⟩
    · exact Monomial.isNormal_mul (hp.monomials s hs) (hq.monomials t ht)
    · refine Monomial.isBelow_mul (fun f hf => ?_) fun f hf => ?_
      · exact lt_of_lt_of_le (hp.below s hs f hf) (le_max_left _ _)
      · exact lt_of_lt_of_le (hq.below t ht f hf) (le_max_right _ _)

theorem mulByScaling (hp : p.WellFormed) (hq : q.WellFormed) : (p.mulByScaling q).WellFormed := by
  unfold Poly.mulByScaling
  split
  · exact hq.scale _
  · split
    · exact hp.scale _
    · exact hp.mul hq

end WellFormed

end Plonkish.Poly
