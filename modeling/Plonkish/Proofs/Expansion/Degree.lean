import Plonkish.Proofs.Expansion
import Plonkish.Proofs.Poly.Degree

/-!
# Degrees of expanded expressions

The degree of an expression is computed on the tree, where challenges count nothing. The polynomial
of the expression has no larger degree in its queries, which are the variables in front of the
challenges. So the degree of a circuit bounds what its constraints need.

* `Expansion.degreeBelow_expr_le`: expressions.
* `Circuit.gateDegree_le`, `Circuit.lookupDegree_le`, `Circuit.shuffleDegree_le`: the degree of a
  circuit is at least that of each constraint.
* `Expansion.degrees_le`: the polynomials of a circuit, and those of expressions.
-/

namespace Plonkish

open Outcome VariableSpace

/-! ## Expressions -/

namespace Expansion

variable {V : VariableSpace} {p : Poly}

/-- Queries have the degree one. Challenges are numbered behind all queries, so they have none. -/
theorem degreeBelow_leaf_le {l : Leaf} (h : leaf V l = .ok p) :
    p.degreeBelow (V.offset .challenge) ≤ l.degree := by
  rcases leaf_eq_ok h with ⟨v, rfl, rfl⟩ | ⟨q, i, rfl, -, rfl, -⟩ | ⟨i, phase, rfl, hi, rfl, -⟩
  · exact Nat.le_of_eq (Poly.degreeBelow_literal _ v)
  · rw [Poly.degreeBelow_indeterminate]
    show _ ≤ 1
    split <;> omega
  · obtain ⟨-, hnonneg, -⟩ := challengeIndex_eq_ok_iff.1 hi
    have hbehind : ¬(V.number .challenge i : Int) < V.offset .challenge := by
      rw [number_int]
      omega
    rw [Poly.degreeBelow_indeterminate, if_neg hbehind]
    exact Nat.zero_le _

/-- The polynomial of an expression has no larger degree in its queries than the expression. -/
theorem degreeBelow_expr_le {e : Expr} (h : expr V e = .ok p) :
    p.degreeBelow (V.offset .challenge) ≤ e.degree := by
  rw [expr_eq_fold] at h
  induction e generalizing p with
  | leaf l =>
    rw [Expr.degree_leaf]
    exact degreeBelow_leaf_le h
  | neg e ih =>
    simp only [Algebra.fold, bind_eq_ok_iff, pure_eq_ok_iff] at h
    obtain ⟨q, hq, rfl⟩ := h
    rw [Expr.degree_neg]
    exact (Nat.le_of_eq (Poly.degreeBelow_neg q)).trans (ih hq)
  | sum a b iha ihb =>
    simp only [Algebra.fold, bind_eq_ok_iff, pure_eq_ok_iff] at h
    obtain ⟨q, hq, r, hr, rfl⟩ := h
    rw [Expr.degree_sum]
    exact (Poly.degreeBelow_add_le q r).trans (max_le_max (iha hq) (ihb hr))
  | product a b iha ihb =>
    simp only [Algebra.fold, bind_eq_ok_iff, pure_eq_ok_iff] at h
    obtain ⟨q, hq, r, hr, rfl⟩ := h
    rw [Expr.degree_product]
    exact (Poly.degreeBelow_mulByScaling_le q r).trans (Nat.add_le_add (iha hq) (ihb hr))

/-- Among the polynomials of some expressions, each is bounded by one of them. -/
theorem exists_degreeBelow_le {es : List Expr} {ps : List Poly} (h : exprs V es = .ok ps)
    (hp : p ∈ ps) : ∃ e ∈ es, p.degreeBelow (V.offset .challenge) ≤ e.degree := by
  obtain ⟨e, he, hexpr⟩ := exists_of_mem_of_mapM h hp
  exact ⟨e, he, degreeBelow_expr_le hexpr⟩

end Expansion

/-! ## Circuits -/

namespace Circuit

variable {c : Circuit} {g : Gate Expr} {a : Argument Expr} {e : Expr}

theorem degree_le_maxDegree {es : List Expr} (h : e ∈ es) : e.degree ≤ maxDegree es :=
  le_foldl_max (List.mem_map_of_mem h)

theorem degree_le_gateDegree (h : e ∈ g.polys) : e.degree ≤ gateDegree g :=
  le_foldl_max (List.mem_map_of_mem h)

theorem gateDegree_le (h : g ∈ c.gates) : gateDegree g ≤ c.computedDegree :=
  le_foldl_max (List.mem_append_left _ (List.mem_append_left _ (List.mem_map_of_mem h)))

theorem lookupDegree_le (h : a ∈ c.lookups) : lookupDegree a ≤ c.computedDegree :=
  le_foldl_max (List.mem_append_left _ (List.mem_append_right _ (List.mem_map_of_mem h)))

theorem shuffleDegree_le (h : a ∈ c.shuffles) : shuffleDegree a ≤ c.computedDegree :=
  le_foldl_max (List.mem_append_right _ (List.mem_map_of_mem h))

theorem degree_eq_computedDegree (h : c.declaredDegree = none) : c.degree = c.computedDegree := by
  rw [degree, h]
  rfl

end Circuit

namespace Expansion

/-- The polynomials of a circuit need no larger degree than the given one, with the variables below
a bound as queries. A lookup multiplies an input by a target, and an argument needs two more. -/
structure Parts.IsWithin (parts : Parts) (bound : Int) (d : Nat) : Prop where
  gates : ∀ ps ∈ parts.gates, ∀ p ∈ ps, p.degreeBelow bound ≤ d
  /-- The inputs and the targets of one lookup stand at one place. -/
  lookups : List.Forall₂
    (fun inputs targets => ∀ p ∈ inputs, ∀ q ∈ targets,
      2 + p.degreeBelow bound + q.degreeBelow bound ≤ d)
    parts.lookupInputs parts.lookupTargets
  shuffles : ∀ ps ∈ parts.shuffleInputs ++ parts.shuffleTargets, ∀ p ∈ ps,
    2 + p.degreeBelow bound ≤ d

theorem isWithin_of_circuit {c : Circuit} {parts : Parts} (h : circuit c = .ok parts) :
    parts.IsWithin ((VariableSpace.ofCircuit c).offset .challenge) c.computedDegree := by
  simp only [circuit, bind_eq_ok_iff, pure_eq_ok_iff] at h
  obtain ⟨-, -, gates, hgates, inputs, hinputs, targets, htargets, shuffleInputs, hshuffleInputs,
    shuffleTargets, hshuffleTargets, rfl⟩ := h
  refine ⟨fun ps hps p hp => ?_, forall₂_of_mapM hinputs htargets fun a ha ps qs hps hqs p hp q hq =>
    ?_, fun ps hps p hp => ?_⟩
  · obtain ⟨g, hg, hexprs⟩ := exists_of_mem_of_mapM hgates hps
    obtain ⟨e, he, hle⟩ := exists_degreeBelow_le hexprs hp
    exact (hle.trans (Circuit.degree_le_gateDegree he)).trans (Circuit.gateDegree_le hg)
  · obtain ⟨e, he, hle⟩ := exists_degreeBelow_le hps hp
    obtain ⟨e', he', hle'⟩ := exists_degreeBelow_le hqs hq
    have hinput := Circuit.degree_le_maxDegree he
    have htarget := Circuit.degree_le_maxDegree he'
    have hlookup : 2 + Circuit.maxDegree a.inputs + Circuit.maxDegree a.targets ≤
        c.computedDegree := Circuit.lookupDegree_le ha
    omega
  · have hshuffle : ∃ a ∈ c.shuffles, ∃ e, (e ∈ a.inputs ∨ e ∈ a.targets) ∧
        p.degreeBelow ((VariableSpace.ofCircuit c).offset .challenge) ≤ e.degree := by
      rcases List.mem_append.1 hps with hps | hps
      · obtain ⟨a, ha, hexprs⟩ := exists_of_mem_of_mapM hshuffleInputs hps
        obtain ⟨e, he, hle⟩ := exists_degreeBelow_le hexprs hp
        exact ⟨a, ha, e, .inl he, hle⟩
      · obtain ⟨a, ha, hexprs⟩ := exists_of_mem_of_mapM hshuffleTargets hps
        obtain ⟨e, he, hle⟩ := exists_degreeBelow_le hexprs hp
        exact ⟨a, ha, e, .inr he, hle⟩
    obtain ⟨a, ha, e, he, hle⟩ := hshuffle
    have hdegree : 2 + max (Circuit.maxDegree a.inputs) (Circuit.maxDegree a.targets) ≤
        c.computedDegree := Circuit.shuffleDegree_le ha
    have hmax : e.degree ≤ max (Circuit.maxDegree a.inputs) (Circuit.maxDegree a.targets) :=
      le_max_iff.2 (he.imp Circuit.degree_le_maxDegree Circuit.degree_le_maxDegree)
    omega

/-- The constraints of a circuit without a declared degree need no larger degree than that of the
circuit. The polynomial of an expression has no larger degree in its queries than the expression. -/
theorem degrees_le :
    (∀ (c : Circuit) (parts : Parts), c.declaredDegree = none → circuit c = .ok parts →
      ∃ d : Nat, c.degree = d ∧
        parts.IsWithin ((VariableSpace.ofCircuit c).offset .challenge) d) ∧
      ∀ (V : VariableSpace) (e : Expr) (p : Poly), expr V e = .ok p →
        p.degreeBelow (V.offset .challenge) ≤ e.degree :=
  ⟨fun c _ hnone h => ⟨c.computedDegree, Circuit.degree_eq_computedDegree hnone,
    isWithin_of_circuit h⟩, fun _ _ _ h => degreeBelow_expr_le h⟩

/-- The square of a column. -/
def square : Expr := .product (.query default) (.query default)

/-- A column and a challenge: the gate has the square of the column, which vanishes, and the lookup
compares the column, moved by the challenge, with its cube. -/
def graded : Circuit where
  fixedCount := 0
  instCount := 0
  advicePhases := [0]
  challengePhases := [0]
  adviceQueries := [default]
  gates := [⟨.null, [.sum square (.neg square)]⟩]
  lookups :=
    [⟨.null, [.sum (.query default) (.leaf (.challenge 0 0))], [.product (.query default) square]⟩]

theorem degrees_le_graded :
    (∃ parts, circuit graded = .ok parts ∧ graded.degree = 6 ∧ parts.IsWithin 1 6) ∧
      ∃ p, expr (.ofCircuit graded) (.product (.leaf (.challenge 0 0)) square) = .ok p ∧
        p.degreeBelow 1 ≤ 2 := by
  obtain ⟨hcircuit, hexpr⟩ := degrees_le
  obtain ⟨parts, hparts⟩ : ∃ parts, circuit graded = .ok parts :=
    exists_of_isSome_toOption (by decide +kernel)
  obtain ⟨d, hd, hwithin⟩ := hcircuit graded parts rfl hparts
  have hdegree : graded.degree = 6 := by decide +kernel
  obtain rfl : d = 6 := Int.ofNat_inj.1 (hd.symm.trans hdegree)
  obtain ⟨p, hp⟩ : ∃ p, expr (.ofCircuit graded) (.product (.leaf (.challenge 0 0)) square) =
      .ok p := exists_of_isSome_toOption (by decide +kernel)
  have htwo : Expr.degree (.product (.leaf (.challenge 0 0)) square) ≤ 2 := by decide +kernel
  exact ⟨⟨parts, hparts, hdegree, hwithin⟩, p, hp, (hexpr _ _ p hp).trans htwo⟩

end Expansion

end Plonkish
