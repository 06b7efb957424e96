import Plonkish.Proofs.Expansion
import Plonkish.Proofs.Lowering.Failure
import Plonkish.Proofs.Lowering.Meaning

/-!
# Agreement of lowering and expansion

A raw expression has two laid-out forms: an expression over numbered variables and constants, and a
polynomial over the whole space of variables. Where there is one there is the other, and they have
the same value at every point.

* `VariableSpace.coordinate?`: how the variables of an expression are read off a point.
* `Lowering.agrees_with_expansion`: the agreement.
* `Lowering.not_agrees_with_expansion`: it needs a number of challenges that is not negative.
-/

namespace Plonkish

open Outcome

namespace VariableSpace

variable {V : VariableSpace} {point : List Scalar}

/-- The coordinate of a variable at a point: the one at its position in the whole space. -/
def coordinate? (V : VariableSpace) (point : List Scalar) (cls : VariableClass) (i : Int) :
    Option Scalar := do
  let j ← (V.globalIndex cls i).toOption
  itemAt? point j

/-- The coordinates of a point, zero behind its end. -/
def coordinates (point : List Scalar) (i : Nat) : Scalar := point[i]?.getD 0

theorem coordinate?_eq_some {cls : VariableClass} {i : Int} (h0 : 0 ≤ i) (hi : i < V.size cls)
    (hlt : V.number cls i < point.length) :
    V.coordinate? point cls i = some (coordinates point (V.number cls i)) := by
  have hglobal : V.globalIndex cls i = .ok (V.offset cls + i) := if_pos ⟨h0, hi⟩
  have hoffset := offset_nonneg V cls
  rw [coordinate?, hglobal]
  show itemAt? point (V.offset cls + i) = _
  rw [itemAt?, if_pos (by omega), ← number_int, coordinates, List.getElem?_eq_getElem hlt]
  rfl

/-- The variable of a leaf that is expanded is read off the point. -/
theorem reads_coordinate? {l : Leaf} {p : Poly} (h : Expansion.leaf V l = .ok p)
    (hsize : V.width ≤ point.length) :
    V.Reads (V.coordinate? point) (V.assignment (coordinates point)) l := by
  rcases Expansion.leaf_eq_ok h with ⟨v, rfl, -⟩ | ⟨q, i, rfl, hi, -, hlt⟩ |
    ⟨i, phase, rfl, hi, -, hlt⟩
  · trivial
  · intro j hj
    rw [hi] at hj
    cases hj
    rw [assignment_query hi]
    exact coordinate?_eq_some (Int.natCast_nonneg i) (lt_size_of_indexOf hi) (by omega)
  · intro _
    obtain ⟨-, h0, hi⟩ := challengeIndex_eq_ok_iff.1 hi
    exact coordinate?_eq_some h0 hi (by omega)

end VariableSpace

/-- A polynomial in all variables of the space and in normal form that has the value of a lowered
expression at every point. -/
structure Poly.Matches (p : Poly) (V : VariableSpace) (t : ConstantTable) (ir : Ir) : Prop where
  numVars : p.numVars = V.width
  normalized : isNormalized p.terms = true
  eval : ∀ point : List Scalar, V.width ≤ point.length →
    ∃ y, p.eval point = .ok y ∧ ir.value? t.value? (V.coordinate? point) = some y

namespace Lowering

open VariableSpace

variable {V : VariableSpace} {t t' : ConstantTable} {e : Expr} {ir : Ir} {p : Poly}

/-- If an expression is expanded, all that it names can be looked up. -/
theorem forM_checkLeaf_of_expansion (hp : Expansion.expr V e = .ok p) :
    forM e.leaves V.checkLeaf = .ok () := by
  refine forM_eq_ok_iff.2 fun l hl => ?_
  obtain ⟨q, hq⟩ := Expansion.exists_leaf_eq_ok hp hl
  rcases Expansion.leaf_eq_ok hq with ⟨v, rfl, -⟩ | ⟨q, i, rfl, hi, -⟩ | ⟨i, phase, rfl, hi, -⟩
  · rfl
  · rw [checkLeaf, hi]
    rfl
  · rw [checkLeaf, hi]
    rfl

/-- Where an expression is lowered and expanded, both results have the same value at every
point. -/
theorem matches_of_eq_ok (hir : (expr V e).runAt t = (.ok ir, t'))
    (hp : Expansion.expr V e = .ok p) : p.Matches V t' ir := by
  obtain ⟨hwf, hvars⟩ := Expansion.wellFormed_expr hp
  refine ⟨hvars, Poly.isNormalized_iff.2 hwf.normal, fun point hsize => ?_⟩
  refine ⟨p.value (coordinates point), Poly.eval_eq_getD hwf (by omega), ?_⟩
  rw [Expansion.value_expr hp]
  refine value?_of_reads (fun l hl => ?_) hir (ConstantTable.Reaches.refl t')
  obtain ⟨q, hq⟩ := Expansion.exists_leaf_eq_ok hp hl
  exact reads_coordinate? hq hsize

/-- On a table that takes new constants, an expression is expanded only if it is lowered, and then
to a polynomial that matches. If the number of challenges is not negative, it is expanded if it is
lowered, and otherwise both fail with the same error. -/
theorem agrees_with_expansion (ht : t.frozen = false) (e : Expr) :
    match (expr V e).runAt t with
    | (.ok ir, t') =>
      (∀ p, Expansion.expr V e = .ok p → p.Matches V t' ir) ∧
        (0 ≤ V.challenges → ∃ p, Expansion.expr V e = .ok p)
    | (.error err, _) =>
      (∀ p, Expansion.expr V e ≠ .ok p) ∧
        (0 ≤ V.challenges → Expansion.expr V e = .error (.schema err)) := by
  have hlower := (expr_checks V e t ht).1
  have hexpand : 0 ≤ V.challenges →
      verdict (Expansion.expr V e) = (verdict ((expr V e).runAt t).1).mapError .schema := by
    intro hchallenges
    rw [Expansion.verdict_expr hchallenges, hlower]
  split
  · next ir t' hir =>
    refine ⟨fun p hp => matches_of_eq_ok hir hp, fun hchallenges => ?_⟩
    have hverdict := hexpand hchallenges
    rw [hir] at hverdict
    exact verdict_eq_ok_iff.1 hverdict
  · next err t' hir =>
    rw [hir] at hlower hexpand
    refine ⟨fun p hp => ?_, fun hchallenges => verdict_eq_error_iff.1 (hexpand hchallenges)⟩
    rw [forM_checkLeaf_of_expansion hp] at hlower
    cases hlower

theorem agrees_with_expansion_doubled :
    ∃ p, Expansion.expr oneQuery (.product (.constant 2) (.query default)) = .ok p ∧
      p.Matches oneQuery ⟨[Scalar.toBytes 2], false⟩ (.scaled (.var .advice 0) 0) := by
  have h := agrees_with_expansion (V := oneQuery) (t := {}) rfl
    (.product (.constant 2) (.query default))
  rw [runAt_expr_oneQuery] at h
  obtain ⟨hmatches, hexists⟩ := h
  obtain ⟨p, hp⟩ := hexists (by decide)
  exact ⟨p, hp, hmatches p hp⟩

/-- A space without queries whose number of challenges is negative. -/
def fewerThanNone : VariableSpace := { challenges := -1 }

/-- With a negative number of challenges even a literal, which is lowered, is not expanded: its
monomial is not among fewer than zero variables. -/
theorem not_agrees_with_expansion :
    ¬((∃ p, Expansion.expr fewerThanNone (.constant 5) = .ok p) ↔
      ∃ ir t', (expr fewerThanNone (.constant 5)).runAt {} = (.ok ir, t')) := by
  intro h
  have hir : (expr fewerThanNone (.constant 5)).runAt {} =
      (.ok (.const 0), ⟨[Scalar.toBytes 5], false⟩) := by
    rw [expr_eq_fold]
    rfl
  obtain ⟨p, hp⟩ := h.2 ⟨_, _, hir⟩
  rw [Expansion.expr_eq_fold] at hp
  have hfive : (5 : Scalar) ≠ 0 := by decide
  have hamong := (Poly.ofTerms_eq_ok (mapError_eq_ok_iff.1 hp)).2
  rw [Poly.normalize_singleton, if_neg hfive] at hamong
  exact absurd (hamong _ List.mem_cons_self) (by decide)

end Lowering

end Plonkish
