import Mathlib.Data.List.Basic
import Plonkish.Expr
import Plonkish.Proofs.Outcome
import Plonkish.VariableSpace

/-!
# Looking variables up

* `VariableSpace.indexOf_eq_ok_iff`, `VariableSpace.challengeIndex_eq_ok_iff`: what is found, and
  where.
* `VariableSpace.checkLeaf`, `VariableSpace.Finds`: whether a leaf names something that can be
  found.
* `VariableSpace.Extends`: what is found stays where it is in a larger space.
* `VariableSpace.Reads`: a variable is read as an assignment has it.
-/

namespace Plonkish.VariableSpace

open Outcome

variable {V : VariableSpace} {cls : VariableClass} {column : Column} {rotation : Rotation}

theorem indexOf_eq_ok_iff {i : Nat} :
    V.indexOf cls column rotation = .ok i ↔
      cls ≠ .challenge ∧ (V.queries cls).idxOf? ⟨column, rotation⟩ = some i := by
  unfold indexOf
  simp only [Query.isAtom_int, Query.position?_int, Bool.not_true, Bool.false_eq_true, if_false]
  split
  · next h => simp [h]
  · next h =>
    split
    · next j hj => simp [h, hj]
    · next hnone => simp [hnone]

/-- A query is found exactly if it occurs. -/
theorem exists_indexOf_iff (hcls : cls ≠ .challenge) :
    (∃ i, V.indexOf cls column rotation = .ok i) ↔ ⟨column, rotation⟩ ∈ V.queries cls := by
  simp only [indexOf_eq_ok_iff, and_iff_right hcls]
  rw [← Option.isSome_iff_exists, List.isSome_idxOf?]

theorem indexOf_of_not_mem (hcls : cls ≠ .challenge) (h : ⟨column, rotation⟩ ∉ V.queries cls) :
    V.indexOf cls column rotation =
      .error (.unregisteredQuery cls (column.map .int) (rotation.map .int)) := by
  have hnone : (V.queries cls).idxOf? ⟨column, rotation⟩ = none := List.idxOf?_eq_none_iff.2 h
  simp only [indexOf, if_neg hcls, Query.isAtom_int, Query.position?_int, hnone]
  rfl

theorem challengeIndex_eq_ok_iff {i j : Int} :
    V.challengeIndex i = .ok j ↔ i = j ∧ 0 ≤ i ∧ i < V.challenges := by
  unfold challengeIndex
  simp only [Quantity.below?_int, size]
  by_cases h : 0 ≤ i ∧ i < V.challenges <;> simp [h]

theorem challengeIndex_of_not_lt {i : Int} (h : ¬(0 ≤ i ∧ i < V.challenges)) :
    V.challengeIndex i = .error (.unregisteredChallenge (.int i)) := by
  simp [challengeIndex, size, h]

/-- A query is at the position where it is found. -/
theorem query?_of_indexOf {i : Nat} (h : V.indexOf cls column rotation = .ok i) :
    V.query? cls i = some ⟨column, rotation⟩ := by
  obtain ⟨-, hi⟩ := indexOf_eq_ok_iff.1 h
  obtain ⟨hlt, hget, -⟩ := List.idxOf?_eq_some_iff.1 hi
  simp [query?, itemAt?, hlt, hget]

/-- With no negative number of challenges, the variables of each class are among all. -/
theorem offset_add_size_le_width (h : 0 ≤ V.challenges) (cls : VariableClass) :
    V.offset cls + V.size cls ≤ V.width := by
  cases cls <;> simp only [offset, width, size] <;> omega

/-! ## Leaves -/

/-- The class of the variable of a query. -/
def queryClass (q : Query) : VariableClass := .ofKind q.column.kind

/-- Fails unless a leaf names something that can be found. -/
def checkLeaf (V : VariableSpace) : Leaf → Except SchemaError Unit
  | .constant _ => .ok ()
  | .query q => (V.indexOf (queryClass q) q.column q.rotation).map fun _ => ()
  | .challenge i _ => (V.challengeIndex i).map fun _ => ()
  | .selector i => .error (.selector (.int i))

/-- A leaf names a query or a challenge of the space, or it is a literal. -/
def Finds (V : VariableSpace) : Leaf → Prop
  | .constant _ => True
  | .query q => q ∈ V.queries (queryClass q)
  | .challenge i _ => 0 ≤ i ∧ i < V.challenges
  | .selector _ => False

instance : DecidablePred V.Finds
  | .constant _ => .isTrue trivial
  | .query q => inferInstanceAs (Decidable (q ∈ V.queries (queryClass q)))
  | .challenge i _ => inferInstanceAs (Decidable (0 ≤ i ∧ i < V.challenges))
  | .selector _ => .isFalse id

theorem queryClass_ne_challenge (q : Query) : queryClass q ≠ .challenge := by
  rw [queryClass]
  cases q.column.kind <;> nofun

theorem exists_challengeIndex_iff {i : Int} :
    (∃ j, V.challengeIndex i = .ok j) ↔ 0 ≤ i ∧ i < V.challenges := by
  simp only [challengeIndex_eq_ok_iff, exists_eq_left']

/-- A leaf can be looked up exactly if what it names is there. -/
theorem checkLeaf_eq_ok_iff {l : Leaf} : V.checkLeaf l = .ok () ↔ V.Finds l := by
  cases l with
  | constant v => exact iff_of_true rfl trivial
  | query q => exact verdict_eq_ok_iff.trans (exists_indexOf_iff (queryClass_ne_challenge q))
  | challenge i phase => exact verdict_eq_ok_iff.trans exists_challengeIndex_iff
  | selector i => exact iff_of_false nofun id

/-! ## Larger spaces -/

/-- What one space has, another has in the same places. -/
structure Extends (V' V : VariableSpace) : Prop where
  queries : ∀ cls, V.queries cls <+: V'.queries cls
  challenges : V.challenges ≤ V'.challenges

theorem Extends.indexOf_eq {V' : VariableSpace} (h : V'.Extends V) {i : Nat}
    (hi : V.indexOf cls column rotation = .ok i) : V'.indexOf cls column rotation = .ok i := by
  obtain ⟨hcls, hi⟩ := indexOf_eq_ok_iff.1 hi
  exact indexOf_eq_ok_iff.2 ⟨hcls, idxOf?_of_prefix (h.queries cls) hi⟩

theorem Extends.challengeIndex_eq {V' : VariableSpace} (h : V'.Extends V) {i j : Int}
    (hi : V.challengeIndex i = .ok j) : V'.challengeIndex i = .ok j := by
  obtain ⟨rfl, hnonneg, hlt⟩ := challengeIndex_eq_ok_iff.1 hi
  exact challengeIndex_eq_ok_iff.2 ⟨rfl, hnonneg, Int.lt_of_lt_of_le hlt h.challenges⟩

theorem Extends.finds {V' : VariableSpace} (h : V'.Extends V) {l : Leaf} (hl : V.Finds l) :
    V'.Finds l := by
  cases l with
  | constant v => trivial
  | query q => exact (h.queries _).subset hl
  | challenge i phase => exact ⟨hl.1, Int.lt_of_lt_of_le hl.2 h.challenges⟩
  | selector i => exact hl

/-! ## Values of variables -/

/-- The variable of a leaf is read as an assignment has it, if it is found. -/
def Reads (V : VariableSpace) (var : VariableClass → Int → Option Scalar) (a : Assignment) :
    Leaf → Prop
  | .query q => ∀ i : Nat, V.indexOf (queryClass q) q.column q.rotation = .ok i →
    var (queryClass q) i = some (a.query q)
  | .challenge i _ => V.challengeIndex i = .ok i → var .challenge i = some (a.challenge i)
  | _ => True

/-- The value of a variable: that of the query at its position, or that of a challenge. -/
def value? (V : VariableSpace) (a : Assignment) : VariableClass → Int → Option Scalar
  | .challenge, i => some (a.challenge i)
  | cls, i => (V.query? cls i).map a.query

theorem reads_value? (V : VariableSpace) (a : Assignment) (l : Leaf) : V.Reads (V.value? a) a l := by
  cases l with
  | constant v => trivial
  | selector i => trivial
  | challenge i phase => exact fun _ => rfl
  | query q =>
    intro i h
    have hquery := query?_of_indexOf h
    cases hcls : queryClass q with
    | challenge => exact absurd hcls (indexOf_eq_ok_iff.1 h).1
    | _ =>
      rw [hcls] at hquery
      simp only [value?, hquery, Option.map_some]

end Plonkish.VariableSpace
