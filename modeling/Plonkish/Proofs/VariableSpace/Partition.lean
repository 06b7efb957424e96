import Mathlib.Order.Bounds.Basic
import Plonkish.Proofs.VariableSpace.Indexed

/-!
# Positions of variables

The classes share the positions of the whole space out among themselves, in their order and without
gaps. A class without variables has no positions, although it starts where the next one does.

* `VariableSpace.Covers`: a position in the whole space belongs to a class.
* `VariableSpace.resolve_eq_ok_iff`: resolving finds the class that a position belongs to.
* `VariableSpace.Partitioned`: where variables are, in their class and in the whole space.
* `VariableSpace.partitioned`: every space is so.
-/

namespace Plonkish.VariableSpace

variable {V : VariableSpace} {cls : VariableClass} {i j : Int}

/-! ## Classes of positions -/

/-- A position in the whole space belongs to a class. -/
def Covers (V : VariableSpace) (cls : VariableClass) (j : Int) : Prop :=
  V.offset cls ≤ j ∧ j < V.offset cls + V.size cls

/-- Each class ends where the later ones start, or in front of that. -/
theorem pairwise_offset (V : VariableSpace) :
    VariableClass.all.Pairwise fun a b => V.offset a + V.size a ≤ V.offset b := by
  simp only [VariableClass.all, List.pairwise_cons, List.forall_mem_cons, List.not_mem_nil,
    IsEmpty.forall_iff, implies_true, List.Pairwise.nil, and_true, offset, size]
  omega

/-- Every position belongs to some class. -/
theorem exists_covers (hnonneg : 0 ≤ j) (hlt : j < V.width) : ∃ cls, V.Covers cls j := by
  by_cases hfixed : j < V.offset .fixed
  · exact ⟨.advice, hnonneg, by simpa [offset, size] using hfixed⟩
  by_cases hinst : j < V.offset .inst
  · exact ⟨.fixed, Int.not_lt.1 hfixed, hinst⟩
  by_cases hchallenge : j < V.offset .challenge
  · exact ⟨.inst, Int.not_lt.1 hinst, hchallenge⟩
  · exact ⟨.challenge, Int.not_lt.1 hchallenge, hlt⟩

/-- From the last class on, the first one that starts no later than a position and has variables is
the one that the position belongs to: those behind it start later. -/
theorem find?_of_covers (h : V.Covers cls j) :
    (VariableClass.all.reverse.find? fun cls => V.offset cls ≤ j ∧ 0 < V.size cls) = some cls := by
  have hmem : cls ∈ VariableClass.all := by cases cls <;> decide
  obtain ⟨front, rest, hsplit⟩ := List.append_of_mem hmem
  have hpairwise := V.pairwise_offset
  rw [hsplit, List.pairwise_append, List.pairwise_cons] at hpairwise
  obtain ⟨-, ⟨hlater, -⟩, -⟩ := hpairwise
  rw [hsplit, List.find?_eq_some_iff_append]
  refine ⟨?_, rest.reverse, front.reverse, by simp, fun a ha => ?_⟩
  · obtain ⟨hstart, hend⟩ := h
    have hpos : 0 < V.size cls := by omega
    simp [hstart, hpos]
  · have hstart : j < V.offset a := Int.lt_of_lt_of_le h.2 (hlater a (List.mem_reverse.1 ha))
    simp [Int.not_le.2 hstart]

/-! ## Numbering and resolving -/

/-- Resolving finds the class that a position belongs to, and the position there. -/
theorem resolve_eq_ok_iff (h : 0 ≤ V.challenges) :
    V.resolve j = .ok (cls, i) ↔ (0 ≤ i ∧ i < V.size cls) ∧ V.offset cls + i = j := by
  constructor
  · intro hresolve
    unfold resolve at hresolve
    split at hresolve
    · next hrange =>
      obtain ⟨cls', hcovers⟩ := exists_covers hrange.1 hrange.2
      rw [find?_of_covers hcovers] at hresolve
      cases hresolve
      obtain ⟨hstart, hend⟩ := hcovers
      omega
    · cases hresolve
  · rintro ⟨⟨hnonneg, hlt⟩, rfl⟩
    have hcovers : V.Covers cls (V.offset cls + i) := ⟨by omega, by omega⟩
    have hrange : 0 ≤ V.offset cls + i ∧ V.offset cls + i < V.width := by
      have hoffset := V.offset_nonneg cls
      have hwidth := offset_add_size_le_width h cls
      omega
    have hback : V.offset cls + i - V.offset cls = i := by omega
    simp only [resolve, if_pos hrange, find?_of_covers hcovers, hback]

theorem exists_globalIndex_iff : (∃ i, V.globalIndex cls i = .ok j) ↔ V.Covers cls j := by
  simp only [globalIndex_eq_ok_iff, Covers]
  constructor
  · rintro ⟨i, ⟨hnonneg, hlt⟩, rfl⟩
    omega
  · rintro ⟨hstart, hend⟩
    exact ⟨j - V.offset cls, by omega⟩

/-! ## Queries -/

/-- An item is found at its least position. -/
theorem idxOf?_eq_some_iff_isLeast {α : Type} [DecidableEq α] {xs : List α} {x : α} {i : Nat} :
    xs.idxOf? x = some i ↔ IsLeast {i : Nat | xs[i]? = some x} i := by
  rw [List.idxOf?_eq_some_iff]
  constructor
  · rintro ⟨hlt, hget, hfirst⟩
    refine ⟨List.getElem?_eq_some_iff.2 ⟨hlt, hget⟩, fun j hj => ?_⟩
    obtain ⟨_, hsame⟩ := List.getElem?_eq_some_iff.1 hj
    exact Nat.le_of_not_lt fun hji => hfirst j hji hsame
  · rintro ⟨hi, hleast⟩
    obtain ⟨hlt, hget⟩ := List.getElem?_eq_some_iff.1 hi
    refine ⟨hlt, hget, fun j hj hsame => ?_⟩
    exact absurd (hleast (List.getElem?_eq_some_iff.2 ⟨hj.trans hlt, hsame⟩)) (Nat.not_le.2 hj)

/-! ## The whole space -/

/-- Every variable has one position in its class and one in the whole space, and every query is
found at its first position. -/
structure Partitioned (V : VariableSpace) : Prop where
  /-- Numbering and resolving undo each other. -/
  resolve_iff : ∀ cls i j, V.resolve j = .ok (cls, i) ↔ V.globalIndex cls i = .ok j
  /-- The positions of a class are those below its size. -/
  inside_class : ∀ cls i, (∃ j, V.globalIndex cls i = .ok j) ↔ 0 ≤ i ∧ i < V.size cls
  outside_class : ∀ cls i, ¬(0 ≤ i ∧ i < V.size cls) →
    V.globalIndex cls i = .error (.outsideClass cls i (V.size cls))
  /-- The positions of the space are those below its width. -/
  inside_space : ∀ j, (∃ cls i, V.resolve j = .ok (cls, i)) ↔ 0 ≤ j ∧ j < V.width
  outside_space : ∀ j, ¬(0 ≤ j ∧ j < V.width) → V.resolve j = .error (.outsideSpace j V.width)
  /-- The classes share the positions of the space out in order. -/
  advice_iff : ∀ j, (∃ i, V.globalIndex .advice i = .ok j) ↔ 0 ≤ j ∧ j < V.advice.length
  fixed_iff : ∀ j, (∃ i, V.globalIndex .fixed i = .ok j) ↔
    V.advice.length ≤ j ∧ j < V.advice.length + V.fixed.length
  inst_iff : ∀ j, (∃ i, V.globalIndex .inst i = .ok j) ↔
    V.advice.length + V.fixed.length ≤ j ∧ j < V.advice.length + V.fixed.length + V.inst.length
  challenge_iff : ∀ j, (∃ i, V.globalIndex .challenge i = .ok j) ↔
    V.advice.length + V.fixed.length + V.inst.length ≤ j ∧ j < V.width
  width_eq : V.width = V.advice.length + V.fixed.length + V.inst.length + V.challenges
  /-- A query is found at its least position, with and without an index. -/
  indexOf_iff : ∀ cls column rotation i, cls ≠ .challenge →
    (V.indexOf cls column rotation = .ok i ↔
      IsLeast {i : Nat | (V.queries cls)[i]? = some ⟨column, rotation⟩} i)
  indexed : ∀ cls column rotation,
    (IndexedSpace.ofSpace V).indexOf cls column rotation = V.indexOf cls column rotation
  /-- A query is found exactly if it occurs. -/
  found_iff : ∀ cls column rotation, cls ≠ .challenge →
    ((∃ i, V.indexOf cls column rotation = .ok i) ↔ ⟨column, rotation⟩ ∈ V.queries cls)
  not_found : ∀ cls column rotation, cls ≠ .challenge → ⟨column, rotation⟩ ∉ V.queries cls →
    V.indexOf cls column rotation =
      .error (.unregisteredQuery cls (column.map .int) (rotation.map .int))
  query?_eq : ∀ cls column rotation i, V.indexOf cls column rotation = .ok i →
    V.query? cls i = some ⟨column, rotation⟩

/-- Every space with no negative number of challenges is so, whatever queries it has and how often
they occur. -/
theorem partitioned (V : VariableSpace) (h : 0 ≤ V.challenges) : V.Partitioned where
  resolve_iff cls i j := (resolve_eq_ok_iff h).trans globalIndex_eq_ok_iff.symm
  inside_class cls i := by simp [globalIndex_eq_ok_iff]
  outside_class cls i hi := if_neg hi
  inside_space j := by
    refine ⟨fun ⟨cls, i, hi⟩ => ?_, fun ⟨hnonneg, hlt⟩ => ?_⟩
    · by_contra hj
      rw [resolve, if_neg hj] at hi
      cases hi
    · obtain ⟨cls, hcovers⟩ := exists_covers hnonneg hlt
      obtain ⟨i, hi⟩ := exists_globalIndex_iff.2 hcovers
      exact ⟨cls, i, (resolve_eq_ok_iff h).2 (globalIndex_eq_ok_iff.1 hi)⟩
  outside_space j hj := if_neg hj
  advice_iff j := exists_globalIndex_iff.trans (by simp [Covers, offset, size, queries])
  fixed_iff j := exists_globalIndex_iff
  inst_iff j := exists_globalIndex_iff
  challenge_iff j := exists_globalIndex_iff
  width_eq := rfl
  indexOf_iff cls column rotation i hcls := by
    rw [indexOf_eq_ok_iff, and_iff_right hcls, idxOf?_eq_some_iff_isLeast]
  indexed := IndexedSpace.indexOf_ofSpace V
  found_iff cls column rotation := exists_indexOf_iff
  not_found cls column rotation := indexOf_of_not_mem
  query?_eq cls column rotation i := query?_of_indexOf

/-- A space with fixed queries, one of which occurs twice, and challenges. -/
def repeated : VariableSpace :=
  let q (offset : Int) : Query := ⟨⟨.fixed, 0, 0⟩, .ofInt offset⟩
  { fixed := [q 1, q 0, q 1], challenges := 2 }

/-- The classes without variables start where others do, but have no positions. -/
theorem partitioned_repeated :
    0 ≤ repeated.challenges ∧
      repeated.resolve 0 = .ok (.fixed, 0) ∧
      repeated.resolve 2 = .ok (.fixed, 2) ∧
      repeated.resolve 3 = .ok (.challenge, 0) ∧
      repeated.resolve 5 = .error (.outsideSpace 5 5) ∧
      IsLeast {i : Nat | repeated.fixed[i]? = some ⟨⟨.fixed, 0, 0⟩, .ofInt 1⟩} 0 := by
  have hnonneg : 0 ≤ repeated.challenges := by decide
  have h := partitioned repeated hnonneg
  exact ⟨hnonneg, (h.resolve_iff _ _ _).2 rfl, (h.resolve_iff _ _ _).2 rfl,
    (h.resolve_iff _ _ _).2 rfl, h.outside_space 5 (by decide),
    (h.indexOf_iff .fixed _ _ 0 (by decide)).1 rfl⟩

end Plonkish.VariableSpace
