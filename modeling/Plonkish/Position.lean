/-!
# Signed positions

A list is indexed from its start by positions from zero on, and from its end by negative ones.

* `idxOf?_of_prefix`: where an item is found first does not depend on what follows.
* `sliceAt_natCast`: between positions from zero on a slice is what lies between them.
-/

namespace Plonkish

/-- The item at a signed position. Negative positions count from the end. -/
def itemAt? {α : Type} (items : List α) (i : Int) : Option α :=
  if 0 ≤ i then items[i.toNat]?
  else if (-i).toNat ≤ items.length then items[items.length - (-i).toNat]?
  else none

/-- Where an item is found first does not depend on what follows. -/
theorem idxOf?_of_prefix {α : Type} [BEq α] {xs ys : List α} {x : α} {i : Nat} (h : xs <+: ys)
    (hi : xs.idxOf? x = some i) : ys.idxOf? x = some i := by
  obtain ⟨more, rfl⟩ := h
  rw [List.idxOf?] at hi ⊢
  rw [List.findIdx?_append, hi, Option.some_or]

/-- A new item is found behind the others. -/
theorem idxOf?_concat {α : Type} [BEq α] [LawfulBEq α] {xs : List α} {x : α} (h : x ∉ xs) :
    (xs ++ [x]).idxOf? x = some xs.length := by
  refine List.idxOf?_eq_some_iff.2 ⟨by simp, by simp, fun j hj hsame => h ?_⟩
  rw [List.getElem_append_left hj] at hsame
  exact hsame ▸ List.getElem_mem hj

/-- The number of items in front of a signed position. Positions beyond an end count as that
end. -/
def itemsBefore (length : Nat) (i : Int) : Nat :=
  if 0 ≤ i then min i.toNat length else (i + length).toNat

/-- The items from one signed position up to another. -/
def sliceAt {α : Type} (items : List α) (i j : Int) : List α :=
  (items.take (itemsBefore items.length j)).drop (itemsBefore items.length i)

theorem sliceAt_natCast {α : Type} (items : List α) (i j : Nat) :
    sliceAt items i j = (items.take j).drop i := by
  have hi : (0 : Int) ≤ i := Int.natCast_nonneg i
  have hj : (0 : Int) ≤ j := Int.natCast_nonneg j
  simp only [sliceAt, itemsBefore, hi, hj, if_true, Int.toNat_natCast]
  apply List.ext_getElem?
  intro n
  simp only [List.getElem?_drop, List.getElem?_take]
  by_cases h : items.length ≤ min i items.length + n
  · by_cases h' : items.length ≤ i + n
    · simp [List.getElem?_eq_none h', List.getElem?_eq_none h]
    · omega
  · have : min i items.length = i := by omega
    rw [this]
    grind

end Plonkish
