import Mathlib.Data.List.Basic
import Std.Data.String.ToInt

/-!
# Lists of numbers and of codes

A bound on the largest of some numbers is a bound on each. What ends with a delimiter that it does
not hold can be told apart from what follows. So can numbers in front of anything that is not part
of one, and codes one behind the other.

* `foldl_max_le_iff`: a bound on the largest number is a bound on each.
* `foldl_max_eq`: numbers that are the same apart from zeros have the same largest one.
* `eq_of_append_cons`: texts in front of a delimiter.
* `eq_of_number_append`: numbers.
* `flatMap_injective`: concatenations of codes.
-/

namespace Plonkish

/-! ## The largest of some numbers -/

section Maximum

variable {xs ys : List Nat} {x y d : Nat}

/-- The largest of some numbers is at most a bound exactly if each of them is. -/
theorem foldl_max_le_iff : xs.foldl max x ≤ d ↔ x ≤ d ∧ ∀ y ∈ xs, y ≤ d := by
  induction xs generalizing x with
  | nil => simp
  | cons y xs ih => rw [List.foldl_cons, ih, Nat.max_le, List.forall_mem_cons, and_assoc]

theorem le_foldl_max (h : y ∈ xs) : y ≤ xs.foldl max x :=
  (foldl_max_le_iff.1 (Nat.le_refl _)).2 y h

theorem foldl_max_le_of_subset (h : ∀ x ∈ xs, x = 0 ∨ x ∈ ys) :
    xs.foldl max 0 ≤ ys.foldl max 0 := by
  refine foldl_max_le_iff.2 ⟨Nat.zero_le _, fun x hx => ?_⟩
  rcases h x hx with rfl | hx
  · exact Nat.zero_le _
  · exact le_foldl_max hx

/-- Numbers that are the same apart from zeros have the same largest one. -/
theorem foldl_max_eq (h : ∀ x ∈ xs, x = 0 ∨ x ∈ ys) (h' : ∀ y ∈ ys, y = 0 ∨ y ∈ xs) :
    xs.foldl max 0 = ys.foldl max 0 :=
  Nat.le_antisymm (foldl_max_le_of_subset h) (foldl_max_le_of_subset h')

end Maximum

/-! ## Lists that are told apart -/

/-- What stands in front of the first delimiter, and what stands behind it, are determined. -/
theorem eq_of_append_cons {α : Type} [DecidableEq α] {c : α} {a b s t : List α} (ha : c ∉ a)
    (hb : c ∉ b) (h : a ++ c :: s = b ++ c :: t) : a = b ∧ s = t := by
  have hlength : a.length = b.length := by
    have hindex := congrArg (List.idxOf c) h
    rwa [List.idxOf_append_of_notMem ha, List.idxOf_append_of_notMem hb, List.idxOf_cons_self,
      List.idxOf_cons_self] at hindex
  obtain ⟨hfront, hback⟩ := List.append_inj h hlength
  exact ⟨hfront, (List.cons.inj hback).2⟩

/-- If codes that are not empty can be told apart whatever follows them, so can their
concatenations. -/
theorem flatMap_injective {α β : Type} {f : α → List β} (hne : ∀ x, f x ≠ [])
    (hf : ∀ x y s t, f x ++ s = f y ++ t → x = y ∧ s = t) :
    Function.Injective fun xs : List α => xs.flatMap f := by
  intro xs
  induction xs with
  | nil =>
    intro ys h
    cases ys with
    | nil => rfl
    | cons y ys =>
      have happend : f y ++ ys.flatMap f = [] := h.symm
      exact absurd (List.append_eq_nil_iff.1 happend).1 (hne y)
  | cons x xs ih =>
    intro ys h
    cases ys with
    | nil =>
      have happend : f x ++ xs.flatMap f = [] := h
      exact absurd (List.append_eq_nil_iff.1 happend).1 (hne x)
    | cons y ys =>
      obtain ⟨rfl, hrest⟩ := hf x y _ _ h
      rw [ih hrest]

/-- The characters of a number are digits, and a minus sign in front of them. -/
theorem mem_toString_int {i : Int} {c : Char} (h : c ∈ (toString i).toList) :
    c.isDigit = true ∨ c = '-' := by
  rw [Int.toString_eq_repr, Int.repr_eq_if] at h
  split at h
  · rw [Nat.toList_repr] at h
    exact .inl (Nat.isDigit_of_mem_toDigits (by decide) (by decide) h)
  · rw [String.toList_append, List.mem_append, Nat.toList_repr] at h
    rcases h with h | h
    · exact .inr (by simpa using h)
    · exact .inl (Nat.isDigit_of_mem_toDigits (by decide) (by decide) h)

/-- A number is told apart from what follows it, if that begins with no character of a number. -/
theorem eq_of_number_append {i j : Int} {c : Char} {s t : List Char} (hdigit : c.isDigit = false)
    (hminus : c ≠ '-') (h : (toString i).toList ++ c :: s = (toString j).toList ++ c :: t) :
    i = j ∧ s = t := by
  have hnot (n : Int) : c ∉ (toString n).toList := by
    intro hmem
    rcases mem_toString_int hmem with hc | hc
    · rw [hdigit] at hc
      cases hc
    · exact hminus hc
  obtain ⟨hindex, hrest⟩ := eq_of_append_cons (hnot i) (hnot j) h
  rw [Int.toString_eq_repr, Int.toString_eq_repr] at hindex
  exact ⟨Int.repr_inj.1 (String.toList_inj.1 hindex), hrest⟩

end Plonkish
