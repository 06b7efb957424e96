import Plonkish.ConstantTable.Indexed
import Plonkish.Proofs.ConstantTable.Operations

/-!
# Indexed tables of constants

The index of a table and its entries say the same, however the table is used, and the answers are
those of a table without an index.

* `IndexedTable.Represents`: an indexed table stands for a table without an index.
* `IndexedTable.represents_perform`: one operation; `IndexedTable.represents_after`: a run.
* `IndexedTable.lawful_run`: what is so after every run of operations.
-/

namespace Plonkish.IndexedTable

open Operation

variable {s : IndexedTable} {t : ConstantTable} {v : Scalar}

/-- Performs an operation. -/
def perform (s : IndexedTable) : Operation → Answer × IndexedTable
  | .intern n => (.ofExcept (s.intern (.ofInt n)).1, (s.intern (.ofInt n)).2)
  | .indexOf n => (.ofExcept (s.indexOf (.ofInt n)), s)
  | .contains n => (.membership (s.contains (.ofInt n)), s)
  | .freeze => (.done, s.freeze)

/-- An indexed table stands for a table: it has the same entries, and its index says exactly where
each entry is. -/
structure Represents (s : IndexedTable) (t : ConstantTable) : Prop where
  entries : s.entries.toList = t.entries
  frozen : s.frozen = t.frozen
  positions : ∀ (key : Bytes) (i : Nat), s.positions[key]? = some i ↔ s.entries[i]? = some key

theorem represents_empty : ({} : IndexedTable).Represents {} where
  entries := rfl
  frozen := rfl
  positions key i := by simp

theorem Represents.getElem?_entries (h : s.Represents t) (i : Nat) :
    s.entries[i]? = t.entries[i]? := by
  rw [← h.entries, Array.getElem?_toList]

/-- What is looked up in the index is what a search finds. -/
theorem Represents.position?_eq (h : s.Represents t) (v : Scalar) :
    s.position? v = t.position? v := by
  cases hsearch : t.position? v with
  | some i =>
    rw [position?, h.positions, h.getElem?_entries]
    exact ConstantTable.getElem?_of_position? hsearch
  | none =>
    have hnew : v.toBytes ∉ t.entries := ConstantTable.position?_eq_none_iff.1 hsearch
    refine Option.eq_none_iff_forall_ne_some.2 fun i hi => hnew ?_
    rw [position?, h.positions, h.getElem?_entries] at hi
    exact List.mem_of_getElem? hi

theorem Represents.size_eq (h : s.Represents t) : s.size = t.size := by
  rw [size, ← Array.length_toList, h.entries, ConstantTable.size]

/-- A new constant goes behind the entries and into the index. -/
theorem represents_append (h : s.Represents t) (hnone : t.position? v = none) :
    (s.append v).Represents { t with entries := t.entries ++ [v.toBytes] } where
  entries := by rw [append, Array.toList_push, h.entries]
  frozen := h.frozen
  positions key i := by
    have hnew : v.toBytes ∉ t.entries := ConstantTable.position?_eq_none_iff.1 hnone
    have hold := h.positions key i
    simp only [append, Std.HashMap.getElem?_insert, Array.getElem?_push, beq_iff_eq, size]
    by_cases hkey : v.toBytes = key
    · -- The key is nowhere but behind the old entries.
      subst hkey
      have hne : s.entries[i]? ≠ some v.toBytes := by
        rw [h.getElem?_entries]
        exact fun hi => hnew (List.mem_of_getElem? hi)
      by_cases hi : i = s.entries.size
      · simp [hi]
      · simp [hi, hne, Ne.symm hi]
    · by_cases hi : i = s.entries.size
      · subst hi
        rw [if_neg hkey, if_pos rfl, hold, Array.getElem?_size, Option.some.injEq]
        exact iff_of_false nofun hkey
      · rw [if_neg hkey, if_neg hi, hold]

theorem represents_intern (h : s.Represents t) (v : Scalar) :
    (s.intern v).1 = (t.intern v).1 ∧ (s.intern v).2.Represents (t.intern v).2 := by
  have hposition := h.position?_eq v
  rcases ConstantTable.intern_cases v t with ⟨i, hi, ht⟩ | ⟨hnone, hfrozen, ht⟩ |
    ⟨hnone, hfrozen, ht⟩
  · rw [hi] at hposition
    simp only [ht, intern, hposition]
    exact ⟨trivial, h⟩
  · rw [hnone] at hposition
    simp only [ht, intern, hposition, if_pos (h.frozen.trans hfrozen)]
    exact ⟨trivial, h⟩
  · rw [hnone] at hposition
    have hopen : ¬s.frozen = true := by simp [h.frozen, hfrozen]
    simp only [ht, intern, hposition, if_neg hopen]
    exact ⟨congrArg _ h.size_eq, represents_append h hnone⟩

/-- An operation is answered as by the table that is stood for, and what is left stands for what
that leaves. -/
theorem represents_perform (h : s.Represents t) (op : Operation) :
    (s.perform op).1 = (t.perform op).1 ∧ (s.perform op).2.Represents (t.perform op).2 := by
  cases op with
  | intern n =>
    obtain ⟨hanswer, hnext⟩ := represents_intern h (.ofInt n)
    exact ⟨congrArg Answer.ofExcept hanswer, hnext⟩
  | indexOf n =>
    have hindex : s.indexOf (.ofInt n) = t.indexOf (.ofInt n) := by
      have hposition := h.position?_eq (.ofInt n)
      cases hi : t.position? (.ofInt n) <;>
        simp only [indexOf, ConstantTable.indexOf, hposition, hi]
    exact ⟨congrArg Answer.ofExcept hindex, h⟩
  | contains n =>
    have hcontains : s.contains (.ofInt n) = t.contains (.ofInt n) := by
      rw [contains, ConstantTable.contains, h.position?_eq]
    exact ⟨congrArg Answer.membership hcontains, h⟩
  | freeze => exact ⟨rfl, h.entries, rfl, h.positions⟩

theorem represents_after (ops : List Operation) :
    log perform {} ops = log ConstantTable.perform {} ops ∧
      (after perform {} ops).Represents (after ConstantTable.perform {} ops) :=
  log_eq_of_simulates (R := Represents) (fun _ _ op h => represents_perform h op) represents_empty ops

/-- An operation that is refused changes nothing, the index included. -/
theorem perform_of_refusal {op : Operation} {e : SchemaError} (h : (s.perform op).1 = .refusal e) :
    (s.perform op).2 = s := by
  cases op with
  | intern n =>
    rw [perform, intern] at h ⊢
    cases hposition : s.position? (.ofInt n) with
    | some i => rfl
    | none =>
      rw [hposition] at h
      by_cases hfrozen : s.frozen = true
      · simp only [if_pos hfrozen]
      · simp only [if_neg hfrozen, Answer.ofExcept] at h
        cases h
  | freeze => cases h
  | _ => rfl

/-- After every run of operations the table is as the answers tell, and an indexed table has given
the same answers, with an index that says exactly where each entry is. An operation that is refused
next changes neither. -/
theorem lawful_run (ops : List Operation) :
    (after ConstantTable.perform {} ops).Lawful (log ConstantTable.perform {} ops) ∧
      log perform {} ops = log ConstantTable.perform {} ops ∧
        (after perform {} ops).Represents (after ConstantTable.perform {} ops) ∧
          ∀ op e, ((after perform {} ops).perform op).1 = .refusal e →
            ((after perform {} ops).perform op).2 = after perform {} ops := by
  obtain ⟨hlog, hrepresents⟩ := represents_after ops
  exact ⟨(ConstantTable.records_log ops).lawful, hlog, hrepresents, fun _ _ => perform_of_refusal⟩

/-- A constant is entered, the table is frozen, the constant is asked for by another of its
integers, and a new one is refused. -/
def frozenEarly : List Operation := [.intern 5, .freeze, .intern (5 - modulus), .intern 7]

theorem lawful_run_frozenEarly :
    log perform {} frozenEarly =
        [(.intern 5, .position 0), (.freeze, .done), (.intern (5 - modulus), .position 0),
          (.intern 7, .refusal (.frozenTable 7))] ∧
      (5 : Int) ≡ 5 - modulus [ZMOD modulus] ∧
        (∀ ops, after ConstantTable.perform (after ConstantTable.perform {} frozenEarly) ops =
          after ConstantTable.perform {} frozenEarly) ∧
          ((after perform {} frozenEarly).perform (.indexOf 7)).1 =
              .refusal (.unknownConstant 7) ∧
            ((after perform {} frozenEarly).perform (.indexOf 7)).2 =
              after perform {} frozenEarly := by
  obtain ⟨hlawful, hlog, hrepresents, hrefused⟩ := lawful_run frozenEarly
  have hanswers : log ConstantTable.perform {} frozenEarly =
      [(.intern 5, .position 0), (.freeze, .done), (.intern (5 - modulus), .position 0),
        (.intern 7, .refusal (.frozenTable 7))] := by decide +kernel
  rw [hanswers] at hlawful
  have hfrozen := hlawful.frozen_iff.2 ⟨.done, by simp⟩
  have hunknown : ((after perform {} frozenEarly).perform (.indexOf 7)).1 =
      .refusal (.unknownConstant 7) :=
    (represents_perform hrepresents (.indexOf 7)).1.trans (by decide +kernel)
  exact ⟨hlog.trans hanswers, (hlawful.position_eq_iff _ _ 0 0 (by simp) (by simp)).1 rfl,
    hlawful.after_of_frozen hfrozen, hunknown, hrefused _ _ hunknown⟩

end Plonkish.IndexedTable
