import Mathlib.Data.List.Nodup
import Mathlib.Logic.Relation
import Plonkish.ConstantTable
import Plonkish.Proofs.Scalar.Canonical

/-!
# Runs of the table of constants

Constants are only ever appended, so a position keeps its meaning for good.

* `ConstantTable.Step`, `ConstantTable.Reaches`: what may happen to a table.
* `ConstantTable.Reaches.value?_eq`: a position that has a value keeps it.
* `ConstantTable.value?_of_intern`: the position that is given to a constant has its value.
* `ConstantTable.followedBy`: the table after a list of constants was entered.
* `ConstantTable.Lists`, `ConstantTable.Holds`: a table has the constants of a list, each once.
* `ConstantTable.Refers`: references are those to the constants of a list.
-/

namespace Plonkish.ConstantTable

variable {t t' : ConstantTable} {v : Scalar} {i : Nat}

/-- The constant at a signed position, read from its bytes. -/
def value? (t : ConstantTable) (i : Int) : Option Scalar :=
  (t.entryAt? i).bind fun bytes => (Scalar.ofBytes bytes).toOption

/-! ## Steps -/

/-- One step of a table: a constant is entered, or refused, or the table is frozen. -/
inductive Step : ConstantTable → ConstantTable → Prop
  | intern (v : Scalar) (t : ConstantTable) : Step t (t.intern v).2
  | freeze (t : ConstantTable) : Step t t.freeze

/-- A table leads to another by any number of steps. -/
def Reaches : ConstantTable → ConstantTable → Prop := Relation.ReflTransGen Step

theorem Reaches.refl (t : ConstantTable) : t.Reaches t := Relation.ReflTransGen.refl

theorem Reaches.trans {t'' : ConstantTable} (h : t.Reaches t') (h' : t'.Reaches t'') :
    t.Reaches t'' :=
  Relation.ReflTransGen.trans h h'

theorem reaches_intern (v : Scalar) (t : ConstantTable) : t.Reaches (t.intern v).2 :=
  Relation.ReflTransGen.single (.intern v t)

/-- All that entering a constant can do: find it, refuse it, or append it. -/
theorem intern_cases (v : Scalar) (t : ConstantTable) :
    (∃ i, t.position? v = some i ∧ t.intern v = (.ok i, t)) ∨
      (t.position? v = none ∧ t.frozen = true ∧ t.intern v = (.error (.frozenTable v), t)) ∨
      (t.position? v = none ∧ t.frozen = false ∧
        t.intern v = (.ok t.size, { t with entries := t.entries ++ [v.toBytes] })) := by
  unfold intern
  split
  · next i h => exact .inl ⟨i, h, rfl⟩
  · next h =>
    cases hf : t.frozen with
    | true => exact .inr (.inl ⟨h, rfl, rfl⟩)
    | false => exact .inr (.inr ⟨h, rfl, rfl⟩)

/-- A constant that is not refused is found or appended. -/
theorem cases_of_intern (h : t.intern v = (.ok i, t')) :
    (t.position? v = some i ∧ t' = t) ∨
      (t.position? v = none ∧ i = t.size ∧
        t' = { t with entries := t.entries ++ [v.toBytes] }) := by
  rcases intern_cases v t with ⟨j, hj, h'⟩ | ⟨-, -, h'⟩ | ⟨hnone, -, h'⟩
  · cases h.symm.trans h'
    exact .inl ⟨hj, rfl⟩
  · cases h.symm.trans h'
  · cases h.symm.trans h'
    exact .inr ⟨hnone, rfl, rfl⟩

/-- A step keeps every entry where it is. -/
theorem Step.prefix_entries (h : Step t t') : t.entries <+: t'.entries := by
  cases h with
  | intern v =>
    rcases intern_cases v t with ⟨i, -, h⟩ | ⟨-, -, h⟩ | ⟨-, -, h⟩
    · simp [h]
    · simp [h]
    · rw [h]
      exact List.prefix_append t.entries [v.toBytes]
  | freeze => exact List.prefix_refl t.entries

theorem Reaches.prefix_entries (h : t.Reaches t') : t.entries <+: t'.entries := by
  induction h with
  | refl => exact List.prefix_refl t.entries
  | tail _ hstep ih => exact ih.trans hstep.prefix_entries

/-! ## Values -/

theorem value?_natCast (t : ConstantTable) (i : Nat) :
    t.value? i = t.entries[i]?.bind fun bytes => (Scalar.ofBytes bytes).toOption := by
  simp [value?, entryAt?, itemAt?]

/-- A position that has a value keeps it. -/
theorem Reaches.value?_eq (h : t.Reaches t') (hv : t.value? i = some v) :
    t'.value? i = some v := by
  rw [value?_natCast, Option.bind_eq_some_iff] at hv ⊢
  obtain ⟨bytes, hbytes, hv⟩ := hv
  obtain ⟨more, hmore⟩ := h.prefix_entries
  obtain ⟨hlt, -⟩ := List.getElem?_eq_some_iff.1 hbytes
  refine ⟨bytes, ?_, hv⟩
  rw [← hmore, List.getElem?_append_left hlt, hbytes]

theorem value?_of_getElem? (h : t.entries[i]? = some v.toBytes) : t.value? i = some v := by
  rw [value?_natCast, h, Option.bind_some, Scalar.ofBytes_toBytes]
  rfl

theorem Reaches.position?_eq (h : t.Reaches t') (hv : t.position? v = some i) :
    t'.position? v = some i :=
  idxOf?_of_prefix h.prefix_entries hv

theorem getElem?_of_position? (h : t.position? v = some i) : t.entries[i]? = some v.toBytes := by
  obtain ⟨hlt, hi, -⟩ := List.idxOf?_eq_some_iff.1 h
  rw [List.getElem?_eq_getElem hlt, hi]

theorem mem_entries_of_position? (h : t.position? v = some i) : v.toBytes ∈ t.entries :=
  List.mem_of_getElem? (getElem?_of_position? h)

theorem position?_eq_none_iff : t.position? v = none ↔ v.toBytes ∉ t.entries :=
  List.idxOf?_eq_none_iff

theorem entryAt?_of_position? (h : t.position? v = some i) : t.entryAt? i = some v.toBytes := by
  simp [entryAt?, itemAt?, getElem?_of_position? h]

/-- Where no entry occurs twice, a constant is found exactly where its bytes are. -/
theorem position?_eq_some_iff (h : t.entries.Nodup) :
    t.position? v = some i ↔ t.entries[i]? = some v.toBytes := by
  refine ⟨getElem?_of_position?, fun hi => ?_⟩
  obtain ⟨hlt, hget⟩ := List.getElem?_eq_some_iff.1 hi
  refine List.idxOf?_eq_some_iff.2 ⟨hlt, hget, fun j hj hsame => ?_⟩
  exact absurd (h.getElem_inj_iff.1 (hsame.trans hget.symm)) (Nat.ne_of_lt hj)

/-- A constant is found at the position that was given to it. -/
theorem position?_of_intern (h : t.intern v = (.ok i, t')) : t'.position? v = some i := by
  rcases cases_of_intern h with ⟨hi, rfl⟩ | ⟨hnone, rfl, rfl⟩
  · exact hi
  · exact idxOf?_concat (position?_eq_none_iff.1 hnone)

/-- The position that is given to a constant has its value. -/
theorem value?_of_intern (h : t.intern v = (.ok i, t')) : t'.value? i = some v :=
  value?_of_getElem? (getElem?_of_position? (position?_of_intern h))

/-! ## Entering lists of constants -/

section Following

variable {vs ws : List Scalar}

/-- The table with the constants of a list behind its own, as far as they are new: each once, where
it is first met. -/
def followedBy (t : ConstantTable) (vs : List Scalar) : ConstantTable :=
  { t with
    entries :=
      t.entries ++ (vs.filter fun v => v.toBytes ∉ t.entries).eraseDups.map Scalar.toBytes }

@[simp] theorem frozen_followedBy : (t.followedBy vs).frozen = t.frozen := rfl

@[simp] theorem followedBy_nil : t.followedBy [] = t := by
  simp [followedBy]

theorem followedBy_cons_of_mem (h : v.toBytes ∈ t.entries) :
    t.followedBy (v :: vs) = t.followedBy vs := by
  simp [followedBy, h]

theorem followedBy_cons_of_not_mem (h : v.toBytes ∉ t.entries) :
    t.followedBy (v :: vs) =
      { t with entries := t.entries ++ [v.toBytes] : ConstantTable }.followedBy vs := by
  have hrest : (vs.filter fun w => w.toBytes ∉ t.entries).filter (fun w => !w == v) =
      vs.filter fun w => w.toBytes ∉ t.entries ++ [v.toBytes] := by
    rw [List.filter_filter]
    refine List.filter_congr fun w _ => ?_
    rw [Bool.eq_iff_iff]
    simp [Scalar.toBytes_injective.eq_iff, and_comm]
  rw [followedBy, List.filter_cons_of_pos (by simpa using h), List.eraseDups_cons, hrest]
  simp [followedBy]

/-- A list is entered constant by constant. -/
theorem followedBy_cons : t.followedBy (v :: vs) = (t.followedBy [v]).followedBy vs := by
  by_cases h : v.toBytes ∈ t.entries
  · rw [followedBy_cons_of_mem h, followedBy_cons_of_mem h, followedBy_nil]
  · rw [followedBy_cons_of_not_mem h, followedBy_cons_of_not_mem h, followedBy_nil]

theorem followedBy_append : t.followedBy (vs ++ ws) = (t.followedBy vs).followedBy ws := by
  induction vs generalizing t with
  | nil => rw [List.nil_append, followedBy_nil]
  | cons v vs ih => rw [List.cons_append, followedBy_cons, ih, ← followedBy_cons]

/-- A table that has all constants of a list stays as it is. -/
theorem followedBy_of_forall_mem (h : ∀ v ∈ vs, v.toBytes ∈ t.entries) : t.followedBy vs = t := by
  induction vs with
  | nil => exact followedBy_nil
  | cons v vs ih =>
    obtain ⟨hv, hvs⟩ := List.forall_mem_cons.1 h
    rw [followedBy_cons_of_mem hv, ih hvs]

/-- A constant is taken unless it is new to a frozen table. -/
theorem exists_intern_eq_ok (h : t.frozen = true → v.toBytes ∈ t.entries) :
    ∃ i, t.intern v = (.ok i, t.followedBy [v]) := by
  rcases intern_cases v t with ⟨i, hi, ht⟩ | ⟨hnone, hfrozen, -⟩ | ⟨hnone, -, ht⟩
  · rw [followedBy_cons_of_mem (mem_entries_of_position? hi), followedBy_nil]
    exact ⟨i, ht⟩
  · exact absurd (h hfrozen) (position?_eq_none_iff.1 hnone)
  · rw [followedBy_cons_of_not_mem (position?_eq_none_iff.1 hnone), followedBy_nil]
    exact ⟨t.size, ht⟩

theorem intern_eq_error (hfrozen : t.frozen = true) (h : v.toBytes ∉ t.entries) :
    t.intern v = (.error (.frozenTable v), t) := by
  rw [intern, position?_eq_none_iff.2 h, hfrozen]
  rfl

end Following

/-! ## Lists of constants -/

variable {vs ws : List Scalar} {refs refs' : List Int}

/-- The table lists the constants of a list, each once and in the order in which they first appear
there. -/
structure Lists (t : ConstantTable) (vs : List Scalar) : Prop where
  entries : t.entries = vs.eraseDups.map Scalar.toBytes
  nodup : t.entries.Nodup

theorem Lists.mem_entries_iff (h : t.Lists vs) : v.toBytes ∈ t.entries ↔ v ∈ vs := by
  rw [h.entries, List.mem_map_of_injective Scalar.toBytes_injective, List.mem_eraseDups]

/-- The entries are canonical forms. -/
theorem Lists.isCanonical (h : t.Lists vs) :
    ∀ b ∈ t.entries, Scalar.IsCanonical b := by
  rw [h.entries, List.forall_mem_map]
  exact fun v _ => Scalar.isCanonical_iff.2 ⟨v, Scalar.ofBytes_toBytes v⟩

/-- After a constant is found or entered, the table lists it behind the others. -/
theorem Lists.intern (h : t.Lists vs) (hi : t.intern v = (.ok i, t')) : t'.Lists (vs ++ [v]) := by
  have hdups : (vs ++ [v]).eraseDups = vs.eraseDups ++ ([v].removeAll vs).eraseDups :=
    List.eraseDups_append
  rcases cases_of_intern hi with ⟨hfound, rfl⟩ | ⟨hnone, -, rfl⟩
  · have hmem : v ∈ vs := h.mem_entries_iff.1 (mem_entries_of_position? hfound)
    refine ⟨?_, h.nodup⟩
    rw [hdups, h.entries]
    simp [List.removeAll, hmem]
  · have hnew : v.toBytes ∉ t.entries := position?_eq_none_iff.1 hnone
    have hmem : v ∉ vs := fun hv => hnew (h.mem_entries_iff.2 hv)
    refine ⟨?_, ?_⟩
    · rw [hdups, h.entries]
      simp [List.removeAll, hmem, List.eraseDups_cons]
    · rw [← List.concat_eq_append]
      exact List.Nodup.concat hnew h.nodup

/-- The table holds the constants of a list, in the order in which they first appear there, and
takes new ones. -/
structure Holds (t : ConstantTable) (vs : List Scalar) : Prop where
  entries : t.entries = vs.eraseDups.map Scalar.toBytes
  nodup : t.entries.Nodup
  frozen : t.frozen = false

theorem holds_empty : ({} : ConstantTable).Holds [] := ⟨rfl, List.nodup_nil, rfl⟩

theorem Holds.lists (h : t.Holds vs) : t.Lists vs := ⟨h.entries, h.nodup⟩

/-- After a constant is entered, the table holds the list with the constant behind it. -/
theorem Holds.intern (h : t.Holds vs) (hi : t.intern v = (.ok i, t')) : t'.Holds (vs ++ [v]) := by
  obtain ⟨hentries, hnodup⟩ := h.lists.intern hi
  refine ⟨hentries, hnodup, ?_⟩
  rcases cases_of_intern hi with ⟨-, rfl⟩ | ⟨-, -, rfl⟩
  · exact h.frozen
  · exact h.frozen

/-- The position of a constant as expressions refer to it. -/
def reference? (t : ConstantTable) (v : Scalar) : Option Int := (t.position? v).map Int.ofNat

/-- The references are those to the constants of a list, up to order. -/
def Refers (t : ConstantTable) (refs : List Int) (vs : List Scalar) : Prop :=
  (refs.map some).Perm (vs.map t.reference?)

theorem reference?_eq_some_iff {r : Int} :
    t.reference? v = some r ↔ ∃ i : Nat, t.position? v = some i ∧ r = i := by
  rw [reference?, Option.map_eq_some_iff]
  exact exists_congr fun i => and_congr_right fun _ => eq_comm

theorem refers_nil : t.Refers [] [] := .nil

theorem refers_of_intern (h : t.intern v = (.ok i, t')) : t'.Refers [i] [v] := by
  have hi : t'.reference? v = some (i : Int) :=
    reference?_eq_some_iff.2 ⟨i, position?_of_intern h, rfl⟩
  rw [Refers, List.map_singleton, List.map_singleton, hi]

theorem Refers.append (h : t.Refers refs vs) (h' : t.Refers refs' ws) :
    t.Refers (refs ++ refs') (vs ++ ws) := by
  rw [Refers, List.map_append, List.map_append]
  exact List.Perm.append h h'

theorem Refers.perm (h : t.Refers refs vs) (hperm : refs'.Perm refs) : t.Refers refs' vs :=
  (hperm.map some).trans h

theorem Refers.mem_iff (h : t.Refers refs vs) {r : Int} :
    r ∈ refs ↔ ∃ v ∈ vs, t.reference? v = some r := by
  rw [← List.mem_map, ← List.Perm.mem_iff h]
  simp

theorem Refers.length_eq (h : t.Refers refs vs) : refs.length = vs.length := by
  simpa using List.Perm.length_eq h

/-- References stay good while more constants are entered. -/
theorem Refers.later (h : t.Refers refs vs) (hlater : t.Reaches t') : t'.Refers refs vs := by
  have hsame : vs.map t'.reference? = vs.map t.reference? := by
    refine List.map_congr_left fun v hv => ?_
    obtain ⟨r, -, hr⟩ := List.mem_map.1 ((List.Perm.mem_iff h).2 (List.mem_map_of_mem hv))
    obtain ⟨i, hi, rfl⟩ := reference?_eq_some_iff.1 hr.symm
    rw [← hr]
    exact reference?_eq_some_iff.2 ⟨i, hlater.position?_eq hi, rfl⟩
  rw [Refers, hsame]
  exact h

/-- If exactly the constants of a list were entered and are referred to, the references are all
positions of the table, and no others. -/
theorem Holds.mem_iff (h : t.Holds vs) (hrefs : t.Refers refs vs) {r : Int} :
    r ∈ refs ↔ 0 ≤ r ∧ r < t.size := by
  rw [hrefs.mem_iff]
  constructor
  · rintro ⟨v, -, hr⟩
    obtain ⟨i, hi, rfl⟩ := reference?_eq_some_iff.1 hr
    obtain ⟨hlt, -⟩ := List.idxOf?_eq_some_iff.1 hi
    exact ⟨Int.natCast_nonneg i, Int.ofNat_lt.2 hlt⟩
  · rintro ⟨hnonneg, hlt⟩
    obtain ⟨i, rfl⟩ := Int.eq_ofNat_of_zero_le hnonneg
    have hlt : i < t.entries.length := Int.ofNat_lt.1 hlt
    have hentry : t.entries[i] ∈ vs.eraseDups.map Scalar.toBytes :=
      h.entries ▸ List.getElem_mem hlt
    obtain ⟨v, hv, hbytes⟩ := List.mem_map.1 hentry
    refine ⟨v, List.mem_eraseDups.1 hv, reference?_eq_some_iff.2 ⟨i, ?_, rfl⟩⟩
    exact (position?_eq_some_iff h.nodup).2 (by rw [List.getElem?_eq_getElem hlt, hbytes])

end Plonkish.ConstantTable
