import Plonkish.Proofs.ConstantTable
import Plonkish.Proofs.Outcome

/-!
# Runs of operations on tables of constants

A table is used through operations, each of which answers and leaves a table for the next. What was
answered in a run tells which constants the table has, where they are and whether it is frozen.

* `Operation.after`, `Operation.log`: the table after a run, and the run with its answers.
* `Operation.log_eq_of_simulates`: tables that stay in step give the same answers in every run.
* `ConstantTable.Records.perform`: one operation; `ConstantTable.records_log`: a run.
* `ConstantTable.Lawful`: what a recorded run says about the table, and about the next operation.
-/

namespace Plonkish

/-- An operation on a table of constants. An integer of any size stands for its residue. -/
inductive Operation
  | intern (v : Int)
  | indexOf (v : Int)
  | contains (v : Int)
  | freeze
  deriving DecidableEq

/-- What an operation answers. -/
inductive Answer
  | position (i : Nat)
  | refusal (e : SchemaError)
  | membership (found : Bool)
  | done
  deriving DecidableEq

/-- The answer to a question for a position. -/
def Answer.ofExcept : Except SchemaError Nat → Answer
  | .ok i => .position i
  | .error e => .refusal e

namespace Operation

/-! ## Runs -/

section Runs

variable {σ τ : Type} (perform : τ → Operation → Answer × τ)

/-- The table after some operations. -/
def after (t : τ) (ops : List Operation) : τ := ops.foldl (fun t op => (perform t op).2) t

/-- Some operations with their answers. -/
def log : τ → List Operation → List (Operation × Answer)
  | _, [] => []
  | t, op :: ops => (op, (perform t op).1) :: log (perform t op).2 ops

variable {perform} {perform' : σ → Operation → Answer × σ} {R : σ → τ → Prop}

/-- Tables that answer alike and stay in step give the same answers in every run. -/
theorem log_eq_of_simulates
    (hstep : ∀ s t op, R s t →
      (perform' s op).1 = (perform t op).1 ∧ R (perform' s op).2 (perform t op).2)
    {s : σ} {t : τ} (h : R s t) (ops : List Operation) :
    log perform' s ops = log perform t ops ∧ R (after perform' s ops) (after perform t ops) := by
  induction ops generalizing s t with
  | nil => exact ⟨rfl, h⟩
  | cons op ops ih =>
    obtain ⟨hanswer, hnext⟩ := hstep s t op h
    obtain ⟨hlog, hafter⟩ := ih hnext
    exact ⟨by rw [log, log, hanswer, hlog], hafter⟩

end Runs

/-- The constant for which an operation gave a position, entering it if it was new. -/
def entered? : Operation × Answer → Option Scalar
  | (.intern v, .position _) => some (.ofInt v)
  | _ => none

end Operation

namespace ConstantTable

open Operation

variable {t t' : ConstantTable} {v : Scalar} {i : Nat} {e : SchemaError}
  {past : List (Operation × Answer)}

/-- Performs an operation. -/
def perform (t : ConstantTable) : Operation → Answer × ConstantTable
  | .intern v => (.ofExcept (t.intern (.ofInt v)).1, (t.intern (.ofInt v)).2)
  | .indexOf v => (.ofExcept (t.indexOf (.ofInt v)), t)
  | .contains v => (.membership (t.contains (.ofInt v)), t)
  | .freeze => (.done, t.freeze)

theorem reaches_perform (t : ConstantTable) (op : Operation) : t.Reaches (t.perform op).2 := by
  cases op with
  | intern v => exact reaches_intern (.ofInt v) t
  | freeze => exact Relation.ReflTransGen.single (.freeze t)
  | _ => exact Reaches.refl t

theorem reaches_after (t : ConstantTable) (ops : List Operation) :
    t.Reaches (after perform t ops) := by
  induction ops generalizing t with
  | nil => exact Reaches.refl t
  | cons op ops ih => exact (reaches_perform t op).trans (ih (t.perform op).2)

/-- A refusal comes from a frozen table, for a constant that is not in it, and changes nothing. -/
theorem cases_of_intern_error (h : t.intern v = (.error e, t')) :
    t.position? v = none ∧ t.frozen = true ∧ e = .frozenTable v ∧ t' = t := by
  rcases intern_cases v t with ⟨i, -, h'⟩ | ⟨hnone, hfrozen, h'⟩ | ⟨-, -, h'⟩
  · cases h.symm.trans h'
  · cases h.symm.trans h'
    exact ⟨hnone, hfrozen, rfl, rfl⟩
  · cases h.symm.trans h'

theorem frozen_intern (v : Scalar) (t : ConstantTable) : (t.intern v).2.frozen = t.frozen := by
  rcases intern_cases v t with ⟨i, -, h⟩ | ⟨-, -, h⟩ | ⟨-, -, h⟩ <;> rw [h]

/-- A frozen table stays as it is, whatever is done with it. -/
theorem perform_of_frozen (h : t.frozen = true) (op : Operation) : (t.perform op).2 = t := by
  cases op with
  | intern v =>
    rcases intern_cases (.ofInt v) t with ⟨i, -, hi⟩ | ⟨-, -, hi⟩ | ⟨-, hfrozen, -⟩
    · rw [perform, hi]
    · rw [perform, hi]
    · rw [h] at hfrozen
      cases hfrozen
  | freeze =>
    obtain ⟨entries, frozen⟩ := t
    obtain rfl : frozen = true := h
    rfl
  | _ => rfl

theorem after_of_frozen (h : t.frozen = true) (ops : List Operation) : after perform t ops = t := by
  induction ops with
  | nil => rfl
  | cons op ops ih =>
    rw [after, List.foldl_cons, perform_of_frozen h op]
    exact ih

/-! ## Recorded runs -/

/-- A table is one that a run leaves: it lists the constants for which positions were given, each
at the position that was given, and it is frozen if it was told to be. -/
structure Records (t : ConstantTable) (past : List (Operation × Answer)) : Prop where
  lists : t.Lists (past.filterMap entered?)
  position : ∀ v i, (.intern v, .position i) ∈ past → t.position? (.ofInt v) = some i
  frozen : t.frozen = true ↔ ∃ a, (.freeze, a) ∈ past

theorem records_empty : ({} : ConstantTable).Records [] where
  lists := holds_empty.lists
  position _ _ h := nomatch h
  frozen := by simp

/-- An operation that gives no position for a constant enters none. -/
theorem filterMap_append_of_entered?_eq_none {use : Operation × Answer} (h : entered? use = none)
    (past : List (Operation × Answer)) :
    (past ++ [use]).filterMap entered? = past.filterMap entered? := by
  rw [List.filterMap_append, List.filterMap_cons_none h, List.filterMap_nil, List.append_nil]

/-- The constants that a table lists after an operation. -/
theorem lists_perform (h : t.Lists (past.filterMap entered?)) (op : Operation) :
    (t.perform op).2.Lists ((past ++ [(op, (t.perform op).1)]).filterMap entered?) := by
  cases op with
  | intern v =>
    rw [perform]
    rcases hi : t.intern (.ofInt v) with ⟨e | i, t'⟩
    · obtain ⟨-, -, -, rfl⟩ := cases_of_intern_error hi
      rw [filterMap_append_of_entered?_eq_none rfl]
      exact h
    · rw [List.filterMap_append]
      exact h.intern hi
  | freeze =>
    rw [filterMap_append_of_entered?_eq_none rfl]
    exact ⟨h.entries, h.nodup⟩
  | _ =>
    rw [filterMap_append_of_entered?_eq_none rfl]
    exact h

theorem frozen_perform_iff (t : ConstantTable) (op : Operation) :
    (t.perform op).2.frozen = true ↔ t.frozen = true ∨ op = .freeze := by
  cases op with
  | intern v => simp [perform, frozen_intern]
  | freeze => simp [perform, freeze]
  | _ => simp [perform]

/-- One operation is recorded behind the others. -/
theorem Records.perform (h : t.Records past) (op : Operation) :
    (t.perform op).2.Records (past ++ [(op, (t.perform op).1)]) where
  lists := lists_perform h.lists op
  position v i hmem := by
    rcases List.mem_append.1 hmem with hmem | hmem
    · exact (reaches_perform t op).position?_eq (h.position v i hmem)
    · obtain ⟨rfl, hi⟩ := Prod.mk.inj (List.mem_singleton.1 hmem)
      rw [ConstantTable.perform] at hi ⊢
      rcases hrun : t.intern (.ofInt v) with ⟨e | j, t'⟩
      · rw [hrun] at hi
        cases hi
      · rw [hrun] at hi
        cases hi
        exact position?_of_intern hrun
  frozen := by
    rw [frozen_perform_iff, h.frozen]
    simp only [List.mem_append, List.mem_singleton, Prod.mk.injEq, exists_or]
    exact or_congr_right ⟨fun hop => ⟨_, hop.symm, rfl⟩, fun ⟨_, hop, _⟩ => hop.symm⟩

/-- A run is recorded behind what was recorded before. -/
theorem Records.after (h : t.Records past) (ops : List Operation) :
    (after ConstantTable.perform t ops).Records (past ++ log ConstantTable.perform t ops) := by
  induction ops generalizing t past with
  | nil => simpa [Operation.after, log] using h
  | cons op ops ih =>
    have hrest := ih (h.perform op)
    rw [List.append_assoc] at hrest
    exact hrest

theorem records_log (ops : List Operation) :
    (after perform ({} : ConstantTable) ops).Records (log perform {} ops) :=
  records_empty.after ops

/-! ## What a recorded run says -/

theorem entered?_eq_some_iff {use : Operation × Answer} :
    entered? use = some v ↔ ∃ n i, use = (.intern n, .position i) ∧ Scalar.ofInt n = v := by
  constructor
  · intro h
    obtain ⟨op, answer⟩ := use
    cases op with
    | intern n =>
      cases answer with
      | position i => exact ⟨n, i, rfl, Option.some.inj h⟩
      | _ => cases h
    | _ => cases h
  · rintro ⟨n, i, rfl, rfl⟩
    rfl

/-- The constants of a table can be read back. -/
theorem Lists.values {vs : List Scalar} (h : t.Lists vs) : t.values = .ok vs.eraseDups := by
  rw [ConstantTable.values, h.entries, Outcome.mapM_eq_ok_iff, List.forall₂_map_left_iff,
    List.forall₂_same]
  exact fun v _ => Scalar.ofBytes_toBytes v

/-- At a position that was given stands the residue for which it was given. -/
theorem Records.value (h : t.Records past) {n : Int} (hmem : (.intern n, .position i) ∈ past) :
    (past.filterMap entered?).eraseDups[i]? = some (Scalar.ofInt n) := by
  have hi := getElem?_of_position? (h.position n i hmem)
  rw [h.lists.entries, List.getElem?_map, Option.map_eq_some_iff] at hi
  obtain ⟨v, hv, hbytes⟩ := hi
  rw [hv, Scalar.toBytes_injective hbytes]

/-- The positions that were given are all positions of the table. -/
theorem Records.lt_size_iff (h : t.Records past) :
    i < t.size ↔ ∃ n, (.intern n, .position i) ∈ past := by
  constructor
  · intro hi
    have hentry : t.entries[i] ∈ (past.filterMap entered?).eraseDups.map Scalar.toBytes :=
      h.lists.entries ▸ List.getElem_mem hi
    obtain ⟨v, hv, hbytes⟩ := List.mem_map.1 hentry
    obtain ⟨use, huse, hentered⟩ := List.mem_filterMap.1 (List.mem_eraseDups.1 hv)
    obtain ⟨n, j, rfl, rfl⟩ := entered?_eq_some_iff.1 hentered
    -- The position that was given for this constant is the one where it stands.
    have hj := h.position n j huse
    have hi : t.position? (.ofInt n) = some i :=
      (position?_eq_some_iff h.lists.nodup).2 (by rw [List.getElem?_eq_getElem hi, hbytes])
    rw [hi] at hj
    obtain rfl := Option.some.inj hj
    exact ⟨n, huse⟩
  · rintro ⟨n, hmem⟩
    obtain ⟨hlt, -, -⟩ := List.idxOf?_eq_some_iff.1 (h.position n i hmem)
    exact hlt

/-- Two positions that were given are equal exactly if the integers are congruent. -/
theorem Records.position_eq_iff (h : t.Records past) {m n : Int} {j : Nat}
    (hm : (.intern m, .position i) ∈ past) (hn : (.intern n, .position j) ∈ past) :
    i = j ↔ m ≡ n [ZMOD modulus] := by
  rw [← Scalar.ofInt_eq_iff]
  constructor
  · rintro rfl
    exact Option.some.inj ((h.value hm).symm.trans (h.value hn))
  · intro hsame
    have hi := h.position m i hm
    rw [hsame, h.position n j hn] at hi
    exact (Option.some.inj hi).symm

/-- What the answers of a run tell about the table that it leaves, and what the next operation does
with the table. -/
structure Lawful (t : ConstantTable) (past : List (Operation × Answer)) : Prop where
  nodup : t.entries.Nodup
  canonical : ∀ b ∈ t.entries, Scalar.IsCanonical b
  /-- A constant is found exactly where its bytes are. -/
  position?_iff : ∀ v i, t.position? v = some i ↔ t.entries[i]? = some v.toBytes
  /-- Entries stand in the order in which positions were first given for them. -/
  entries : t.entries = (past.filterMap entered?).eraseDups.map Scalar.toBytes
  /-- Positions are given without gaps. -/
  lt_size_iff : ∀ i, i < t.size ↔ ∃ n, (.intern n, .position i) ∈ past
  /-- One position is given for two integers exactly if they are congruent. -/
  position_eq_iff : ∀ m n i j, (.intern m, .position i) ∈ past → (.intern n, .position j) ∈ past →
    (i = j ↔ m ≡ n [ZMOD modulus])
  /-- The constants can be read back, and each is where its position says. -/
  values : ∃ vs, t.values = .ok vs ∧
    ∀ n i, (.intern n, .position i) ∈ past → vs[i]? = some (Scalar.ofInt n)
  frozen_iff : t.frozen = true ↔ ∃ a, (.freeze, a) ∈ past
  /-- Whatever is done with the table, its constants stay where they are. -/
  prefix_after : ∀ ops, t.entries <+: (after perform t ops).entries
  /-- A constant of the table keeps its position. -/
  intern_old : ∀ n i, t.entries[i]? = some (Scalar.ofInt n).toBytes →
    t.perform (.intern n) = (.position i, t)
  /-- A new constant is appended, while the table is not frozen. -/
  intern_new : ∀ n, (Scalar.ofInt n).toBytes ∉ t.entries → t.frozen = false →
    t.perform (.intern n) =
      (.position t.size, { t with entries := t.entries ++ [(Scalar.ofInt n).toBytes] })
  intern_frozen : ∀ n, (Scalar.ofInt n).toBytes ∉ t.entries → t.frozen = true →
    t.perform (.intern n) = (.refusal (.frozenTable (.ofInt n)), t)
  indexOf_old : ∀ n i, t.entries[i]? = some (Scalar.ofInt n).toBytes →
    t.perform (.indexOf n) = (.position i, t)
  indexOf_new : ∀ n, (Scalar.ofInt n).toBytes ∉ t.entries →
    t.perform (.indexOf n) = (.refusal (.unknownConstant (.ofInt n)), t)
  /-- A frozen table stays as it is, whatever is done with it. -/
  after_of_frozen : t.frozen = true → ∀ ops, after perform t ops = t

theorem Records.lawful (h : t.Records past) : t.Lawful past where
  nodup := h.lists.nodup
  canonical := h.lists.isCanonical
  position?_iff _ _ := position?_eq_some_iff h.lists.nodup
  entries := h.lists.entries
  lt_size_iff _ := h.lt_size_iff
  position_eq_iff _ _ _ _ hm hn := h.position_eq_iff hm hn
  values := ⟨_, h.lists.values, fun _ _ hmem => h.value hmem⟩
  frozen_iff := h.frozen
  prefix_after ops := (reaches_after t ops).prefix_entries
  intern_old n i hi := by
    simp [ConstantTable.perform, ConstantTable.intern, (position?_eq_some_iff h.lists.nodup).2 hi,
      Answer.ofExcept]
  intern_new n hnew hfrozen := by
    simp [ConstantTable.perform, ConstantTable.intern, position?_eq_none_iff.2 hnew, hfrozen,
      Answer.ofExcept]
  intern_frozen n hnew hfrozen := by
    simp [ConstantTable.perform, ConstantTable.intern, position?_eq_none_iff.2 hnew, hfrozen,
      Answer.ofExcept]
  indexOf_old n i hi := by
    simp [ConstantTable.perform, ConstantTable.indexOf, (position?_eq_some_iff h.lists.nodup).2 hi,
      Answer.ofExcept]
  indexOf_new n hnew := by
    simp [ConstantTable.perform, ConstantTable.indexOf, position?_eq_none_iff.2 hnew,
      Answer.ofExcept]
  after_of_frozen hfrozen ops := ConstantTable.after_of_frozen hfrozen ops

end ConstantTable

end Plonkish
