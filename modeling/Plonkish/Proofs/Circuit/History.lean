import Mathlib.Data.Finset.Card
import Plonkish.Proofs.Circuit.Written
import Plonkish.Proofs.List

/-!
# The history of queries

A circuit keeps each query once and counts the queries to a column by its index alone. If columns
are queried only as they were handed out, and at signed offsets, that counts the distinct offsets
which were ever asked for.

* `Session.mem_queriesOf_run`: after a run, the queries that it asked for are registered and no
  others.
* `Session.hasPhaseIn_run`: an index names at most one of the advice columns that a run hands out.
* `Session.adviceQueryCount_run`: the queries to a column are counted by their offsets.
* `Session.maxQueries_of_run`: so is the largest number of queries to one column.
-/

namespace Plonkish

/-! ## Asking for queries -/

namespace Call

/-- The query that a call asks for. -/
def query? : Call → Option Query
  | .query column rotation => some ⟨column, rotation⟩
  | _ => none

/-- The signed offsets at which calls query a column, in order and with repetitions. -/
def offsets (calls : List Call) (column : Column) : List Int :=
  ((calls.filterMap query?).filter (·.column = column)).map (·.rotation.toInt)

/-- A query is to a column that is handed out, at a signed offset. Other calls are passed
anything. -/
def QueriesHandles (handles : List Handle) : Call → Prop
  | .query column rotation => .column column ∈ handles ∧ rotation = .ofInt rotation.toInt
  | _ => True

instance (handles : List Handle) : ∀ call : Call, Decidable (call.QueriesHandles handles)
  | .query column rotation =>
    inferInstanceAs (Decidable (.column column ∈ handles ∧ rotation = .ofInt rotation.toInt))
  | .allocAdvice _ | .allocFixed | .allocInst | .allocChallenge _ | .enableEquality _
  | .addGate _ _ | .addLookup _ _ | .addShuffle _ _ => .isTrue trivial

theorem mem_offsets_iff {calls : List Call} {column : Column} {offset : Int} :
    offset ∈ offsets calls column ↔
      ∃ q ∈ calls.filterMap query?, q.column = column ∧ q.rotation.toInt = offset := by
  simp only [offsets, List.mem_map, List.mem_filter, decide_eq_true_eq, and_assoc]

end Call

/-- Rotations by signed offsets are told apart by their offsets. -/
theorem Rotation.eq_of_toInt_eq {r r' : Rotation} (hr : r = .ofInt r.toInt)
    (hr' : r' = .ofInt r'.toInt) (h : r.toInt = r'.toInt) : r = r' := by
  rw [hr, hr', h]

/-- An index names one advice column, if its phase is the one that is recorded. -/
theorem Column.HasPhaseIn.eq_of_index {phases : List Int} {a b : Column} (ha : a.HasPhaseIn phases)
    (hb : b.HasPhaseIn phases) (hkind : a.kind = .advice) (hkind' : b.kind = .advice)
    (hindex : a.index = b.index) : a = b := by
  obtain ⟨kind, i, phase⟩ := a
  obtain ⟨kind', i', phase'⟩ := b
  obtain rfl : kind = .advice := hkind
  obtain rfl : kind' = .advice := hkind'
  obtain rfl : i = i' := hindex
  obtain ⟨-, hphase⟩ := ha
  obtain ⟨-, hphase'⟩ := hb
  obtain rfl := Option.some.inj (hphase.symm.trans hphase')
  rfl

/-- The signed offsets of the advice queries to a column. -/
def Circuit.adviceOffsets (c : Circuit) (column : Column) : List Int :=
  (c.adviceQueries.filter (·.column = column)).map (·.rotation.toInt)

theorem Circuit.mem_queriesOf_after_iff {c : Circuit} {call : Call} {kind : ColumnKind}
    {q : Query} :
    q ∈ (c.after call).queriesOf kind ↔
      q ∈ c.queriesOf kind ∨ call.query? = some q ∧ q.column.kind = kind := by
  rw [queriesOf_after]
  cases call with
  | query column rotation =>
    dsimp only
    split
    · next hkind =>
      rw [mem_enter]
      refine or_congr_right ⟨?_, ?_⟩
      · rintro rfl
        exact ⟨rfl, hkind⟩
      · rintro ⟨⟨⟩, -⟩
        rfl
    · next hkind =>
      refine (or_iff_left ?_).symm
      rintro ⟨⟨⟩, hkind'⟩
      exact hkind hkind'
  | _ => exact (or_iff_left (by rintro ⟨⟨⟩, -⟩)).symm

/-! ## Runs -/

namespace Session

variable {s : Session} {calls : List Call} {kind : ColumnKind} {q : Query} {column : Column}

/-- The advice columns that were handed out. -/
def adviceColumns (s : Session) : List Column :=
  s.handles.filterMap fun
    | .column column => if column.kind = .advice then some column else none
    | .leaf _ => none

theorem mem_adviceColumns_iff :
    column ∈ s.adviceColumns ↔ .column column ∈ s.handles ∧ column.kind = .advice := by
  rw [adviceColumns, List.mem_filterMap]
  constructor
  · rintro ⟨handle, hhandle, h⟩
    cases handle with
    | column column' =>
      dsimp only at h
      split at h
      · next hkind =>
        cases h
        exact ⟨hhandle, hkind⟩
      · cases h
    | leaf l => cases h
  · rintro ⟨hhandle, hkind⟩
    exact ⟨_, hhandle, if_pos hkind⟩

/-- A run registers the queries that it asks for. -/
theorem mem_queriesOf_run (kind : ColumnKind) (s : Session) (calls : List Call) :
    q ∈ (s.run calls).circuit.queriesOf kind ↔
      q ∈ s.circuit.queriesOf kind ∨ q ∈ calls.filterMap Call.query? ∧ q.column.kind = kind := by
  induction calls generalizing s with
  | nil => exact (or_iff_left (by rintro ⟨⟨⟩, -⟩)).symm
  | cons call calls ih =>
    rw [show s.run (call :: calls) = (s.after call).run calls from rfl, ih, List.mem_filterMap,
      List.mem_filterMap, List.exists_mem_cons_iff, or_and_right, ← or_assoc]
    exact or_congr_left Circuit.mem_queriesOf_after_iff

theorem nodup_queriesOf_run (kind : ColumnKind) (h : (s.circuit.queriesOf kind).Nodup) :
    ((s.run calls).circuit.queriesOf kind).Nodup := by
  induction calls generalizing s with
  | nil => exact h
  | cons call calls ih => exact ih (Circuit.nodup_queriesOf_after h)

/-- The columns that are handed out keep the phases that are recorded for them. -/
theorem hasPhaseIn_run (calls : List Call)
    (h : ∀ column, .column column ∈ s.handles → column.HasPhaseIn s.circuit.advicePhases) :
    ∀ column, .column column ∈ (s.run calls).handles →
      column.HasPhaseIn (s.run calls).circuit.advicePhases := by
  induction calls generalizing s with
  | nil => exact h
  | cons call calls ih =>
    refine ih fun column hcolumn => ?_
    rcases mem_handles_after hcolumn with hcolumn | hcolumn
    · exact (h column hcolumn).mono (s.circuit.extends_after call).advicePhases
    · exact Circuit.hasPhaseIn_of_handle? hcolumn

section Empty

theorem mem_adviceQueries_iff :
    q ∈ (run {} calls).circuit.adviceQueries ↔
      q ∈ calls.filterMap Call.query? ∧ q.column.kind = .advice := by
  refine (mem_queriesOf_run .advice {} calls).trans (or_iff_right ?_)
  exact List.not_mem_nil

/-- The offsets at which an advice column has registered queries are those at which it was
queried. -/
theorem mem_adviceOffsets_iff (hkind : column.kind = .advice) {offset : Int} :
    offset ∈ (run {} calls).circuit.adviceOffsets column ↔
      offset ∈ Call.offsets calls column := by
  simp only [Circuit.adviceOffsets, Call.mem_offsets_iff, List.mem_map, List.mem_filter,
    decide_eq_true_eq, mem_adviceQueries_iff]
  constructor
  · rintro ⟨q, ⟨⟨hasked, -⟩, hq⟩, hoffset⟩
    exact ⟨q, hasked, hq, hoffset⟩
  · rintro ⟨q, hasked, rfl, hoffset⟩
    exact ⟨q, ⟨⟨hasked, hkind⟩, rfl⟩, hoffset⟩

variable (hcalls : ∀ call ∈ calls, call.QueriesHandles (run {} calls).handles)

include hcalls

/-- What was asked for is a query to a column that was handed out, at a signed offset. -/
theorem queriesHandles_of_mem (hq : q ∈ calls.filterMap Call.query?) :
    .column q.column ∈ (run {} calls).handles ∧ q.rotation = .ofInt q.rotation.toInt := by
  obtain ⟨call, hcall, hsome⟩ := List.mem_filterMap.1 hq
  have hown := hcalls call hcall
  cases call with
  | query column rotation =>
    cases hsome
    exact hown
  | _ => cases hsome

/-- Advice queries to one index are to one column, as all columns of queries were handed out. -/
theorem index_eq_iff_of_mem (hcolumn : column ∈ (run {} calls).adviceColumns)
    (hq : q ∈ (run {} calls).circuit.adviceQueries) :
    q.column.index = column.index ↔ q.column = column := by
  obtain ⟨hhandle, hkind⟩ := mem_adviceColumns_iff.1 hcolumn
  obtain ⟨hasked, hadvice⟩ := mem_adviceQueries_iff.1 hq
  have hphases := hasPhaseIn_run (s := {}) calls nofun
  have hown := (queriesHandles_of_mem hcalls hasked).1
  refine ⟨fun h => ?_, fun h => h ▸ rfl⟩
  exact (hphases _ hown).eq_of_index (hphases _ hhandle) hadvice hkind h

/-- Registered queries to one column differ in their offsets. -/
theorem nodup_adviceOffsets_run : ((run {} calls).circuit.adviceOffsets column).Nodup := by
  have hnodup : (run {} calls).circuit.adviceQueries.Nodup :=
    nodup_queriesOf_run .advice List.nodup_nil
  refine (hnodup.filter _).map_on fun q hq q' hq' h => ?_
  obtain ⟨hq, hsame⟩ := List.mem_filter.1 hq
  obtain ⟨hq', hsame'⟩ := List.mem_filter.1 hq'
  have hsigned := (queriesHandles_of_mem hcalls (mem_adviceQueries_iff.1 hq).1).2
  have hsigned' := (queriesHandles_of_mem hcalls (mem_adviceQueries_iff.1 hq').1).2
  have hcolumns : q.column = q'.column :=
    (of_decide_eq_true hsame).trans (of_decide_eq_true hsame').symm
  exact congrArg₂ Query.mk hcolumns (Rotation.eq_of_toInt_eq hsigned hsigned' h)

/-- The queries to a column that was handed out are as many as the distinct offsets at which it was
queried. -/
theorem adviceQueryCount_run (hcolumn : column ∈ (run {} calls).adviceColumns) :
    (run {} calls).circuit.adviceQueryCount column.index =
      (Call.offsets calls column).toFinset.card := by
  have hfilter : (run {} calls).circuit.adviceQueries.filter (·.column.index = column.index) =
      (run {} calls).circuit.adviceQueries.filter (·.column = column) :=
    List.filter_congr fun q hq => decide_eq_decide.2 (index_eq_iff_of_mem hcalls hcolumn hq)
  have hsame : ((run {} calls).circuit.adviceOffsets column).toFinset =
      (Call.offsets calls column).toFinset := by
    ext offset
    rw [List.mem_toFinset, List.mem_toFinset]
    exact mem_adviceOffsets_iff (mem_adviceColumns_iff.1 hcolumn).2
  calc (run {} calls).circuit.adviceQueryCount column.index
      = ((run {} calls).circuit.adviceQueries.filter (·.column.index = column.index)).length :=
        List.countP_eq_length_filter
    _ = ((run {} calls).circuit.adviceOffsets column).length := by
        rw [hfilter, Circuit.adviceOffsets, List.length_map]
    _ = ((run {} calls).circuit.adviceOffsets column).toFinset.card :=
        (List.toFinset_card_of_nodup (nodup_adviceOffsets_run hcalls)).symm
    _ = (Call.offsets calls column).toFinset.card := by rw [hsame]

end Empty

/-- After a run of calls from the empty circuit whose queries are to columns that the run hands out,
at signed offsets, the largest number of queries to one column is the largest number of distinct
offsets at which one of the advice columns was queried. -/
theorem maxQueries_of_run {calls : List Call}
    (hcalls : ∀ call ∈ calls, call.QueriesHandles (run {} calls).handles) :
    (run {} calls).circuit.maxQueries =
      ((run {} calls).adviceColumns.map fun column =>
        (Call.offsets calls column).toFinset.card).foldl max 0 := by
  refine foldl_max_eq ?_ ?_
  · intro n hn
    obtain ⟨q, hq, rfl⟩ := List.mem_map.1 hn
    obtain ⟨hasked, hkind⟩ := mem_adviceQueries_iff.1 hq
    have hcolumn := mem_adviceColumns_iff.2 ⟨(queriesHandles_of_mem hcalls hasked).1, hkind⟩
    rw [adviceQueryCount_run hcalls hcolumn]
    exact .inr (List.mem_map_of_mem hcolumn)
  · intro n hn
    obtain ⟨column, hcolumn, rfl⟩ := List.mem_map.1 hn
    -- A column that was never queried counts nothing; any other is the column of some query.
    rcases (Call.offsets calls column).toFinset.eq_empty_or_nonempty with hnone | ⟨offset, hmem⟩
    · exact .inl (Finset.card_eq_zero.2 hnone)
    · obtain ⟨q, hasked, rfl, -⟩ := Call.mem_offsets_iff.1 (List.mem_toFinset.1 hmem)
      have hkind := (mem_adviceColumns_iff.1 hcolumn).2
      rw [← adviceQueryCount_run hcalls hcolumn]
      exact .inr (List.mem_map_of_mem (mem_adviceQueries_iff.2 ⟨hasked, hkind⟩))

/-- A run that queries a column at three offsets, some of them twice, and others less often. -/
def revisiting : List Call :=
  let a : Column := ⟨.advice, 0, 0⟩
  let b : Column := ⟨.advice, 1, 1⟩
  let f : Column := ⟨.fixed, 0, 0⟩
  [.allocAdvice 0, .query a (.ofInt 1), .allocFixed, .query f (.ofInt 0), .query f (.ofInt 1),
    .query f (.ofInt 2), .query f (.ofInt 3), .query a (.ofInt (-1)), .allocAdvice 1,
    .query b (.ofInt 0), .query a (.ofInt 1), .enableEquality ⟨.inst, 7, 0⟩, .query a (.ofInt 0),
    .allocAdvice 0, .query a (.ofInt (-1)), .query b (.ofInt 2)]

theorem maxQueries_of_run_revisiting :
    (∀ call ∈ revisiting, call.QueriesHandles (run {} revisiting).handles) ∧
      (run {} revisiting).circuit.maxQueries = 3 := by
  have hcalls : ∀ call ∈ revisiting, call.QueriesHandles (run {} revisiting).handles := by
    decide +kernel
  exact ⟨hcalls, (maxQueries_of_run hcalls).trans (by decide +kernel)⟩

end Session

end Plonkish
