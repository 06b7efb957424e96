import Plonkish.Proofs.Circuit.Calls
import Plonkish.Proofs.Outline
import Plonkish.Proofs.Wire.Outline

/-!
# Circuits that are written by calls

In a circuit that is written by builder calls, whatever is registered is registered once and in the
right list, and whatever is referred to is there. Such a circuit has an outline at every size, and
reading recovers the outline from its artifact.

* `Circuit.Has`: a column of the circuit, with the phase that is recorded for it.
* `Circuit.IsConsistent`, `Session.IsConsistent`: what every call preserves.
* `Session.IsConsistent.after`: one call; `Session.isConsistent_run`: a run of calls.
* `Session.outline_of_run`: what is written has an outline, which comes back from the wire.
-/

namespace Plonkish

/-! ## What a circuit has -/

theorem Column.HasPhaseIn.mono {column : Column} {phases phases' : List Int}
    (h : phases <+: phases') (hcolumn : column.HasPhaseIn phases) : column.HasPhaseIn phases' := by
  obtain ⟨kind, index, phase⟩ := column
  cases kind with
  | advice =>
    obtain ⟨hindex, hphase⟩ := hcolumn
    obtain ⟨more, rfl⟩ := h
    obtain ⟨hlt, -⟩ := List.getElem?_eq_some_iff.1 hphase
    exact ⟨hindex, (List.getElem?_append_left hlt).trans hphase⟩
  | fixed => exact hcolumn
  | inst => exact hcolumn

namespace Circuit

variable {c c' : Circuit} {call : Call} {column : Column} {l : Leaf}

/-- A column of the circuit: its index is inside its kind, and its phase is the recorded one. -/
structure Has (c : Circuit) (column : Column) : Prop where
  index_nonneg : 0 ≤ column.index
  index_lt : column.index < c.columnCount column.kind
  phase : column.HasPhaseIn c.advicePhases

theorem Has.mono (h : c'.Extends c) (hc : c.Has column) : c'.Has column where
  index_nonneg := hc.index_nonneg
  index_lt := Int.lt_of_lt_of_le hc.index_lt (h.columnCount column.kind)
  phase := hc.phase.mono h.advicePhases

theorem queries_ofCircuit (c : Circuit) (kind : ColumnKind) :
    (VariableSpace.ofCircuit c).queries (.ofKind kind) = c.queriesOf kind := by
  cases kind <;> rfl

/-- An extended circuit has a larger space of variables. -/
theorem Extends.space (h : c'.Extends c) :
    (VariableSpace.ofCircuit c').Extends (VariableSpace.ofCircuit c) where
  queries cls := by
    cases cls with
    | advice => exact h.queriesOf .advice
    | fixed => exact h.queriesOf .fixed
    | inst => exact h.queriesOf .inst
    | challenge => exact List.prefix_rfl
  challenges := Int.ofNat_le.2 h.challengePhases.length_le

/-! ## One call -/

/-- Nothing is registered twice or in the wrong list, and all that is referred to is there. -/
structure IsConsistent (c : Circuit) : Prop where
  columnCount_nonneg : ∀ kind, 0 ≤ c.columnCount kind
  nodup_queriesOf : ∀ kind, (c.queriesOf kind).Nodup
  nodup_permutation : c.permutation.Nodup
  kind : ∀ kind, ∀ q ∈ c.queriesOf kind, q.column.kind = kind
  columns : ∀ column ∈ c.columns, c.Has column
  leaves : ∀ e ∈ c.exprs, ∀ l ∈ e.leaves, (VariableSpace.ofCircuit c).Finds l

theorem isConsistent_empty : (empty : Circuit).IsConsistent where
  columnCount_nonneg := by
    rintro ⟨⟩ <;> exact Int.le_refl 0
  nodup_queriesOf := by
    rintro ⟨⟩ <;> exact List.nodup_nil
  nodup_permutation := List.nodup_nil
  kind := by
    rintro ⟨⟩ <;> exact List.forall_mem_nil _
  columns := List.forall_mem_nil _
  leaves := List.forall_mem_nil _

/-- The phase of a column that a call hands out is recorded. -/
theorem hasPhaseIn_of_handle? (h : c.handle? call = some (.column column)) :
    column.HasPhaseIn (c.after call).advicePhases := by
  cases call with
  | allocAdvice phase =>
    cases h
    refine ⟨Int.natCast_nonneg _, ?_⟩
    show (c.advicePhases ++ [phase])[((c.advicePhases.length : Int)).toNat]? = some phase
    rw [Int.toNat_natCast, List.getElem?_concat_length]
  | allocFixed =>
    cases h
    rfl
  | allocInst =>
    cases h
    rfl
  | _ => cases h

/-- A column that a call hands out is in the circuit after the call. -/
theorem has_of_handle? (hc : c.IsConsistent) (h : c.handle? call = some (.column column)) :
    (c.after call).Has column := by
  have hphase := hasPhaseIn_of_handle? h
  -- The index of a new column is the number of columns before the call.
  have hlt : ∀ kind, call.allocates? = some kind →
      c.columnCount kind < (c.after call).columnCount kind := by
    intro kind hkind
    rw [columnCount_after, if_pos hkind]
    omega
  cases call with
  | allocAdvice phase =>
    cases h
    exact ⟨Int.natCast_nonneg _, hlt .advice rfl, hphase⟩
  | allocFixed =>
    cases h
    exact ⟨hc.columnCount_nonneg .fixed, hlt .fixed rfl, hphase⟩
  | allocInst =>
    cases h
    exact ⟨hc.columnCount_nonneg .inst, hlt .inst rfl, hphase⟩
  | _ => cases h

/-- A leaf that a call hands out is found in the circuit after the call. -/
theorem finds_of_handle? (h : c.handle? call = some (.leaf l)) :
    (VariableSpace.ofCircuit (c.after call)).Finds l := by
  cases call with
  | allocChallenge phase =>
    cases h
    refine ⟨Int.natCast_nonneg _, ?_⟩
    show (c.challengePhases.length : Int) < (c.challengePhases ++ [phase]).length
    rw [List.length_append, List.length_singleton]
    omega
  | query column rotation =>
    cases h
    show _ ∈ (VariableSpace.ofCircuit (c.register _)).queries (.ofKind column.kind)
    rw [queries_ofCircuit, queriesOf_register, if_pos rfl]
    exact mem_enter.2 (.inr rfl)
  | _ => cases h

/-- A call keeps a circuit consistent if it is passed columns and leaves of the circuit. -/
theorem IsConsistent.after (hc : c.IsConsistent) (hcolumns : ∀ column ∈ call.columns, c.Has column)
    (hexprs : ∀ e ∈ call.exprs, ∀ l ∈ e.leaves, (VariableSpace.ofCircuit c).Finds l) :
    (c.after call).IsConsistent where
  columnCount_nonneg kind :=
    Int.le_trans (hc.columnCount_nonneg kind) ((c.extends_after call).columnCount kind)
  nodup_queriesOf kind := nodup_queriesOf_after (hc.nodup_queriesOf kind)
  nodup_permutation := nodup_permutation_after hc.nodup_permutation
  kind kind q hq := by
    rcases mem_queriesOf_after hq with hq | ⟨-, hkind⟩
    · exact hc.kind kind q hq
    · exact hkind
  -- What was registered before and what the call brings are both in the circuit before the call, and
  -- the circuit after it extends that one.
  columns column h := by
    rcases mem_columns_after h with h | h
    · exact (hc.columns column h).mono (c.extends_after call)
    · exact (hcolumns column h).mono (c.extends_after call)
  leaves e he l hl := by
    rcases mem_exprs_after.1 he with he | he
    · exact (c.extends_after call).space.finds (hc.leaves e he l hl)
    · exact (c.extends_after call).space.finds (hexprs e he l hl)

end Circuit

/-! ## Runs -/

namespace Session

variable {s : Session} {call : Call} {calls : List Call}

/-- The circuit is consistent, and what was handed out is in it. -/
structure IsConsistent (s : Session) : Prop where
  circuit : s.circuit.IsConsistent
  columns : ∀ column, .column column ∈ s.handles → s.circuit.Has column
  leaves : ∀ l, .leaf l ∈ s.handles → (VariableSpace.ofCircuit s.circuit).Finds l

theorem isConsistent_empty : ({} : Session).IsConsistent where
  circuit := Circuit.isConsistent_empty
  columns _ h := nomatch h
  leaves _ h := nomatch h

/-- What was handed out before a call, or by it. -/
theorem mem_handles_after {handle : Handle} (h : handle ∈ (s.after call).handles) :
    handle ∈ s.handles ∨ s.circuit.handle? call = some handle := by
  rwa [after, List.mem_append, Option.mem_toList] at h

/-- Leaves that were handed out are found, and so are literals. -/
theorem IsConsistent.finds (h : s.IsConsistent) {l : Leaf} (hl : l.IsFrom s.handles) :
    (VariableSpace.ofCircuit s.circuit).Finds l := by
  cases l with
  | constant v => trivial
  | query q => exact h.leaves _ hl
  | challenge i phase => exact h.leaves _ hl
  | selector i => exact h.leaves _ hl

/-- A call that is passed only what was handed out keeps a session consistent. -/
theorem IsConsistent.after (h : s.IsConsistent) (hcall : call.IsAllowed s.handles) :
    (s.after call).IsConsistent where
  circuit := by
    obtain ⟨hcolumns, hexprs⟩ := hcall
    refine h.circuit.after (fun column hcolumn => ?_) fun e he l hl => ?_
    · exact h.columns column (hcolumns column hcolumn)
    · exact h.finds (hexprs e he l hl)
  columns column hcolumn := by
    rcases mem_handles_after hcolumn with hcolumn | hcolumn
    · exact (h.columns column hcolumn).mono (s.circuit.extends_after call)
    · exact Circuit.has_of_handle? h.circuit hcolumn
  leaves l hl := by
    rcases mem_handles_after hl with hl | hl
    · exact (s.circuit.extends_after call).space.finds (h.leaves l hl)
    · exact Circuit.finds_of_handle? hl

/-- After an allowed run from a consistent session everything is consistent. -/
theorem isConsistent_run (hs : s.IsConsistent) (hallows : s.Allows calls) :
    (s.run calls).IsConsistent :=
  run_induction (fun _ _ h hcall => h.after hcall) hs hallows

end Session

/-! ## Outlines -/

namespace Outline

variable {k : Int} {c : Circuit} {key : VerifyingKey} {o : Outline}

/-- The constants of an outline are canonical forms. -/
theorem isCanonical_of_ofCircuit (h : ofCircuit k c key = .ok o) :
    ∀ b ∈ o.constants, Scalar.IsCanonical b :=
  (enters_of_ofCircuit h).1.lists.isCanonical

/-- The outline of a circuit with the recorded phases and of a key with commitments of one size
can be told from what is written. -/
theorem isRecoverable_of_ofCircuit {size : Int} (h : ofCircuit k c key = .ok o)
    (hphases : ∀ column ∈ c.columns, column.HasPhaseIn c.advicePhases)
    (hsizes : ∀ b ∈ key.fixedCommitments ++ key.permutationCommitments, (b.length : Int) = size) :
    o.IsRecoverable size := by
  have hconstants := isCanonical_of_ofCircuit h
  obtain ⟨-, -, -, parts, t, -, rfl⟩ := ofCircuit_eq_ok_iff.1 h
  exact ⟨hphases, hsizes, hconstants⟩

end Outline

namespace Session

/-- After an allowed run from nothing the circuit is consistent. It has an outline at each size and
under each key that fit, and reading recovers the outline from its artifact, without its names. -/
theorem outline_of_run {calls : List Call} (hallows : ({} : Session).Allows calls) :
    (run {} calls).circuit.IsConsistent ∧
      ∀ (k : Int) (key : VerifyingKey), 0 ≤ k ∧ k ≤ 255 →
        (∀ phase ∈ (run {} calls).circuit.advicePhases ++ (run {} calls).circuit.challengePhases,
          0 ≤ phase ∧ phase ≤ 255) →
        key.transcript.length = Scalar.byteSize →
          ∃ o, Outline.ofCircuit k (run {} calls).circuit key = .ok o ∧
            ((∀ b ∈ key.fixedCommitments ++ key.permutationCommitments,
                b.length = Outline.commitmentSize) →
              ∀ a, o.encode = .ok a →
                Outline.decode Outline.commitmentSize a = .ok o.anonymous) := by
  have hc := (isConsistent_run isConsistent_empty hallows).circuit
  refine ⟨hc, fun k key hk hphases hlength => ?_⟩
  obtain ⟨o, ho⟩ := Outline.exists_ofCircuit_iff.2 ⟨hk, hphases, hlength, hc.leaves⟩
  refine ⟨o, ho, fun hsizes a ha => ?_⟩
  -- Phases are not on the wire; they are the recorded ones, from which reading takes them.
  refine Outline.decode_of_encode ha (by decide) ?_
  exact Outline.isRecoverable_of_ofCircuit ho (fun column h => (hc.columns column h).phase)
    fun b hb => congrArg Int.ofNat (hsizes b hb)

/-- A run that refers to columns and leaves again after others have been allocated. -/
def interleaved : List Call :=
  let current : Query := ⟨⟨.advice, 1, 1⟩, ⟨0, true⟩⟩
  let previous : Query := ⟨⟨.advice, 1, 1⟩, ⟨1, false⟩⟩
  let selector : Query := ⟨⟨.fixed, 0, 0⟩, ⟨0, true⟩⟩
  [.allocAdvice 0, .allocAdvice 1, .query current.column previous.rotation, .allocFixed,
    .enableEquality current.column, .query selector.column selector.rotation,
    .query current.column current.rotation, .allocInst, .allocChallenge 1,
    .addGate .null [.product (.query selector)
      (.sum (.query current) (.neg (.product (.constant 2) (.query previous))))],
    .enableEquality ⟨.inst, 0, 0⟩, .query current.column previous.rotation,
    .enableEquality current.column,
    .addLookup .null [(.product (.leaf (.challenge 0 1)) (.query previous), .constant 3)]]

/-- A key with commitments to the fixed column and to both columns under the permutation
argument. -/
def interleavedKey : VerifyingKey where
  fixedCommitments := [List.replicate Outline.commitmentSize 1]
  permutationCommitments := [List.replicate Outline.commitmentSize 2,
    List.replicate Outline.commitmentSize 3]

theorem outline_of_run_interleaved :
    ({} : Session).Allows interleaved ∧
      ∃ o a, Outline.ofCircuit 4 (run {} interleaved).circuit interleavedKey = .ok o ∧
        o.encode = .ok a ∧ Outline.decode Outline.commitmentSize a = .ok o.anonymous := by
  have hallows : ({} : Session).Allows interleaved := by decide +kernel
  obtain ⟨o, ho, hread⟩ := (outline_of_run hallows).2 4 interleavedKey (by decide)
    (by decide +kernel) (by decide)
  have hwrite : ((Outline.ofCircuit 4 (run {} interleaved).circuit interleavedKey).toOption.bind
      fun o => o.encode.toOption).isSome := by decide +kernel
  rw [ho] at hwrite
  obtain ⟨a, ha⟩ : ∃ a, o.encode = .ok a := by
    cases h : o.encode with
    | ok a => exact ⟨a, rfl⟩
    | error e =>
      rw [Except.toOption, Option.bind_some, h] at hwrite
      cases hwrite
  exact ⟨hallows, o, a, ho, ha, hread (by decide) a ha⟩

end Session

end Plonkish
