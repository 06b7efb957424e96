import Mathlib.Data.List.Nodup
import Mathlib.Tactic.Tauto
import Plonkish.Circuit.Builder
import Plonkish.Proofs.Expr
import Plonkish.Proofs.Lowering.Circuit

/-!
# Runs of builder calls

A circuit is written by calls, one after the other. Some of them hand out a column or a leaf, which
may be passed to any later call. Nothing that was registered is ever dropped or moved, so what was
handed out stays good.

* `Circuit.after`, `Circuit.handle?`: the circuit after a call, and what the call hands out.
* `Session.run`, `Session.Allows`: runs of calls, and those that pass on only what was handed out.
* `Circuit.extends_after`: a call keeps what is registered, in its place.
* `Circuit.columnCount_after`, `Circuit.queriesOf_after`, `Circuit.permutation_after`: what a call
  adds to the columns of a kind, to a list of queries and to the columns under the permutation
  argument.
* `Circuit.mem_columns_after`, `Circuit.mem_exprs_after`: a call registers only what is passed to it.
* `Session.run_induction`: what every allowed call preserves holds after every allowed run.
-/

namespace Plonkish

/-- A call of the builder. -/
inductive Call
  | allocAdvice (phase : Int)
  | allocFixed
  | allocInst
  | allocChallenge (phase : Int)
  | enableEquality (column : Column)
  | query (column : Column) (rotation : Rotation)
  | addGate (name : Json) (polys : List Expr)
  | addLookup (name : Json) (pairs : List (Expr × Expr))
  | addShuffle (name : Json) (pairs : List (Expr × Expr))

/-- What a call hands out for use in later ones. -/
inductive Handle
  | column (c : Column)
  | leaf (l : Leaf)
  deriving DecidableEq

namespace Circuit

/-- The circuit after a call. -/
def after (c : Circuit) : Call → Circuit
  | .allocAdvice phase => (c.allocAdvice phase).2
  | .allocFixed => c.allocFixed.2
  | .allocInst => c.allocInst.2
  | .allocChallenge phase => (c.allocChallenge phase).2
  | .enableEquality column => c.enableEquality column
  | .query column rotation => c.register ⟨column, rotation⟩
  | .addGate name polys => c.addGate name polys
  | .addLookup name pairs => c.addLookup name pairs
  | .addShuffle name pairs => c.addShuffle name pairs

/-- What a call hands out: a new column, a new challenge, or the query that it was asked for. -/
def handle? (c : Circuit) : Call → Option Handle
  | .allocAdvice phase => some (.column (c.allocAdvice phase).1)
  | .allocFixed => some (.column c.allocFixed.1)
  | .allocInst => some (.column c.allocInst.1)
  | .allocChallenge phase => some (.leaf (c.allocChallenge phase).1)
  | .query column rotation => some (.leaf (.query ⟨column, rotation⟩))
  | _ => none

end Circuit

/-! ## Allowed calls -/

/-- The columns that are passed to a call. -/
def Call.columns : Call → List Column
  | .enableEquality column => [column]
  | .query column _ => [column]
  | _ => []

/-- The expressions that are passed to a call. -/
def Call.exprs : Call → List Expr
  | .addGate _ polys => polys
  | .addLookup _ pairs => pairs.map (·.1) ++ pairs.map (·.2)
  | .addShuffle _ pairs => pairs.map (·.1) ++ pairs.map (·.2)
  | _ => []

/-- The kind of the column that a call allocates. -/
def Call.allocates? : Call → Option ColumnKind
  | .allocAdvice _ => some .advice
  | .allocFixed => some .fixed
  | .allocInst => some .inst
  | _ => none

/-- A leaf is a literal, or it was handed out. -/
def Leaf.IsFrom (handles : List Handle) : Leaf → Prop
  | .constant _ => True
  | l => .leaf l ∈ handles

instance (handles : List Handle) : ∀ l : Leaf, Decidable (l.IsFrom handles)
  | .constant _ => .isTrue trivial
  | .query q => inferInstanceAs (Decidable (.leaf (.query q) ∈ handles))
  | .challenge i phase => inferInstanceAs (Decidable (.leaf (.challenge i phase) ∈ handles))
  | .selector i => inferInstanceAs (Decidable (.leaf (.selector i) ∈ handles))

/-- A call is passed columns that were handed out, and expressions over literals and leaves that
were handed out. -/
def Call.IsAllowed (handles : List Handle) (call : Call) : Prop :=
  (∀ column ∈ call.columns, .column column ∈ handles) ∧
    ∀ e ∈ call.exprs, ∀ l ∈ e.leaves, l.IsFrom handles

instance (handles : List Handle) (call : Call) : Decidable (call.IsAllowed handles) :=
  inferInstanceAs (Decidable (_ ∧ _))

/-- The circuit that was written so far, and what was handed out. -/
structure Session where
  circuit : Circuit := .empty
  handles : List Handle := []

namespace Session

/-- The session after a call. -/
def after (s : Session) (call : Call) : Session :=
  ⟨s.circuit.after call, s.handles ++ (s.circuit.handle? call).toList⟩

/-- The session after some calls. -/
def run (s : Session) (calls : List Call) : Session := calls.foldl after s

/-- Every call is passed only what was handed out before it. -/
def Allows (s : Session) : List Call → Prop
  | [] => True
  | call :: calls => call.IsAllowed s.handles ∧ (s.after call).Allows calls

instance decidableAllows : ∀ (s : Session) (calls : List Call), Decidable (s.Allows calls)
  | _, [] => .isTrue trivial
  | s, call :: calls =>
    have := decidableAllows (s.after call) calls
    inferInstanceAs (Decidable (call.IsAllowed s.handles ∧ (s.after call).Allows calls))

/-- What holds of a session and is preserved by every allowed call holds after every allowed
run. -/
theorem run_induction {P : Session → Prop}
    (hstep : ∀ s call, P s → call.IsAllowed s.handles → P (s.after call)) {s : Session}
    {calls : List Call} (hs : P s) (hallows : s.Allows calls) : P (s.run calls) := by
  induction calls generalizing s with
  | nil => exact hs
  | cons call calls ih =>
    obtain ⟨hcall, hcalls⟩ := hallows
    exact ih (hstep s call hs hcall) hcalls

end Session

/-! ## Registering -/

section Enter

variable {α : Type} [DecidableEq α] {x y : α} {xs : List α}

/-- The list with an item behind it, unless the item is in it already. -/
def enter (x : α) (xs : List α) : List α := if x ∈ xs then xs else xs ++ [x]

theorem prefix_enter (x : α) (xs : List α) : xs <+: enter x xs := by
  unfold enter
  split
  · exact List.prefix_rfl
  · exact List.prefix_append xs [x]

theorem mem_enter : y ∈ enter x xs ↔ y ∈ xs ∨ y = x := by
  unfold enter
  split
  · next h =>
    constructor
    · exact .inl
    · rintro (hy | rfl)
      · exact hy
      · exact h
  · rw [List.mem_append, List.mem_singleton]

theorem nodup_enter (h : xs.Nodup) : (enter x xs).Nodup := by
  unfold enter
  split
  · exact h
  · next hx =>
    rw [← List.concat_eq_append]
    exact h.concat hx

end Enter

namespace Circuit

variable {c : Circuit} {call : Call} {kind : ColumnKind} {q : Query} {column : Column} {e : Expr}

theorem enableEquality_eq (c : Circuit) (column : Column) :
    c.enableEquality column = { c with permutation := enter column c.permutation } := by
  unfold enableEquality enter
  rw [Column.isIn_int]
  by_cases h : column ∈ c.permutation <;> simp [h]

/-- The query goes into the list of its column's kind. -/
theorem register_eq (c : Circuit) (q : Query) :
    c.register q =
      match q.column.kind with
      | .advice => { c with adviceQueries := enter q c.adviceQueries }
      | .fixed => { c with fixedQueries := enter q c.fixedQueries }
      | .inst => { c with instQueries := enter q c.instQueries } := by
  unfold register enter
  simp only [Query.position?_int, List.isSome_idxOf?]
  cases q.column.kind with
  | advice => by_cases h : q ∈ c.adviceQueries <;> simp [queriesOf, h]
  | fixed => by_cases h : q ∈ c.fixedQueries <;> simp [queriesOf, h]
  | inst => by_cases h : q ∈ c.instQueries <;> simp [queriesOf, h]

theorem queriesOf_register (c : Circuit) (q : Query) (kind : ColumnKind) :
    (c.register q).queriesOf kind =
      if q.column.kind = kind then enter q (c.queriesOf kind) else c.queriesOf kind := by
  rw [register_eq]
  cases q.column.kind <;> cases kind <;> rfl

/-! ## Extensions -/

/-- The number of columns of a kind. -/
def columnCount (c : Circuit) : ColumnKind → Int
  | .advice => c.advicePhases.length
  | .fixed => c.fixedCount
  | .inst => c.instCount

/-- What one circuit has registered is registered in another, in the same places. -/
structure Extends (c' c : Circuit) : Prop where
  columnCount : ∀ kind, c.columnCount kind ≤ c'.columnCount kind
  advicePhases : c.advicePhases <+: c'.advicePhases
  challengePhases : c.challengePhases <+: c'.challengePhases
  queriesOf : ∀ kind, c.queriesOf kind <+: c'.queriesOf kind
  permutation : c.permutation <+: c'.permutation
  gates : c.gates <+: c'.gates
  lookups : c.lookups <+: c'.lookups
  shuffles : c.shuffles <+: c'.shuffles

theorem Extends.refl (c : Circuit) : c.Extends c where
  columnCount _ := Int.le_refl _
  advicePhases := List.prefix_rfl
  challengePhases := List.prefix_rfl
  queriesOf _ := List.prefix_rfl
  permutation := List.prefix_rfl
  gates := List.prefix_rfl
  lookups := List.prefix_rfl
  shuffles := List.prefix_rfl

theorem extends_register (c : Circuit) (q : Query) : (c.register q).Extends c := by
  have hqueries : ∀ kind, c.queriesOf kind <+: (c.register q).queriesOf kind := by
    intro kind
    rw [queriesOf_register]
    split
    · exact prefix_enter q _
    · exact List.prefix_rfl
  rw [register_eq] at hqueries ⊢
  generalize q.column.kind = target at hqueries ⊢
  cases target with
  | advice => exact { Extends.refl c with queriesOf := hqueries }
  | fixed => exact { Extends.refl c with queriesOf := hqueries }
  | inst => exact { Extends.refl c with queriesOf := hqueries }

/-- A call allocates at most one column. -/
theorem columnCount_after (c : Circuit) (call : Call) (kind : ColumnKind) :
    (c.after call).columnCount kind =
      c.columnCount kind + if call.allocates? = some kind then 1 else 0 := by
  cases call with
  | allocAdvice phase => cases kind <;> simp [columnCount, after, allocAdvice, Call.allocates?]
  | allocFixed => cases kind <;> simp [columnCount, after, allocFixed, Call.allocates?]
  | allocInst => cases kind <;> simp [columnCount, after, allocInst, Call.allocates?]
  | query column rotation =>
    rw [after, register_eq]
    cases column.kind <;> exact (Int.add_zero _).symm
  | enableEquality column =>
    rw [after, enableEquality_eq]
    exact (Int.add_zero _).symm
  | _ => exact (Int.add_zero _).symm

/-- A call keeps what is registered, in its place. -/
theorem extends_after (c : Circuit) (call : Call) : (c.after call).Extends c := by
  have hcount : ∀ kind, c.columnCount kind ≤ (c.after call).columnCount kind := by
    intro kind
    rw [columnCount_after]
    split <;> omega
  cases call with
  | allocAdvice phase =>
    exact { Extends.refl c with
      columnCount := hcount, advicePhases := List.prefix_append _ [phase] }
  | allocFixed => exact { Extends.refl c with columnCount := hcount }
  | allocInst => exact { Extends.refl c with columnCount := hcount }
  | allocChallenge phase =>
    exact { Extends.refl c with challengePhases := List.prefix_append _ [phase] }
  | enableEquality column =>
    rw [after, enableEquality_eq]
    exact { Extends.refl c with permutation := prefix_enter column c.permutation }
  | query column rotation => exact extends_register c _
  | addGate name polys => exact { Extends.refl c with gates := List.prefix_append _ _ }
  | addLookup name pairs => exact { Extends.refl c with lookups := List.prefix_append _ _ }
  | addShuffle name pairs => exact { Extends.refl c with shuffles := List.prefix_append _ _ }

/-! ## What a call registers -/

/-- The columns of the queries and those under the permutation argument. -/
def columns (c : Circuit) : List Column :=
  (c.adviceQueries ++ c.instQueries ++ c.fixedQueries).map Query.column ++ c.permutation

theorem mem_columns_iff :
    column ∈ c.columns ↔
      (∃ kind, ∃ q ∈ c.queriesOf kind, q.column = column) ∨ column ∈ c.permutation := by
  rw [columns, List.mem_append, List.mem_map]
  refine or_congr_left ⟨?_, ?_⟩
  · rintro ⟨q, hq, rfl⟩
    rw [List.mem_append, List.mem_append] at hq
    rcases hq with (hq | hq) | hq
    · exact ⟨.advice, q, hq, rfl⟩
    · exact ⟨.inst, q, hq, rfl⟩
    · exact ⟨.fixed, q, hq, rfl⟩
  · rintro ⟨kind, q, hq, rfl⟩
    refine ⟨q, ?_, rfl⟩
    rw [List.mem_append, List.mem_append]
    cases kind with
    | advice => exact .inl (.inl hq)
    | fixed => exact .inr hq
    | inst => exact .inl (.inr hq)

/-- Only a query adds to a list of queries. -/
theorem queriesOf_after (c : Circuit) (call : Call) (kind : ColumnKind) :
    (c.after call).queriesOf kind =
      match call with
      | .query column rotation =>
        if column.kind = kind then enter ⟨column, rotation⟩ (c.queriesOf kind) else c.queriesOf kind
      | _ => c.queriesOf kind := by
  cases call with
  | query column rotation => exact queriesOf_register c ⟨column, rotation⟩ kind
  | enableEquality column =>
    rw [after, enableEquality_eq]
    rfl
  | _ => rfl

/-- Only equality adds to the columns under the permutation argument. -/
theorem permutation_after (c : Circuit) (call : Call) :
    (c.after call).permutation =
      match call with
      | .enableEquality column => enter column c.permutation
      | _ => c.permutation := by
  cases call with
  | enableEquality column => rw [after, enableEquality_eq]
  | query column rotation =>
    rw [after, register_eq]
    split <;> rfl
  | _ => rfl

/-- A query in a list was there before the call, or it is the one that is asked for. -/
theorem mem_queriesOf_after (h : q ∈ (c.after call).queriesOf kind) :
    q ∈ c.queriesOf kind ∨ q.column ∈ call.columns ∧ q.column.kind = kind := by
  rw [queriesOf_after] at h
  split at h
  · next column rotation =>
    split at h
    · next hkind =>
      rcases mem_enter.1 h with h | rfl
      · exact .inl h
      · exact .inr ⟨List.mem_singleton_self column, hkind⟩
    · exact .inl h
  · exact .inl h

theorem nodup_queriesOf_after (h : (c.queriesOf kind).Nodup) :
    ((c.after call).queriesOf kind).Nodup := by
  rw [queriesOf_after]
  split
  · split
    · exact nodup_enter h
    · exact h
  · exact h

theorem mem_permutation_after (h : column ∈ (c.after call).permutation) :
    column ∈ c.permutation ∨ column ∈ call.columns := by
  rw [permutation_after] at h
  split at h
  · exact (mem_enter.1 h).imp_right List.mem_singleton.2
  · exact .inl h

theorem nodup_permutation_after (h : c.permutation.Nodup) : (c.after call).permutation.Nodup := by
  rw [permutation_after]
  split
  · exact nodup_enter h
  · exact h

theorem mem_columns_after (h : column ∈ (c.after call).columns) :
    column ∈ c.columns ∨ column ∈ call.columns := by
  rcases mem_columns_iff.1 h with ⟨kind, q, hq, rfl⟩ | h
  · rcases mem_queriesOf_after hq with hq | ⟨hq, -⟩
    · exact .inl (mem_columns_iff.2 (.inl ⟨kind, q, hq, rfl⟩))
    · exact .inr hq
  · exact (mem_permutation_after h).imp_left fun h => mem_columns_iff.2 (.inr h)

theorem mem_exprs_after : e ∈ (c.after call).exprs ↔ e ∈ c.exprs ∨ e ∈ call.exprs := by
  have hargs : ∀ (name : Json) (pairs : List (Expr × Expr)),
      Argument.exprs ⟨name, pairs.map (·.1), pairs.map (·.2)⟩ =
        pairs.map (·.1) ++ pairs.map (·.2) := fun _ _ => rfl
  cases call with
  | addGate name polys =>
    simp only [exprs, exprsOf, after, addGate, Call.exprs, List.flatMap_append, List.mem_append,
      List.flatMap_cons, List.flatMap_nil, List.append_nil]
    tauto
  | addLookup name pairs =>
    simp only [exprs, exprsOf, after, addLookup, Call.exprs, List.flatMap_append, List.mem_append,
      List.flatMap_cons, List.flatMap_nil, List.append_nil, hargs]
    tauto
  | addShuffle name pairs =>
    simp only [exprs, exprsOf, after, addShuffle, Call.exprs, List.flatMap_append, List.mem_append,
      List.flatMap_cons, List.flatMap_nil, List.append_nil, hargs]
    tauto
  | query column rotation =>
    have hexprs : (c.register ⟨column, rotation⟩).exprs = c.exprs := by
      rw [register_eq]
      split <;> rfl
    rw [after, hexprs]
    simp [Call.exprs]
  | enableEquality column =>
    rw [after, enableEquality_eq]
    simp [Call.exprs, exprs]
  | _ => simp [Call.exprs, after, exprs, allocAdvice, allocFixed, allocInst, allocChallenge]

end Circuit

end Plonkish
