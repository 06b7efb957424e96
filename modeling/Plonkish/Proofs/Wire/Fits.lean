import Plonkish.Proofs.Outline
import Plonkish.Proofs.Wire.Outline
import Plonkish.Proofs.Wire.Width

/-!
# Outlines that fit the wire

An outline is written exactly if its numbers are in the ranges of their words. If the outline is
that of a circuit, its positions are inside the lists that widths are chosen for, so only the
numbers that the circuit names by itself can be too large.

* `Wire.exists_encoding_iff`: the expressions that are written at given widths.
* `Outline.FitsWire`: the numbers of an outline are in range.
* `Outline.encode_ofCircuit`: the outlines of circuits that are written.
-/

namespace Plonkish

open Wire Outcome

namespace Wire

variable {query pool : Width}

theorem exists_encodeColumn_iff {c : Column} :
    (∃ bytes, encodeColumn c = .ok bytes) ↔ FitsWord 4 c.index :=
  exists_bind_pure_iff.trans exists_word_iff

theorem exists_encodeQuery_iff {q : Query} :
    (∃ bytes, encodeQuery q = .ok bytes) ↔
      FitsWord 4 q.column.index ∧ FitsWord 4 q.rotation.magnitude := by
  rw [encodeQuery, exists_bind_iff fun _ => exists_bind_pure_iff.trans exists_word_iff,
    exists_encodeColumn_iff]

/-! ## Expressions -/

/-- The number of bytes of a variable's index. -/
def varSize (query : Width) : VariableClass → Nat
  | .challenge => 4
  | _ => query.size

theorem exists_encodeConstIndex_iff {r : Int} :
    (∃ bytes, encodeConstIndex pool r = .ok bytes) ↔ FitsWord pool.size r := by
  rw [encodeConstIndex, Width.encode_int]
  exact exists_word_iff

theorem exists_encodeVarIndex_iff {cls : VariableClass} {i : Int} :
    (∃ bytes, encodeVarIndex query cls i = .ok bytes) ↔ FitsWord (varSize query cls) i := by
  cases cls with
  | challenge => exact exists_word_iff
  | _ =>
    simp only [encodeVarIndex, Width.encode_int]
    exact exists_word_iff

/-- An expression is written at given widths exactly if what it refers to is in their ranges. -/
theorem exists_encoding_iff {e : Ir} :
    (∃ bytes, encoding query pool e = .ok bytes) ↔
      (∀ r ∈ e.constants, FitsWord pool.size r) ∧
        ∀ v ∈ e.vars, FitsWord (varSize query v.1) v.2 := by
  induction e with
  | const i =>
    rw [encoding, exists_bind_pure_iff, exists_encodeConstIndex_iff]
    simp
  | var cls i =>
    rw [encoding, exists_bind_pure_iff, exists_encodeVarIndex_iff]
    simp
  | neg e ih =>
    rw [encoding, exists_bind_pure_iff, ih, Ir.constants_neg, Ir.vars_neg]
  | sum a b iha ihb =>
    rw [encoding, exists_bind_iff fun _ => exists_bind_pure_iff.trans ihb, iha, Ir.constants_sum,
      Ir.vars_sum, List.forall_mem_append, List.forall_mem_append, and_and_and_comm]
  | product a b iha ihb =>
    rw [encoding, exists_bind_iff fun _ => exists_bind_pure_iff.trans ihb, iha,
      Ir.constants_product, Ir.vars_product, List.forall_mem_append, List.forall_mem_append,
      and_and_and_comm]
  | scaled e i ih =>
    rw [encoding, exists_bind_iff fun _ => exists_bind_pure_iff.trans ih,
      exists_encodeConstIndex_iff, Ir.constants_scaled, Ir.vars_scaled, List.forall_mem_cons,
      and_assoc]

theorem exists_encodeExprs_iff {es : List Ir} :
    (∃ bytes, encodeExprs query pool es = .ok bytes) ↔
      ∀ e ∈ es, ∃ bytes, encoding query pool e = .ok bytes := by
  simp only [encodeExprs_eq_ok_iff]
  induction es with
  | nil => simp [pendingEncoding]
  | cons e es ih =>
    rw [List.forall_mem_cons, ← ih]
    exact exists_bind_iff fun _ => exists_bind_pure_iff

end Wire

namespace Outline

variable {o : Outline} {query pool : Width}

/-! ## Outlines -/

/-- The queries of all kinds. -/
def queries (o : Outline) : List Query := o.adviceQueries ++ o.instQueries ++ o.fixedQueries

theorem exists_encodePhases_iff {phases : List Int} :
    (∃ bytes, encodePhases phases = .ok bytes) ↔ ∀ phase ∈ phases, FitsWord 1 phase := by
  rw [encodePhases, exists_bind_pure_iff, exists_mapM_eq_ok_iff]
  simp only [encodePhase_int, exists_word_iff]

theorem exists_generalInfo_iff :
    (∃ info, o.generalInfo query pool = .ok info) ↔
      FitsWord 1 o.k ∧ FitsWord 4 o.maxQueries ∧ FitsWord 4 o.degree ∧ FitsWord 8 o.fixedCount ∧
        FitsWord 8 o.instCount ∧ (∀ phase ∈ o.advicePhases, FitsWord 1 phase) ∧
          ∀ phase ∈ o.challengePhases, FitsWord 1 phase := by
  simp only [← exists_encodePhases_iff]
  rw [generalInfo, exists_bind_iff fun _ => exists_bind_iff fun _ => exists_bind_iff fun _ =>
    exists_bind_iff fun _ => exists_bind_iff fun _ => exists_bind_iff fun _ =>
      exists_bind_pure_iff]
  simp only [exists_word_iff]

theorem forall_mem_exprs_iff {P : Ir → Prop} :
    (∀ e ∈ o.exprs, P e) ↔
      (∀ g ∈ o.gates, ∀ e ∈ g.polys, P e) ∧
        (∀ a ∈ o.lookups, ∀ e ∈ a.inputs, P e) ∧ (∀ a ∈ o.lookups, ∀ e ∈ a.targets, P e) ∧
          (∀ a ∈ o.shuffles, ∀ e ∈ a.inputs, P e) ∧ ∀ a ∈ o.shuffles, ∀ e ∈ a.targets, P e := by
  simp only [exprs, exprsOf, Argument.exprs, List.forall_mem_append, List.forall_mem_flatMap,
    forall₂_and, and_assoc]

theorem exists_encodeAt_iff :
    (∃ a, o.encodeAt query pool = .ok a) ↔
      (∃ info, o.generalInfo query pool = .ok info) ∧
        (∀ q ∈ o.queries, FitsWord 4 q.column.index ∧ FitsWord 4 q.rotation.magnitude) ∧
          (∀ c ∈ o.permutation, FitsWord 4 c.index) ∧
            (∀ r ∈ o.references, FitsWord pool.size r) ∧
              ∀ v ∈ o.vars, FitsWord (varSize query v.1) v.2 := by
  rw [encodeAt, exists_bind_iff fun _ => exists_bind_iff fun _ => exists_bind_iff fun _ =>
    exists_bind_iff fun _ => exists_bind_iff fun _ => exists_bind_iff fun _ =>
      exists_bind_iff fun _ => exists_bind_iff fun _ => exists_bind_iff fun _ =>
        exists_bind_pure_iff]
  simp only [exists_mapM_eq_ok_iff, exists_encodeQuery_iff, exists_encodeColumn_iff,
    exists_encodeExprs_iff, exists_encoding_iff]
  rw [← forall_mem_exprs_iff]
  simp only [queries, references, vars, List.forall_mem_append, List.forall_mem_flatMap,
    forall₂_and, and_assoc]

/-- The numbers of an outline are in the ranges of their words: the sizes of the lists that
positions refer to, the parameters, the columns and rotations, and the challenges that
expressions name. -/
structure FitsWire (o : Outline) : Prop where
  constants : o.constants.length ≤ 0x100000000
  adviceQueries : o.adviceQueries.length ≤ 0x100000000
  fixedQueries : o.fixedQueries.length ≤ 0x100000000
  instQueries : o.instQueries.length ≤ 0x100000000
  maxQueries : 0 ≤ o.maxQueries ∧ o.maxQueries < 0x100000000
  degree : 0 ≤ o.degree ∧ o.degree < 0x100000000
  fixedCount : 0 ≤ o.fixedCount ∧ o.fixedCount < 0x10000000000000000
  instCount : 0 ≤ o.instCount ∧ o.instCount < 0x10000000000000000
  columns : ∀ c ∈ o.columns, 0 ≤ c.index ∧ c.index < 0x100000000
  magnitudes : ∀ q ∈ o.queries, 0 ≤ q.rotation.magnitude ∧ q.rotation.magnitude < 0x100000000
  challenges : ∀ v ∈ o.vars, v.1 = .challenge → v.2 < 0x100000000

/-! ## Outlines of circuits -/

section OfCircuit

variable {k : Int} {c : Circuit} {key : VerifyingKey}

theorem fitsWord_one_of_checkByte {what : Text} {value : Int} (h : checkByte what value = .ok ()) :
    FitsWord 1 value :=
  fitsWord_one_iff.2 (checkByte_eq_ok_iff.1 h)

/-- The size and the phases of an outline were checked. -/
theorem exists_generalInfo_ofCircuit_iff (h : ofCircuit k c key = .ok o) :
    (∃ info, o.generalInfo query pool = .ok info) ↔
      FitsWord 4 o.maxQueries ∧ FitsWord 4 o.degree ∧ FitsWord 8 o.fixedCount ∧
        FitsWord 8 o.instCount := by
  obtain ⟨hk, hphases, -, parts, t, -, rfl⟩ := ofCircuit_eq_ok_iff.1 h
  obtain ⟨hadvice, hchallenge⟩ := List.forall_mem_append.1 hphases
  rw [exists_generalInfo_iff]
  constructor
  · rintro ⟨-, hmaxQueries, hdegree, hfixed, hinst, -, -⟩
    exact ⟨hmaxQueries, hdegree, hfixed, hinst⟩
  · rintro ⟨hmaxQueries, hdegree, hfixed, hinst⟩
    exact ⟨fitsWord_one_of_checkByte hk, hmaxQueries, hdegree, hfixed, hinst,
      fun phase hphase => fitsWord_one_of_checkByte (hadvice phase hphase),
      fun phase hphase => fitsWord_one_of_checkByte (hchallenge phase hphase)⟩

/-- Every reference to a constant has room in the width that is chosen. -/
theorem fitsWord_of_mem_references (h : ofCircuit k c key = .ok o) (hpool : o.poolWidth = .ok pool)
    {r : Int} (hr : r ∈ o.references) : FitsWord pool.size r := by
  obtain ⟨hnonneg, hlt⟩ := (mem_references_iff h).1 hr
  exact Width.fitsWord_of_select hpool List.mem_cons_self hnonneg hlt

/-- So has every reference to a query. -/
theorem fitsWord_of_mem_vars (h : ofCircuit k c key = .ok o) (hquery : o.queryWidth = .ok query)
    {v : VariableClass × Int} (hv : v ∈ o.vars) (hclass : v.1 ≠ .challenge) :
    FitsWord query.size v.2 := by
  obtain ⟨hnonneg, hlt⟩ := has_of_ofCircuit h v hv
  obtain ⟨n, hn, hsize⟩ : ∃ n ∈ [o.adviceQueries.length, o.fixedQueries.length,
      o.instQueries.length], o.space.size v.1 = n := by
    obtain ⟨cls, i⟩ := v
    cases cls with
    | challenge => exact absurd rfl hclass
    | _ =>
      refine ⟨_, ?_, rfl⟩
      simp [space, VariableSpace.queries]
  exact Width.fitsWord_of_select hquery hn hnonneg (hsize ▸ hlt)

/-- At the widths that are chosen, only numbers that are not positions in a list can be too
large. -/
theorem exists_encodeAt_ofCircuit_iff (h : ofCircuit k c key = .ok o)
    (hquery : o.queryWidth = .ok query) (hpool : o.poolWidth = .ok pool) :
    (∃ a, o.encodeAt query pool = .ok a) ↔
      (FitsWord 4 o.maxQueries ∧ FitsWord 4 o.degree ∧ FitsWord 8 o.fixedCount ∧
        FitsWord 8 o.instCount) ∧
      (∀ q ∈ o.queries, FitsWord 4 q.column.index ∧ FitsWord 4 q.rotation.magnitude) ∧
        (∀ c ∈ o.permutation, FitsWord 4 c.index) ∧
          ∀ v ∈ o.vars, v.1 = .challenge → FitsWord 4 v.2 := by
  have hrefs : ∀ r ∈ o.references, FitsWord pool.size r :=
    fun r => fitsWord_of_mem_references h hpool
  have hvars : (∀ v ∈ o.vars, FitsWord (varSize query v.1) v.2) ↔
      ∀ v ∈ o.vars, v.1 = .challenge → FitsWord 4 v.2 := by
    refine forall₂_congr fun ⟨cls, i⟩ hv => ?_
    cases cls with
    | challenge => simp [varSize]
    | _ =>
      refine iff_of_true ?_ nofun
      exact fitsWord_of_mem_vars h hquery hv nofun
  rw [exists_encodeAt_iff, exists_generalInfo_ofCircuit_iff h, hvars, and_iff_right hrefs]

theorem exists_encode_ofCircuit_iff (h : ofCircuit k c key = .ok o) :
    (∃ a, o.encode = .ok a) ↔ o.FitsWire := by
  have hnonneg : ∀ v ∈ o.vars, 0 ≤ v.2 := fun v hv => (has_of_ofCircuit h v hv).1
  have hcolumns : (∀ c ∈ o.columns, FitsWord 4 c.index) ↔
      (∀ q ∈ o.queries, FitsWord 4 q.column.index) ∧ ∀ c ∈ o.permutation, FitsWord 4 c.index := by
    rw [columns, List.forall_mem_append, List.forall_mem_map]
    rfl
  simp only [fitsWord_four_iff] at hcolumns
  constructor
  · rintro ⟨a, ha⟩
    obtain ⟨query, pool, hquery, hpool, hat⟩ := encode_eq_ok_iff.1 ha
    have hlists := Width.exists_select_iff.1 ⟨query, hquery⟩
    have hlist := Width.exists_select_iff.1 ⟨pool, hpool⟩
    have hfits := (exists_encodeAt_ofCircuit_iff h hquery hpool).1 ⟨a, hat⟩
    simp only [fitsWord_four_iff, fitsWord_eight_iff] at hfits
    obtain ⟨⟨hmaxQueries, hdegree, hfixed, hinst⟩, hqueries, hpermutation, hchallenges⟩ := hfits
    exact {
      constants := hlist _ (by simp)
      adviceQueries := hlists _ (by simp)
      fixedQueries := hlists _ (by simp)
      instQueries := hlists _ (by simp)
      maxQueries := hmaxQueries
      degree := hdegree
      fixedCount := hfixed
      instCount := hinst
      columns := hcolumns.2 ⟨fun q hq => (hqueries q hq).1, hpermutation⟩
      magnitudes := fun q hq => (hqueries q hq).2
      challenges := fun v hv hclass => (hchallenges v hv hclass).2 }
  · intro hfits
    obtain ⟨pool, hpool⟩ : ∃ pool, o.poolWidth = .ok pool :=
      Width.exists_select_iff.2 (by simpa using hfits.constants)
    obtain ⟨query, hquery⟩ : ∃ query, o.queryWidth = .ok query :=
      Width.exists_select_iff.2
        (by simpa using ⟨hfits.adviceQueries, hfits.fixedQueries, hfits.instQueries⟩)
    obtain ⟨hqueries, hpermutation⟩ := hcolumns.1 hfits.columns
    obtain ⟨a, hat⟩ : ∃ a, o.encodeAt query pool = .ok a := by
      rw [exists_encodeAt_ofCircuit_iff h hquery hpool]
      simp only [fitsWord_four_iff, fitsWord_eight_iff]
      exact ⟨⟨hfits.maxQueries, hfits.degree, hfits.fixedCount, hfits.instCount⟩,
        fun q hq => ⟨hqueries q hq, hfits.magnitudes q hq⟩, hpermutation,
        fun v hv hclass => ⟨hnonneg v hv, hfits.challenges v hv hclass⟩⟩
    exact ⟨a, encode_eq_ok_iff.2 ⟨query, pool, hquery, hpool, hat⟩⟩

/-- The outline of a circuit is written exactly if its numbers fit; otherwise one of them is named
as an overflow. The positions that expressions refer to always have room in the chosen widths. -/
theorem encode_ofCircuit (h : ofCircuit k c key = .ok o) :
    ((∃ a, o.encode = .ok a) ↔ o.FitsWire) ∧
      (¬o.FitsWire → ∃ overflow, o.encode = .error (.overflow overflow)) ∧
        ∀ query pool, o.queryWidth = .ok query → o.poolWidth = .ok pool →
          (∀ r ∈ o.references, FitsWord pool.size r) ∧
            ∀ v ∈ o.vars, v.1 ≠ .challenge → FitsWord query.size v.2 := by
  have hiff := exists_encode_ofCircuit_iff h
  refine ⟨hiff, fun hnot => ?_, fun query pool hquery hpool => ⟨fun r => ?_, fun v => ?_⟩⟩
  · cases hwrite : o.encode with
    | error e =>
      obtain ⟨overflow, rfl⟩ := encode_failsOnly e hwrite
      exact ⟨overflow, rfl⟩
    | ok a => exact absurd (hiff.1 ⟨a, hwrite⟩) hnot
  · exact fitsWord_of_mem_references h hpool
  · exact fitsWord_of_mem_vars h hquery

end OfCircuit

/-- The outline of the affine circuit fits, and the one of the same circuit with a degree of
33 bits does not. -/
theorem encode_affine :
    (∃ a, affineOutline.encode = .ok a) ∧
      ∃ overflow, { affineOutline with degree := 0x100000000 }.encode =
        .error (.overflow overflow) := by
  have hsteep : ofCircuit 4 { affine with declaredDegree := some 0x100000000 } default =
      .ok { affineOutline with degree := 0x100000000 } := by decide +kernel
  have hfits : affineOutline.FitsWire := by
    constructor <;> decide +kernel
  exact ⟨(encode_ofCircuit ofCircuit_affine).1.2 hfits,
    (encode_ofCircuit hsteep).2.1 fun hfits => absurd hfits.degree (by decide +kernel)⟩

end Outline

end Plonkish
