import Plonkish.Proofs.Outcome
import Plonkish.Proofs.Wire.Expression
import Plonkish.Wire.Outline

/-!
# Why writing and reading fail

Integers fail to be written only by being out of range. Bytes fail to be read only because they
spell nothing: the groups that an artifact must have are there, and commitments have a size.

* `Outline.encode_failsOnly`: writing an outline overflows or succeeds.
* `WireError.IsMalformed`: the errors that are about the data.
* `Artifact.decode_failsOnly`, `decodeExprs_failsOnly`: reading fails with these only.
-/

namespace Plonkish

open Wire Outcome

/-- A quantity is out of range. -/
def WriteError.IsOverflow (e : WriteError) : Prop := ∃ o, e = .overflow o

/-- The data spells nothing. The other errors are a group that is looked for and absent, and
commitments of no size. -/
def WireError.IsMalformed : WireError → Prop
  | .noGroup _ | .zeroUnit => False
  | _ => True

namespace Wire

/-! ## Writing -/

theorem word_failsOnly {size : Nat} {what : Text} {value : Int} :
    FailsOnly WriteError.IsOverflow (word size what value) := by
  rw [word_int]
  split
  · exact failsOnly_ok
  · exact failsOnly_error ⟨_, rfl⟩

theorem Width.encode_failsOnly {w : Width} {what : Text} {index : Int} :
    FailsOnly WriteError.IsOverflow (w.encode what index) := by
  rw [Width.encode_int]
  exact word_failsOnly

theorem Width.select_failsOnly {what : Text} {counts : List Nat} :
    FailsOnly WriteError.IsOverflow (select what counts) := by
  unfold select
  split
  · exact failsOnly_error ⟨_, rfl⟩
  · exact failsOnly_ok

theorem encodeColumn_failsOnly (c : Column) :
    FailsOnly WriteError.IsOverflow (encodeColumn c) :=
  word_failsOnly.bind fun _ => failsOnly_pure

theorem encodeQuery_failsOnly (q : Query) : FailsOnly WriteError.IsOverflow (encodeQuery q) :=
  (encodeColumn_failsOnly _).bind fun _ => word_failsOnly.bind fun _ => failsOnly_pure

theorem encoding_failsOnly {query pool : Width} (e : Ir) :
    FailsOnly WriteError.IsOverflow (encoding query pool e) := by
  induction e with
  | const i => exact Width.encode_failsOnly.bind fun _ => failsOnly_pure
  | var cls i =>
    refine FailsOnly.bind ?_ fun _ => failsOnly_pure
    cases cls with
    | challenge => exact word_failsOnly
    | _ => exact Width.encode_failsOnly
  | neg e ih => exact ih.bind fun _ => failsOnly_pure
  | sum a b iha ihb => exact iha.bind fun _ => ihb.bind fun _ => failsOnly_pure
  | product a b iha ihb => exact iha.bind fun _ => ihb.bind fun _ => failsOnly_pure
  | scaled e i ih =>
    exact Width.encode_failsOnly.bind fun _ => ih.bind fun _ => failsOnly_pure

theorem pendingEncoding_failsOnly {query pool : Width} (pending : List Pending) :
    FailsOnly WriteError.IsOverflow (pendingEncoding query pool pending) := by
  induction pending with
  | nil => exact failsOnly_ok
  | cons p rest ih =>
    refine FailsOnly.bind ?_ fun _ => ih.bind fun _ => failsOnly_pure
    cases p with
    | node e => exact encoding_failsOnly e
    | raw bytes => exact failsOnly_ok

theorem encodeExprs_failsOnly {query pool : Width} (es : List Ir) :
    FailsOnly WriteError.IsOverflow (encodeExprs query pool es) := by
  unfold encodeExprs
  rw [emit_eq]
  exact ((pendingEncoding_failsOnly _).bind fun _ => failsOnly_pure).bind fun _ => failsOnly_pure

/-! ## Reading -/

namespace Reader

variable {r : Reader}

theorem take_failsOnly {n : Nat} : FailsOnly WireError.IsMalformed (r.take n) := by
  unfold take
  dsimp only
  split
  · exact failsOnly_error trivial
  · exact failsOnly_ok

theorem number_failsOnly {size : Nat} : FailsOnly WireError.IsMalformed (r.number size) :=
  take_failsOnly.bind fun _ => failsOnly_pure

theorem index_failsOnly {w : Width} : FailsOnly WireError.IsMalformed (r.index w) :=
  number_failsOnly

theorem byte_failsOnly : FailsOnly WireError.IsMalformed r.byte := by
  unfold byte
  split
  · exact failsOnly_ok
  · exact failsOnly_error trivial

theorem expectEnd_failsOnly : FailsOnly WireError.IsMalformed r.expectEnd := by
  unfold expectEnd
  split
  · exact failsOnly_ok
  · exact failsOnly_error trivial

end Reader

open Reader

theorem readElements_failsOnly {read : List Bytes} {count : Nat} {r : Reader} :
    FailsOnly WireError.IsMalformed (readElements read count r) := by
  induction count generalizing read r with
  | zero => exact failsOnly_ok
  | succ count ih => exact number_failsOnly.bind fun _ => take_failsOnly.bind fun _ => ih

theorem readGroups_failsOnly {names : List Text} {r : Reader} :
    FailsOnly WireError.IsMalformed (readGroups names r) := by
  induction names generalizing r with
  | nil => exact failsOnly_ok
  | cons name names ih =>
    exact number_failsOnly.bind fun _ => readElements_failsOnly.bind fun _ => ih.bind fun _ =>
      failsOnly_pure

/-- An artifact is read from some bytes, or they are malformed. -/
theorem Artifact.decode_failsOnly (data : Bytes) :
    FailsOnly WireError.IsMalformed (Artifact.decode data) := by
  refine number_failsOnly.bind fun ⟨count, r⟩ => ?_
  dsimp only
  split
  · exact failsOnly_error trivial
  · exact readGroups_failsOnly.bind fun _ => expectEnd_failsOnly.bind fun _ => failsOnly_pure

theorem phaseOf_failsOnly {phases : Option (List Int)} {kind : ColumnKind} {i : Nat} :
    FailsOnly WireError.IsMalformed (phaseOf phases kind i) := by
  unfold phaseOf
  repeat' split
  · exact failsOnly_ok
  · exact failsOnly_error trivial
  · exact failsOnly_ok

theorem readColumn_failsOnly {phases : Option (List Int)} {r : Reader} :
    FailsOnly WireError.IsMalformed (readColumn phases r) := by
  refine byte_failsOnly.bind fun ⟨tag, r⟩ => ?_
  dsimp only
  split
  · exact failsOnly_error trivial
  · exact number_failsOnly.bind fun _ => phaseOf_failsOnly.bind fun _ => failsOnly_pure

theorem readRotation_failsOnly {r : Reader} : FailsOnly WireError.IsMalformed (readRotation r) := by
  refine byte_failsOnly.bind fun ⟨direction, r⟩ => ?_
  dsimp only
  split
  · exact failsOnly_error trivial
  · exact number_failsOnly.bind fun _ => failsOnly_pure

theorem decodeColumn_failsOnly (phases : Option (List Int)) (data : Bytes) :
    FailsOnly WireError.IsMalformed (decodeColumn phases data) :=
  readColumn_failsOnly.bind fun _ => expectEnd_failsOnly.bind fun _ => failsOnly_pure

theorem decodeQuery_failsOnly (phases : Option (List Int)) (data : Bytes) :
    FailsOnly WireError.IsMalformed (decodeQuery phases data) :=
  readColumn_failsOnly.bind fun _ => readRotation_failsOnly.bind fun _ =>
    expectEnd_failsOnly.bind fun _ => failsOnly_pure

section Trees

variable {query pool : Width}

theorem openNode_failsOnly {op : UInt8} {r : Reader} :
    FailsOnly WireError.IsMalformed (openNode query pool op r) := by
  unfold openNode
  split
  · exact index_failsOnly.bind fun _ => failsOnly_pure
  · split
    · refine FailsOnly.bind ?_ fun _ => failsOnly_pure
      unfold readVarIndex
      split
      · exact number_failsOnly
      · exact index_failsOnly
    · repeat' split
      all_goals first | exact failsOnly_ok | exact failsOnly_error trivial

theorem attach_failsOnly {e : Ir} {frames : List Frame} {r : Reader} :
    FailsOnly WireError.IsMalformed (attach pool e frames r) := by
  fun_induction attach pool e frames r with
  | case4 e frames r err h =>
    exact failsOnly_error (index_failsOnly err h)
  | _ => first | exact failsOnly_ok | assumption

theorem readTree_failsOnly {frames : List Frame} {r : Reader} :
    FailsOnly WireError.IsMalformed (readTree query pool frames r) := by
  fun_induction readTree query pool frames r with
  | case1 frames r err h => exact failsOnly_error (byte_failsOnly err h)
  | case2 frames r op r₁ h err h₁ => exact failsOnly_error (openNode_failsOnly err h₁)
  | case3 frames r op r₁ h f r₂ h₁ _ _ ih => exact ih
  | case4 frames r op r₁ h e r₂ h₁ err h₂ => exact failsOnly_error (attach_failsOnly err h₂)
  | case5 => exact failsOnly_ok
  | case6 frames r op r₁ h e r₂ h₁ frames' r₃ h₂ _ _ _ ih => exact ih

theorem readExprs_failsOnly {read : List Ir} {r : Reader} :
    FailsOnly WireError.IsMalformed (readExprs query pool read r) := by
  fun_induction readExprs query pool read r with
  | case1 => exact failsOnly_ok
  | case2 read r _ err h => exact failsOnly_error (readTree_failsOnly err h)
  | case3 read r _ e r' h _ ih => exact ih

theorem decodeExprs_failsOnly (data : Bytes) :
    FailsOnly WireError.IsMalformed (decodeExprs query pool data) := readExprs_failsOnly

end Trees

theorem infoNumber_failsOnly {index size : Nat} {element : Bytes} :
    FailsOnly WireError.IsMalformed (infoNumber index size element) := by
  unfold infoNumber
  split
  · exact failsOnly_error trivial
  · exact failsOnly_ok

theorem infoWidth_failsOnly {element : Bytes} :
    FailsOnly WireError.IsMalformed (infoWidth element) := by
  unfold infoWidth
  repeat' split
  all_goals first | exact failsOnly_ok | exact failsOnly_error trivial

theorem GeneralInfo.ofElements_failsOnly {elements : List Bytes} :
    FailsOnly WireError.IsMalformed (ofElements elements) := by
  unfold ofElements
  split
  · exact infoNumber_failsOnly.bind fun _ => infoNumber_failsOnly.bind fun _ =>
      infoNumber_failsOnly.bind fun _ => infoNumber_failsOnly.bind fun _ =>
        infoNumber_failsOnly.bind fun _ => infoWidth_failsOnly.bind fun _ =>
          infoWidth_failsOnly.bind fun _ => failsOnly_pure
  · exact failsOnly_error trivial

end Wire

namespace Outline

theorem encodePhases_failsOnly (phases : List Int) :
    FailsOnly WriteError.IsOverflow (encodePhases phases) := by
  refine (FailsOnly.mapM (fun phase => ?_) phases).bind fun _ => failsOnly_pure
  rw [encodePhase_int]
  exact word_failsOnly

theorem generalInfo_failsOnly {o : Outline} {query pool : Width} :
    FailsOnly WriteError.IsOverflow (o.generalInfo query pool) :=
  word_failsOnly.bind fun _ => word_failsOnly.bind fun _ => word_failsOnly.bind fun _ =>
    word_failsOnly.bind fun _ => word_failsOnly.bind fun _ =>
      (encodePhases_failsOnly _).bind fun _ => (encodePhases_failsOnly _).bind fun _ =>
        failsOnly_pure

theorem encodeAt_failsOnly {o : Outline} {query pool : Width} :
    FailsOnly WriteError.IsOverflow (o.encodeAt query pool) := by
  have hqueries := FailsOnly.mapM encodeQuery_failsOnly
  refine generalInfo_failsOnly.bind fun _ => (hqueries _).bind fun _ => (hqueries _).bind fun _ =>
    (hqueries _).bind fun _ => (FailsOnly.mapM encodeColumn_failsOnly _).bind fun _ => ?_
  have hexprs {α : Type} (f : α → List Ir) (xs : List α) :
      FailsOnly WriteError.IsOverflow (xs.mapM fun x => encodeExprs query pool (f x)) :=
    FailsOnly.mapM (fun x => encodeExprs_failsOnly (f x)) xs
  exact (hexprs _ _).bind fun _ => (hexprs _ _).bind fun _ => (hexprs _ _).bind fun _ =>
    (hexprs _ _).bind fun _ => (hexprs _ _).bind fun _ => failsOnly_pure

/-- An outline is written, or some quantity of it is out of range. -/
theorem encode_failsOnly {o : Outline} : FailsOnly WriteError.IsOverflow o.encode :=
  Width.select_failsOnly.bind fun _ => Width.select_failsOnly.bind fun _ => encodeAt_failsOnly

end Outline

end Plonkish
