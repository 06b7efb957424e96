import Plonkish.Proofs.Wire.Expression

/-!
# Expressions that are cut off

An encoded expression is read at any position of any data, and only it: what stands behind it is
not looked at. If its end is missing, reading needs bytes behind the end of the data, wherever the
cut is.

* `Wire.Reader.CutOff`: the data ends within some bytes.
* `Wire.Reader.RunsOut`: reading fails at the end of the data.
* `Wire.readTree_runsOut`: reading a tree that is cut off fails there, whatever nodes are open.
* `Wire.readExpr_reads_exactly_one`: both cases, at a position of some data.
-/

namespace Plonkish.Wire

open Outcome

namespace Reader

/-- The data ends within the bytes that the reader stands in front of. -/
def CutOff (r : Reader) (bytes : Bytes) : Prop :=
  ∃ missing, missing ≠ [] ∧ bytes = r.rest ++ missing

/-- A computation from a reader on needs more bytes, at some later position, than are left
there. -/
def RunsOut {α : Type} (r : Reader) (x : Except WireError α) : Prop :=
  ∃ need pos left : Nat, x = .error (.endOfData need pos left) ∧ r.pos ≤ pos ∧
    pos + left = r.pos + r.rest.length ∧ left < need

variable {r r₁ : Reader} {a b bytes : Bytes} {α β : Type}

/-! ## Where the data ends -/

theorem CutOff.length_lt (h : r.CutOff bytes) : r.rest.length < bytes.length := by
  obtain ⟨missing, hne, rfl⟩ := h
  have := List.length_pos_of_ne_nil hne
  rw [List.length_append]
  omega

/-- Of two parts, the data ends within the first, or it has the first and ends within the
second. -/
theorem cutOff_append (h : r.CutOff (a ++ b)) :
    r.CutOff a ∨ ∃ r₁, r.Passes a r₁ ∧ r₁.CutOff b := by
  obtain ⟨missing, hne, heq⟩ := h
  rcases List.append_eq_append_iff.1 heq with ⟨c, hrest, hb⟩ | ⟨c, ha, hmissing⟩
  · exact .inr ⟨⟨r.pos + a.length, c⟩, ⟨hrest, rfl⟩, missing, hne, hb⟩
  · cases c with
    | nil =>
      rw [List.append_nil] at ha
      rw [List.nil_append] at hmissing
      refine .inr ⟨⟨r.pos + a.length, []⟩, ⟨?_, rfl⟩, missing, hne, hmissing.symm⟩
      rw [ha, List.append_nil]
    | cons x c => exact .inl ⟨x :: c, List.cons_ne_nil x c, ha⟩

/-- The first byte is missing, or the data ends behind it. -/
theorem cutOff_cons {x : UInt8} (h : r.CutOff (x :: bytes)) :
    r.rest = [] ∨ ∃ r₁, r.Passes [x] r₁ ∧ r₁.CutOff bytes := by
  rcases cutOff_append (a := [x]) h with h | h
  · have hlt := h.length_lt
    exact .inl (List.length_eq_zero_iff.1 (Nat.lt_one_iff.1 hlt))
  · exact .inr h

/-! ## Running out of data -/

theorem RunsOut.bind {x : Except WireError α} (h : r.RunsOut x) (f : α → Except WireError β) :
    r.RunsOut (x >>= f) := by
  obtain ⟨need, pos, left, rfl, hpos⟩ := h
  exact ⟨need, pos, left, rfl, hpos⟩

/-- What runs out of data behind some bytes runs out of it in front of them. -/
theorem RunsOut.of_passes {x : Except WireError α} (hpass : r.Passes bytes r₁)
    (h : r₁.RunsOut x) : r.RunsOut x := by
  obtain ⟨need, pos, left, hx, hle, hend, hlt⟩ := h
  have hpos := hpass.pos
  have hlength := congrArg List.length hpass.rest
  rw [List.length_append] at hlength
  exact ⟨need, pos, left, hx, by omega, by omega, hlt⟩

theorem byte_runsOut (h : r.rest = []) : r.RunsOut r.byte := by
  refine ⟨1, r.pos, 0, ?_, Nat.le_refl _, ?_, Nat.one_pos⟩
  · rw [byte, h]
  · rw [h, List.length_nil]

theorem take_runsOut {n : Nat} (h : r.rest.length < n) : r.RunsOut (r.take n) :=
  ⟨n, r.pos, r.rest.length, take_of_lt h, Nat.le_refl _, rfl, h⟩

theorem number_runsOut {size : Nat} (h : r.rest.length < size) : r.RunsOut (r.number size) :=
  (take_runsOut h).bind _

theorem index_runsOut {w : Width} {what : Text} {i : Int} (henc : w.encode what i = .ok bytes)
    (h : r.CutOff bytes) : r.RunsOut (r.index w) := by
  rw [Width.encode_int, word_eq_ok_iff] at henc
  obtain ⟨-, -, rfl⟩ := henc
  exact number_runsOut (by simpa using h.length_lt)

end Reader

open Reader

variable {query pool : Width} {r r₁ : Reader} {e : Ir} {frames : List Frame} {bytes : Bytes}

theorem readVarIndex_runsOut {cls : VariableClass} {i : Int}
    (henc : encodeVarIndex query cls i = .ok bytes) (h : r.CutOff bytes) :
    r.RunsOut (readVarIndex query cls r) := by
  cases cls with
  | challenge =>
    obtain ⟨-, -, rfl⟩ := word_eq_ok_iff.1 henc
    exact number_runsOut (by simpa using h.length_lt)
  | advice => exact index_runsOut henc h
  | fixed => exact index_runsOut henc h
  | inst => exact index_runsOut henc h

/-! ## Trees that are cut off -/

/-- The byte of a leaf is missing, or its index is not there as a whole. -/
theorem readTree_runsOut_of_leaf {op : UInt8} (h : r.CutOff (op :: bytes))
    (hopen : ∀ r₁ : Reader, r₁.CutOff bytes → r₁.RunsOut (openNode query pool op r₁)) :
    r.RunsOut (readTree query pool frames r) := by
  rw [readTree_eq]
  rcases cutOff_cons h with hnil | ⟨r₁, hop, h⟩
  · exact (byte_runsOut hnil).bind _
  · rw [byte_eq_ok_iff.2 hop]
    exact .of_passes hop ((hopen r₁ h).bind _)

/-- The byte of an operator is missing, or its operands are not there as a whole. -/
theorem readTree_runsOut_of_opcode {f : Frame} {op : UInt8} (hf : f.opcode? = some op)
    (h : r.CutOff (op :: bytes))
    (hmore : ∀ r₁ : Reader, r₁.CutOff bytes →
      r₁.RunsOut (readTree query pool (f :: frames) r₁)) :
    r.RunsOut (readTree query pool frames r) := by
  rcases cutOff_cons h with hnil | ⟨r₁, hop, h⟩
  · rw [readTree_eq]
    exact (byte_runsOut hnil).bind _
  · rw [readTree_of_opcode hf hop]
    exact .of_passes hop (hmore r₁ h)

/-- The first operand is not there as a whole, or what follows it is not. -/
theorem readTree_runsOut_of_append {more : Bytes} (henc : encoding query pool e = .ok bytes)
    (h : r.CutOff (bytes ++ more))
    (hfirst : r.CutOff bytes → r.RunsOut (readTree query pool frames r))
    (hmore : ∀ r₁ : Reader, r₁.CutOff more → r₁.RunsOut (resume query pool e frames r₁)) :
    r.RunsOut (readTree query pool frames r) := by
  rcases cutOff_append h with h | ⟨r₁, hpass, h⟩
  · exact hfirst h
  · rw [readTree_of_encoding henc hpass]
    exact .of_passes hpass (hmore r₁ h)

/-- A tree of which the end is missing is not read, whatever nodes are open. -/
theorem readTree_runsOut (henc : encoding query pool e = .ok bytes) (h : r.CutOff bytes) :
    r.RunsOut (readTree query pool frames r) := by
  -- An operand is read with one more node open, and the second one from behind the first, so both
  -- the open nodes and the reader vary.
  induction e generalizing bytes r frames with
  | const i =>
    simp only [encoding, bind_eq_ok_iff, pure_eq_ok_iff] at henc
    obtain ⟨index, hindex, rfl⟩ := henc
    refine readTree_runsOut_of_leaf h fun r₁ h => ?_
    rw [openNode_opConst]
    exact (index_runsOut hindex h).bind _
  | var cls i =>
    simp only [encoding, bind_eq_ok_iff, pure_eq_ok_iff] at henc
    obtain ⟨index, hindex, rfl⟩ := henc
    refine readTree_runsOut_of_leaf h fun r₁ h => ?_
    rw [openNode_opVar]
    exact (readVarIndex_runsOut hindex h).bind _
  | neg a ih =>
    simp only [encoding, bind_eq_ok_iff, pure_eq_ok_iff] at henc
    obtain ⟨b, hb, rfl⟩ := henc
    exact readTree_runsOut_of_opcode (f := .neg) rfl h fun r₁ h => ih hb h
  | sum a b iha ihb =>
    simp only [encoding, bind_eq_ok_iff, pure_eq_ok_iff] at henc
    obtain ⟨left, hleft, right, hright, rfl⟩ := henc
    refine readTree_runsOut_of_opcode (f := .sumLeft) rfl h fun r₁ h => ?_
    refine readTree_runsOut_of_append hleft h (iha hleft) fun r₂ h => ?_
    rw [resume_sumLeft]
    exact ihb hright h
  | product a b iha ihb =>
    simp only [encoding, bind_eq_ok_iff, pure_eq_ok_iff] at henc
    obtain ⟨left, hleft, right, hright, rfl⟩ := henc
    refine readTree_runsOut_of_opcode (f := .productLeft) rfl h fun r₁ h => ?_
    refine readTree_runsOut_of_append hleft h (iha hleft) fun r₂ h => ?_
    rw [resume_productLeft]
    exact ihb hright h
  | scaled a i ih =>
    simp only [encoding, bind_eq_ok_iff, pure_eq_ok_iff] at henc
    obtain ⟨index, hindex, b, hb, rfl⟩ := henc
    refine readTree_runsOut_of_opcode (f := .scaled) rfl h fun r₁ h => ?_
    refine readTree_runsOut_of_append hb h (ih hb) fun r₂ h => ?_
    -- The operand is finished, and the index of its constant is not there.
    rw [resume_scaled]
    exact (index_runsOut hindex h).bind _

/-! ## Reading at a position -/

theorem encodeExprs_singleton_eq_ok_iff :
    encodeExprs query pool [e] = .ok bytes ↔ encoding query pool e = .ok bytes := by
  simp [encodeExprs_eq_ok_iff, pendingEncoding, Pending.encoding, bind_eq_ok_iff]

/-- An expression is read at the position where its encoding stands, and the reader is then behind
it, whatever is in front and behind. If the data has only a part of the encoding, reading fails at
the end of the data. -/
theorem readExpr_reads_exactly_one (h : encodeExprs query pool [e] = .ok bytes) :
    (∀ before after : Bytes,
        readExpr query pool (ofBytesAt (before ++ bytes ++ after) before.length) =
          .ok (e, ofBytesAt (before ++ bytes ++ after) (before.length + bytes.length))) ∧
      ∀ before part : Bytes, part <+: bytes → part ≠ bytes →
        ∃ need pos left : Nat,
          readExpr query pool (ofBytesAt (before ++ part) before.length) =
              .error (.endOfData need pos left) ∧
            before.length ≤ pos ∧ pos + left = (before ++ part).length ∧ left < need := by
  rw [encodeExprs_singleton_eq_ok_iff] at h
  refine ⟨fun before after => ?_, fun before part hprefix hne => ?_⟩
  · exact readExpr_eq_ok_iff.2 ⟨bytes, h, passes_ofBytesAt before bytes after⟩
  · have hcut : (ofBytesAt (before ++ part) before.length).CutOff bytes := by
      obtain ⟨missing, rfl⟩ := hprefix
      refine ⟨missing, ?_, ?_⟩
      · rintro rfl
        exact hne (List.append_nil part).symm
      · rw [ofBytesAt_append]
    have hrun : (ofBytesAt (before ++ part) before.length).RunsOut
        (readExpr query pool (ofBytesAt (before ++ part) before.length)) := readTree_runsOut h hcut
    obtain ⟨need, pos, left, hread, hle, hend, hlt⟩ := hrun
    rw [ofBytesAt_append] at hle hend
    exact ⟨need, pos, left, hread, hle, by rw [List.length_append]; exact hend, hlt⟩

/-- A scaled expression. -/
def scaledSum : Ir :=
  .scaled (.sum (.var .advice 3) (.neg (.product (.var .fixed 0) (.var .challenge 2)))) 258

/-- Its encoding with one byte for the index of a query and four for that of a constant. -/
def scaledSumBytes : Bytes := [9, 7, 3, 3, 6, 8, 2, 0, 5, 2, 0, 0, 0, 2, 1, 0, 0]

/-- A scaled expression is read behind a byte that would open another one. It is not if the data
ends within the index of its constant. -/
theorem readExpr_reads_exactly_one_scaledSum :
    encodeExprs .u8 .u32 [scaledSum] = .ok scaledSumBytes ∧
      readExpr .u8 .u32 (ofBytesAt ([9] ++ scaledSumBytes ++ [0]) 1) =
        .ok (scaledSum, ofBytesAt ([9] ++ scaledSumBytes ++ [0]) 18) ∧
      ∃ need pos left : Nat,
        readExpr .u8 .u32 (ofBytesAt ([9] ++ scaledSumBytes.take 15) 1) =
            .error (.endOfData need pos left) ∧
          1 ≤ pos ∧ pos + left = 16 ∧ left < need := by
  have henc : encodeExprs .u8 .u32 [scaledSum] = .ok scaledSumBytes := by decide +kernel
  obtain ⟨hwhole, hpart⟩ := readExpr_reads_exactly_one henc
  exact ⟨henc, hwhole [9] [0],
    hpart [9] (scaledSumBytes.take 15) (List.take_prefix 15 scaledSumBytes) (by decide)⟩

end Plonkish.Wire
