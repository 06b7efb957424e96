import Plonkish.Proofs.Wire.Passage
import Plonkish.Wire.Expression

/-!
# The codec of expressions

The stack of open nodes is a context: reading with it means reading one whole expression first, and
then going on with the context. So the reader with a stack follows the recursive encoding.

* `Wire.resume`: how reading goes on behind a finished node.
* `Wire.readTree_of_encoding`: an encoded expression is read, and its node handed to the context.
* `Wire.exists_encoding_of_readTree`: what is read starts with an encoded expression.
* `Wire.readExpr_eq_ok_iff`, `Wire.decodeExprs_eq_ok_iff`: expressions are read from the bytes that
  they are written as, and from no others.
* `Wire.eq_of_encoding_append`: no encoded expression is in front of another.
* `Wire.exprs_bijective`: encoded expressions can be told apart again, without anything between
  them.
-/

namespace Plonkish.Wire

open Outcome Reader

variable {query pool : Width} {r r' r₁ : Reader} {e : Ir} {frames : List Frame} {bytes : Bytes}

/-! ## Opening a node -/

/-- The opcode that opens a frame. A frame that already has its left operand is not opened by an
opcode. -/
def Frame.opcode? : Frame → Option UInt8
  | .neg => some opNeg
  | .scaled => some opScaled
  | .sumLeft => some opSum
  | .productLeft => some opProduct
  | .sumRight _ => none
  | .productRight _ => none

theorem classOfOpcode?_eq_some_iff {op : UInt8} {cls : VariableClass} :
    classOfOpcode? op = some cls ↔ op = opVar cls := by
  constructor
  · intro h
    have := List.find?_some h
    simpa [eq_comm] using this
  · rintro rfl
    cases cls <;> rfl

theorem readVarIndex_eq_ok_iff {cls : VariableClass} {i : Nat} :
    readVarIndex query cls r = .ok (i, r') ↔
      ∃ bytes, encodeVarIndex query cls (i : Int) = .ok bytes ∧ r.Passes bytes r' := by
  cases cls with
  | challenge => exact number_eq_ok_iff_word "challenge index"
  | advice => exact index_eq_ok_iff _
  | fixed => exact index_eq_ok_iff _
  | inst => exact index_eq_ok_iff _

/-- An index that is written is a natural number. -/
theorem eq_natCast_of_encode {w : Width} {what : Text} {i : Int}
    (h : w.encode what i = .ok bytes) : ∃ n : Nat, i = n := by
  rw [Width.encode_int, word_eq_ok_iff_exists] at h
  obtain ⟨n, hn, -⟩ := h
  exact ⟨n, hn⟩

theorem eq_natCast_of_encodeVarIndex {cls : VariableClass} {i : Int}
    (h : encodeVarIndex query cls i = .ok bytes) : ∃ n : Nat, i = n := by
  cases cls with
  | challenge =>
    obtain ⟨n, hn, -⟩ := word_eq_ok_iff_exists.1 h
    exact ⟨n, hn⟩
  | advice => exact eq_natCast_of_encode h
  | fixed => exact eq_natCast_of_encode h
  | inst => exact eq_natCast_of_encode h

theorem openNode_opConst : openNode query pool opConst r =
    (do let (i, r) ← r.index pool; return (.leaf (.const i), r)) := rfl

theorem openNode_opVar (cls : VariableClass) : openNode query pool (opVar cls) r =
    (do let (i, r) ← readVarIndex query cls r; return (.leaf (.var cls i), r)) := by
  cases cls <;> rfl

theorem openNode_const {i : Nat} (h : encodeConstIndex pool i = .ok bytes)
    (hpass : r.Passes bytes r') :
    openNode query pool opConst r = .ok (.leaf (.const i), r') := by
  rw [openNode_opConst, (index_eq_ok_iff "constant pool index").2 ⟨bytes, h, hpass⟩]
  rfl

theorem openNode_var {cls : VariableClass} {i : Nat}
    (h : encodeVarIndex query cls (i : Int) = .ok bytes) (hpass : r.Passes bytes r') :
    openNode query pool (opVar cls) r = .ok (.leaf (.var cls i), r') := by
  rw [openNode_opVar, readVarIndex_eq_ok_iff.2 ⟨bytes, h, hpass⟩]
  rfl

theorem openNode_frame {f : Frame} {op : UInt8} (h : f.opcode? = some op) :
    openNode query pool op r = .ok (.frame f, r) := by
  cases f <;> cases h <;> rfl

/-- A leaf is opened exactly where its opcode and index stand. -/
theorem encoding_of_openNode_leaf {op : UInt8}
    (h : openNode query pool op r = .ok (.leaf e, r')) :
    ∃ bytes, encoding query pool e = .ok (op :: bytes) ∧ r.Passes bytes r' := by
  unfold openNode at h
  split at h
  · next hop =>
    simp only [bind_eq_ok_iff, Prod.exists, pure_eq_ok_iff, Prod.mk.injEq, Opened.leaf.injEq,
      index_eq_ok_iff "constant pool index"] at h
    obtain ⟨i, r₁, ⟨bytes, hindex, hpass⟩, rfl, rfl⟩ := h
    refine ⟨bytes, ?_, hpass⟩
    have hindex : encodeConstIndex pool i = .ok bytes := hindex
    simp [encoding, hindex, hop, bind, Except.bind, pure, Except.pure]
  · split at h
    · next cls hcls =>
      simp only [bind_eq_ok_iff, Prod.exists, pure_eq_ok_iff, Prod.mk.injEq, Opened.leaf.injEq,
        readVarIndex_eq_ok_iff] at h
      obtain ⟨i, r₁, ⟨bytes, hindex, hpass⟩, rfl, rfl⟩ := h
      refine ⟨bytes, ?_, hpass⟩
      have hop := classOfOpcode?_eq_some_iff.1 hcls
      simp [encoding, hindex, hop, bind, Except.bind, pure, Except.pure]
    · repeat' split at h
      all_goals cases h

theorem opcode_of_openNode_frame {op : UInt8} {f : Frame}
    (h : openNode query pool op r = .ok (.frame f, r')) : f.opcode? = some op ∧ r' = r := by
  unfold openNode at h
  split at h
  · simp only [bind_eq_ok_iff, pure_eq_ok_iff, Prod.mk.injEq, reduceCtorEq, false_and, and_false,
      exists_false] at h
  · split at h
    · simp only [bind_eq_ok_iff, pure_eq_ok_iff, Prod.mk.injEq, reduceCtorEq, false_and, and_false,
        exists_false] at h
    · repeat' split at h
      all_goals cases h <;> simp_all [Frame.opcode?]

/-! ## Going on behind a node -/

/-- Hands a finished node to the open ones, and reads on if some of them stay open. -/
def resume (query pool : Width) (e : Ir) (frames : List Frame) (r : Reader) :
    Except WireError (Ir × Reader) := do
  let (a, r) ← attach pool e frames r
  match a with
  | .done e => return (e, r)
  | .more frames => readTree query pool frames r

theorem resume_nil : resume query pool e [] r = .ok (e, r) := rfl

theorem resume_neg : resume query pool e (.neg :: frames) r = resume query pool (.neg e) frames r :=
  rfl

theorem resume_scaled :
    resume query pool e (.scaled :: frames) r =
      (do let (i, r) ← r.index pool; resume query pool (.scaled e i) frames r) := by
  unfold resume
  rw [attach]
  cases r.index pool <;> rfl

theorem resume_sumLeft :
    resume query pool e (.sumLeft :: frames) r = readTree query pool (.sumRight e :: frames) r := rfl

theorem resume_sumRight {a : Ir} :
    resume query pool e (.sumRight a :: frames) r = resume query pool (.sum a e) frames r := rfl

theorem resume_productLeft :
    resume query pool e (.productLeft :: frames) r =
      readTree query pool (.productRight e :: frames) r := rfl

theorem resume_productRight {a : Ir} :
    resume query pool e (.productRight a :: frames) r = resume query pool (.product a e) frames r :=
  rfl

/-- One round of reading, without its proof of termination. -/
theorem readTree_eq (query pool : Width) (frames : List Frame) (r : Reader) :
    readTree query pool frames r =
      (do
        let (op, r₁) ← r.byte
        let (o, r₂) ← openNode query pool op r₁
        match o with
        | .frame f => readTree query pool (f :: frames) r₂
        | .leaf e => resume query pool e frames r₂) := by
  rw [readTree]
  split
  · next err h =>
    conv_rhs => rw [h]
    rfl
  · next op r₁ h =>
    conv_rhs => rw [h]
    simp only [bind, Except.bind]
    split
    · next err h₁ => conv_rhs => rw [h₁]
    · next f r₂ h₁ => conv_rhs => rw [h₁]
    · next e r₂ h₁ =>
      conv_rhs => rw [h₁]
      simp only [resume, bind, Except.bind]
      split
      · next err h₂ => conv_rhs => rw [h₂]
      · next e' r₃ h₂ =>
        conv_rhs => rw [h₂]
        rfl
      · next frames' r₃ h₂ => conv_rhs => rw [h₂]

theorem readTree_of_opcode {f : Frame} {op : UInt8} (h : f.opcode? = some op)
    (hpass : r.Passes [op] r₁) :
    readTree query pool frames r = readTree query pool (f :: frames) r₁ := by
  rw [readTree_eq, byte_eq_ok_iff.2 hpass]
  simp only [bind, Except.bind, openNode_frame h]

/-! ## Reading what was written -/

theorem readTree_of_encoding (h : encoding query pool e = .ok bytes) (hpass : r.Passes bytes r₁) :
    readTree query pool frames r = resume query pool e frames r₁ := by
  induction e generalizing bytes r r₁ frames with
  | const i =>
    simp only [encoding, bind_eq_ok_iff, pure_eq_ok_iff] at h
    obtain ⟨index, hindex, rfl⟩ := h
    obtain ⟨n, rfl⟩ := eq_natCast_of_encode hindex
    obtain ⟨r₂, hop, hpass⟩ := passes_cons_iff.1 hpass
    rw [readTree_eq, byte_eq_ok_iff.2 hop]
    simp only [bind, Except.bind, openNode_const hindex hpass]
  | var cls i =>
    simp only [encoding, bind_eq_ok_iff, pure_eq_ok_iff] at h
    obtain ⟨index, hindex, rfl⟩ := h
    obtain ⟨n, rfl⟩ := eq_natCast_of_encodeVarIndex hindex
    obtain ⟨r₂, hop, hpass⟩ := passes_cons_iff.1 hpass
    rw [readTree_eq, byte_eq_ok_iff.2 hop]
    simp only [bind, Except.bind, openNode_var hindex hpass]
  | neg a ih =>
    simp only [encoding, bind_eq_ok_iff, pure_eq_ok_iff] at h
    obtain ⟨b, hb, rfl⟩ := h
    obtain ⟨r₂, hop, hpass⟩ := passes_cons_iff.1 hpass
    rw [readTree_of_opcode (f := .neg) rfl hop, ih hb hpass, resume_neg]
  | sum a b iha ihb =>
    simp only [encoding, bind_eq_ok_iff, pure_eq_ok_iff] at h
    obtain ⟨left, hleft, right, hright, rfl⟩ := h
    obtain ⟨r₂, hop, hpass⟩ := passes_cons_iff.1 hpass
    obtain ⟨r₃, hpassl, hpassr⟩ := passes_append_iff.1 hpass
    rw [readTree_of_opcode (f := .sumLeft) rfl hop, iha hleft hpassl, resume_sumLeft,
      ihb hright hpassr, resume_sumRight]
  | product a b iha ihb =>
    simp only [encoding, bind_eq_ok_iff, pure_eq_ok_iff] at h
    obtain ⟨left, hleft, right, hright, rfl⟩ := h
    obtain ⟨r₂, hop, hpass⟩ := passes_cons_iff.1 hpass
    obtain ⟨r₃, hpassl, hpassr⟩ := passes_append_iff.1 hpass
    rw [readTree_of_opcode (f := .productLeft) rfl hop, iha hleft hpassl, resume_productLeft,
      ihb hright hpassr, resume_productRight]
  | scaled a i ih =>
    simp only [encoding, bind_eq_ok_iff, pure_eq_ok_iff] at h
    obtain ⟨index, hindex, b, hb, rfl⟩ := h
    obtain ⟨n, rfl⟩ := eq_natCast_of_encode hindex
    obtain ⟨r₂, hop, hpass⟩ := passes_cons_iff.1 hpass
    obtain ⟨r₃, hpassb, hpassi⟩ := passes_append_iff.1 hpass
    have hread := (index_eq_ok_iff "constant pool index").2 ⟨index, hindex, hpassi⟩
    rw [readTree_of_opcode (f := .scaled) rfl hop, ih hb hpassb, resume_scaled, hread]
    rfl

/-! ## Writing what was read -/

/-- Reading with open nodes reads one whole expression and hands it to them. -/
theorem exists_encoding_of_readTree (h : readTree query pool frames r = .ok (e, r')) :
    ∃ e₀ bytes r₁, encoding query pool e₀ = .ok bytes ∧ r.Passes bytes r₁ ∧
      resume query pool e₀ frames r₁ = .ok (e, r') := by
  -- Behind the left operand of a sum the reader has gone on by more than one round, so the
  -- induction is on what is left to read.
  induction hn : r.rest.length using Nat.strongRecOn generalizing frames r with
  | ind n ih =>
  subst hn
  rw [readTree_eq] at h
  simp only [bind_eq_ok_iff, Prod.exists, byte_eq_ok_iff] at h
  obtain ⟨op, r₁, hop, o, r₂, ho, h⟩ := h
  have hlt : r₁.rest.length < r.rest.length := by
    rw [hop.rest, List.length_append]
    simp
  cases o with
  | leaf e₀ =>
    obtain ⟨bytes, hbytes, hpass⟩ := encoding_of_openNode_leaf ho
    exact ⟨e₀, op :: bytes, r₂, hbytes, hop.trans hpass, h⟩
  | frame f =>
    obtain ⟨hf, rfl⟩ := opcode_of_openNode_frame ho
    obtain ⟨a, abytes, r₃, ha, hpassa, h⟩ := ih _ hlt h rfl
    have hle := hpassa.length_le
    cases f with
    | neg =>
      cases hf
      refine ⟨.neg a, opNeg :: abytes, r₃, ?_, hop.trans hpassa, h⟩
      simp [encoding, ha, bind, Except.bind, pure, Except.pure]
    | scaled =>
      cases hf
      rw [resume_scaled] at h
      simp only [bind_eq_ok_iff, Prod.exists, index_eq_ok_iff "constant pool index"] at h
      obtain ⟨i, r₄, ⟨index, hindex, hpassi⟩, h⟩ := h
      refine ⟨.scaled a i, opScaled :: (abytes ++ index), r₄, ?_,
        hop.trans (hpassa.trans hpassi), h⟩
      have hindex : encodeConstIndex pool i = .ok index := hindex
      simp [encoding, ha, hindex, bind, Except.bind, pure, Except.pure]
    | sumLeft =>
      cases hf
      obtain ⟨b, bbytes, r₄, hb, hpassb, h⟩ := ih _ (by omega) h rfl
      refine ⟨.sum a b, opSum :: (abytes ++ bbytes), r₄, ?_, hop.trans (hpassa.trans hpassb), h⟩
      simp [encoding, ha, hb, bind, Except.bind, pure, Except.pure]
    | productLeft =>
      cases hf
      obtain ⟨b, bbytes, r₄, hb, hpassb, h⟩ := ih _ (by omega) h rfl
      refine ⟨.product a b, opProduct :: (abytes ++ bbytes), r₄, ?_,
        hop.trans (hpassa.trans hpassb), h⟩
      simp [encoding, ha, hb, bind, Except.bind, pure, Except.pure]
    | sumRight => cases hf
    | productRight => cases hf

/-! ## The codec -/

/-- An expression is read where its encoding stands, and nowhere else. -/
theorem readExpr_eq_ok_iff :
    readExpr query pool r = .ok (e, r') ↔
      ∃ bytes, encoding query pool e = .ok bytes ∧ r.Passes bytes r' := by
  constructor
  · intro h
    obtain ⟨e₀, bytes, r₁, henc, hpass, h⟩ := exists_encoding_of_readTree h
    cases h
    exact ⟨bytes, henc, hpass⟩
  · rintro ⟨bytes, henc, hpass⟩
    rw [readExpr, readTree_of_encoding henc hpass, resume_nil]

theorem ne_nil_of_encoding (h : encoding query pool e = .ok bytes) : bytes ≠ [] := by
  cases e <;> simp only [encoding, bind_eq_ok_iff, pure_eq_ok_iff] at h <;> grind

theorem pendingEncoding_cons_eq_ok_iff {es : List Ir} :
    pendingEncoding query pool ((e :: es).map .node) = .ok bytes ↔
      ∃ a, encoding query pool e = .ok a ∧
        ∃ b, pendingEncoding query pool (es.map .node) = .ok b ∧ a ++ b = bytes := by
  simp only [List.map_cons, pendingEncoding, Pending.encoding, bind_eq_ok_iff, pure_eq_ok_iff]

theorem encodeExprs_eq_ok_iff {es : List Ir} :
    encodeExprs query pool es = .ok bytes ↔
      pendingEncoding query pool (es.map .node) = .ok bytes := by
  simp only [encodeExprs, emit_eq, bind_eq_ok_iff, pure_eq_ok_iff]
  simp

/-- What is left to read, if it is not nothing, starts with an encoded expression. -/
theorem exists_readExpr_of_pendingEncoding {es : List Ir} (hend : ¬r.atEnd = true)
    (h : pendingEncoding query pool (es.map .node) = .ok r.rest) :
    ∃ e es' r₁, es = e :: es' ∧ readExpr query pool r = .ok (e, r₁) ∧
      pendingEncoding query pool (es'.map .node) = .ok r₁.rest := by
  cases es with
  | nil =>
    have : r.rest = [] := by
      simpa [pendingEncoding, eq_comm] using h
    exact absurd (atEnd_iff.2 this) hend
  | cons e es =>
    obtain ⟨a, ha, b, hb, hab⟩ := pendingEncoding_cons_eq_ok_iff.1 h
    exact ⟨e, es, ⟨r.pos + a.length, b⟩, rfl, readExpr_eq_ok_iff.2 ⟨a, ha, hab.symm, rfl⟩, hb⟩

/-- Reading to the end takes the encodings of all that is left. -/
theorem readExprs_eq_ok_iff {read es : List Ir} :
    readExprs query pool read r = .ok es ↔
      ∃ more, pendingEncoding query pool (more.map .node) = .ok r.rest ∧
        es = read.reverse ++ more := by
  fun_induction readExprs query pool read r with
  | case1 read r hend =>
    rw [atEnd_iff.1 hend]
    constructor
    · intro h
      cases h
      exact ⟨[], rfl, by simp⟩
    · rintro ⟨more, hmore, rfl⟩
      cases more with
      | nil => simp
      | cons e more =>
        obtain ⟨a, ha, b, -, hab⟩ := pendingEncoding_cons_eq_ok_iff.1 hmore
        exact absurd (List.append_eq_nil_iff.1 hab).1 (ne_nil_of_encoding ha)
  | case2 read r hend err h =>
    constructor
    · intro h
      cases h
    · rintro ⟨more, hmore, rfl⟩
      obtain ⟨e, more', r₁, rfl, hread, -⟩ := exists_readExpr_of_pendingEncoding hend hmore
      rw [h] at hread
      cases hread
  | case3 read r hend e r₁ h _ ih =>
    rw [ih]
    constructor
    · rintro ⟨more, hmore, rfl⟩
      obtain ⟨bytes, henc, hpass⟩ := readExpr_eq_ok_iff.1 h
      refine ⟨e :: more, pendingEncoding_cons_eq_ok_iff.2 ⟨bytes, henc, _, hmore, ?_⟩, by simp⟩
      exact hpass.rest.symm
    · rintro ⟨more, hmore, rfl⟩
      obtain ⟨e', more', r₂, rfl, hread, hmore⟩ := exists_readExpr_of_pendingEncoding hend hmore
      rw [h] at hread
      cases hread
      exact ⟨more', hmore, by simp⟩

/-- A list of expressions is read from the bytes that it is written as, and from no others. -/
theorem decodeExprs_eq_ok_iff {data : Bytes} {es : List Ir} :
    decodeExprs query pool data = .ok es ↔ encodeExprs query pool es = .ok data := by
  rw [decodeExprs, readExprs_eq_ok_iff, encodeExprs_eq_ok_iff]
  simp [ofBytes]

/-! ## Telling encodings apart -/

/-- Expressions are written one behind the other. -/
theorem encodeExprs_eq_ok_iff_mapM {es : List Ir} :
    encodeExprs query pool es = .ok bytes ↔
      ∃ parts, es.mapM (encoding query pool) = .ok parts ∧ parts.flatten = bytes := by
  rw [encodeExprs_eq_ok_iff]
  induction es generalizing bytes with
  | nil =>
    constructor
    · intro h
      cases h
      exact ⟨[], rfl, rfl⟩
    · rintro ⟨parts, h, rfl⟩
      cases h
      rfl
  | cons e es ih =>
    simp only [pendingEncoding_cons_eq_ok_iff, ih, List.mapM_cons, bind_eq_ok_iff, pure_eq_ok_iff]
    constructor
    · rintro ⟨a, ha, _, ⟨parts, hparts, rfl⟩, rfl⟩
      exact ⟨a :: parts, ⟨a, ha, parts, hparts, rfl⟩, rfl⟩
    · rintro ⟨_, ⟨a, ha, parts, hparts, rfl⟩, rfl⟩
      exact ⟨a, ha, parts.flatten, ⟨parts, hparts, rfl⟩, rfl⟩

/-- No encoded expression is in front of another. -/
theorem eq_of_encoding_append {e' : Ir} {a a' more more' : Bytes}
    (h : encoding query pool e = .ok a) (h' : encoding query pool e' = .ok a')
    (heq : a ++ more = a' ++ more') : e = e' ∧ a = a' ∧ more = more' := by
  have hread := readExpr_eq_ok_iff.2 ⟨a, h, passes_ofBytes_append a more⟩
  have hread' := readExpr_eq_ok_iff.2 ⟨a', h', passes_ofBytes_append a' more'⟩
  rw [heq, hread'] at hread
  obtain ⟨rfl, hend⟩ := Prod.mk.inj (Except.ok.inj hread)
  obtain ⟨-, rfl⟩ := Reader.mk.inj hend
  rw [h] at h'
  exact ⟨rfl, Except.ok.inj h', rfl⟩

/-- At given widths, writing and reading undo each other: expressions are read back from the bytes
that they are written as, and what is read from some bytes is written as them. So an encoded
expression ends where it does whatever follows, and a concatenation of encodings can be read in one
way only. -/
theorem exprs_bijective (query pool : Width) :
    (∀ (es : List Ir) (data : Bytes), encodeExprs query pool es = .ok data →
        decodeExprs query pool data = .ok es) ∧
      (∀ (es : List Ir) (data : Bytes), decodeExprs query pool data = .ok es →
        encodeExprs query pool es = .ok data) ∧
      (∀ (e e' : Ir) (a a' more more' : Bytes), encoding query pool e = .ok a →
        encoding query pool e' = .ok a' → a ++ more = a' ++ more' →
          e = e' ∧ a = a' ∧ more = more') ∧
      ∀ (es es' : List Ir) (parts parts' : List Bytes),
        es.mapM (encoding query pool) = .ok parts → es'.mapM (encoding query pool) = .ok parts' →
          parts.flatten = parts'.flatten → es = es' ∧ parts = parts' := by
  refine ⟨fun es data => decodeExprs_eq_ok_iff.2, fun es data => decodeExprs_eq_ok_iff.1,
    fun e e' a a' more more' => eq_of_encoding_append, ?_⟩
  intro es es' parts parts' h h' hflatten
  have hread := decodeExprs_eq_ok_iff.2 (encodeExprs_eq_ok_iff_mapM.2 ⟨parts, h, rfl⟩)
  have hread' := decodeExprs_eq_ok_iff.2 (encodeExprs_eq_ok_iff_mapM.2 ⟨parts', h', rfl⟩)
  rw [hflatten, hread'] at hread
  cases hread
  rw [h] at h'
  exact ⟨rfl, Except.ok.inj h'⟩

/-- Expressions of all kinds. -/
def allKinds : List Ir :=
  [.const 1,
    .scaled (.sum (.var .advice 3) (.neg (.product (.var .fixed 0) (.var .challenge 2)))) 258,
    .var .inst 0]

/-- Their encodings with one byte for the index of a query and four for that of a constant. -/
def allKindsParts : List Bytes :=
  [[0, 1, 0, 0, 0], [9, 7, 3, 3, 6, 8, 2, 0, 5, 2, 0, 0, 0, 2, 1, 0, 0], [4, 0]]

theorem exprs_bijective_allKinds :
    encodeExprs .u8 .u32 allKinds = .ok allKindsParts.flatten ∧
      decodeExprs .u8 .u32 allKindsParts.flatten = .ok allKinds ∧
      allKindsParts.flatten ≠ allKindsParts.reverse.flatten := by
  obtain ⟨hread, hwrite, -, hunique⟩ := exprs_bijective .u8 .u32
  have hparts : allKinds.mapM (encoding .u8 .u32) = .ok allKindsParts := by decide +kernel
  have hreverse : allKinds.reverse.mapM (encoding .u8 .u32) = .ok allKindsParts.reverse := by
    decide +kernel
  have hencode : encodeExprs .u8 .u32 allKinds = .ok allKindsParts.flatten :=
    encodeExprs_eq_ok_iff_mapM.2 ⟨allKindsParts, hparts, rfl⟩
  refine ⟨hencode, hread _ _ hencode, fun h => ?_⟩
  obtain ⟨hreversed, -⟩ := hunique _ _ _ _ hparts hreverse h
  revert hreversed
  decide

end Plonkish.Wire
