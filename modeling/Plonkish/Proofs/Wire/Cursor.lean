import Mathlib.Data.List.TakeDrop
import Plonkish.Proofs.Wire.Passage
import Plonkish.Proofs.Wire.Width
import Plonkish.Wire.Cursor

/-!
# Runs of reads at a cursor

A cursor that starts in front of some bytes and is not moved back stays within them, whatever is
read and whatever of it fails. What it has answered tells how far it has come, and with which bytes.

* `Cursor.ask`, `Cursor.after`, `Cursor.log`: a request, the cursor after some, and their answers.
* `Cursor.ask_read_of_le`, `Cursor.ask_read_of_lt`: a read with enough bytes left, and one without.
* `Cursor.ask_eq_follow`: a cursor within the data does what a reader at the same place does.
* `Cursor.HasTold.ask`: one request; `Cursor.hasTold_log`: a run.
* `Cursor.Disciplined`: what a run tells about the cursor, and what the next request does with it.
-/

namespace Plonkish.Wire

/-- What can be read: some bytes, a number of some size, or an index. -/
inductive Read
  | bytes (n : Nat)
  | number (size : Nat)
  | index (w : Width)
  deriving DecidableEq

/-- What can be asked for. -/
inductive Request
  | read (x : Read)
  | atEnd
  | expectEnd
  deriving DecidableEq

/-- What can be answered. -/
inductive Reply
  | bytes (bs : Bytes)
  | number (n : Nat)
  | verdict (isAtEnd : Bool)
  | done
  | failure (e : CursorError)
  deriving DecidableEq

namespace Read

/-- The number of bytes that are read. -/
def size : Read → Nat
  | .bytes n => n
  | .number size => size
  | .index w => w.size

/-- The answer that bytes give: themselves, or the number that they spell. -/
def reply : Read → Bytes → Reply
  | .bytes _, bs => .bytes bs
  | .number _, bs => .number bs.toNat
  | .index _, bs => .number bs.toNat

theorem reply_ne_failure (x : Read) (bs : Bytes) (e : CursorError) : x.reply bs ≠ .failure e := by
  cases x <;> exact nofun

end Read

/-- The bytes that an answer tells of: those that were read, or those that spell the number that
was. -/
def told : Request × Reply → Bytes
  | (.read _, .bytes bs) => bs
  | (.read x, .number n) => Bytes.ofNat x.size n
  | _ => []

theorem told_reply {x : Read} {bs : Bytes} (h : bs.length = x.size) :
    told (.read x, x.reply bs) = bs := by
  have hspelled : Bytes.ofNat x.size bs.toNat = bs := by rw [← h, Bytes.ofNat_toNat]
  cases x with
  | bytes n => rfl
  | number size => exact hspelled
  | index w => exact hspelled

namespace Cursor

/-! ## Runs -/

/-- The answer to an outcome. -/
def reported {α : Type} (f : α → Reply) : Except CursorError α × Cursor → Reply × Cursor
  | (.ok a, c) => (f a, c)
  | (.error e, c) => (.failure e, c)

/-- Asks for something. -/
def ask (c : Cursor) : Request → Reply × Cursor
  | .read (.bytes n) => reported .bytes (c.take n)
  | .read (.number size) => reported .number (c.number size)
  | .read (.index w) => reported .number (c.index w)
  | .atEnd => (.verdict c.atEnd, c)
  | .expectEnd => reported (fun _ => .done) (c.expectEnd, c)

/-- The cursor after some requests. -/
def after (c : Cursor) (qs : List Request) : Cursor := qs.foldl (fun c q => (c.ask q).2) c

/-- Some requests with their answers. -/
def log : Cursor → List Request → List (Request × Reply)
  | _, [] => []
  | c, q :: qs => (q, (c.ask q).1) :: log (c.ask q).2 qs

/-- A cursor at a position of a byte string. -/
def ofBytesAt (data : Bytes) (pos : Nat) : Cursor := ⟨data, pos⟩

variable {data : Bytes} {pos n size : Nat} {x : Read}

/-! ## Reads -/

theorem le_left_iff : n ≤ (ofBytesAt data pos).left ↔ pos + n ≤ data.length := by
  simp only [ofBytesAt, left]
  omega

theorem toNat_left (data : Bytes) (pos : Nat) :
    (ofBytesAt data pos).left.toNat = data.length - pos := by
  simp only [ofBytesAt, left]
  omega

theorem take_of_le (h : pos + n ≤ data.length) :
    (ofBytesAt data pos).take n = (.ok ((data.drop pos).take n), ofBytesAt data (pos + n)) := by
  have hleft : ¬(ofBytesAt data pos).left < n := Int.not_lt.2 (le_left_iff.2 h)
  have hslice : sliceAt data pos (pos + n) = (data.drop pos).take n := by
    rw [← Int.natCast_add, sliceAt_natCast, List.drop_take, Nat.add_sub_cancel_left]
  rw [take, if_neg hleft]
  simp only [ofBytesAt, hslice, Int.natCast_add]

theorem take_of_lt (h : data.length < pos + n) :
    (ofBytesAt data pos).take n =
      (.error (.wire (.endOfData n pos (data.length - pos))), ofBytesAt data pos) := by
  have hleft : (ofBytesAt data pos).left < n :=
    Int.not_le.1 (mt le_left_iff.1 (Nat.not_le.2 h))
  rw [take, if_pos hleft, toNat_left]
  rfl

theorem length_take_drop (h : pos + n ≤ data.length) : ((data.drop pos).take n).length = n := by
  rw [List.length_take, List.length_drop]
  omega

theorem number_of_le (h : pos + size ≤ data.length) :
    (ofBytesAt data pos).number size =
      (.ok (Bytes.toNat ((data.drop pos).take size)), ofBytesAt data (pos + size)) := by
  rw [number, take_of_le h]
  simp only [length_take_drop h, if_true]

theorem number_of_lt (h : data.length < pos + size) :
    (ofBytesAt data pos).number size =
      (.error (.wire (.endOfData size pos (data.length - pos))), ofBytesAt data pos) := by
  rw [number, take_of_lt h]

/-- A read takes the next bytes, if there are enough. -/
theorem ask_read_of_le (h : pos + x.size ≤ data.length) :
    (ofBytesAt data pos).ask (.read x) =
      (x.reply ((data.drop pos).take x.size), ofBytesAt data (pos + x.size)) := by
  cases x with
  | bytes n => exact congrArg (reported .bytes) (take_of_le h)
  | number size => exact congrArg (reported .number) (number_of_le h)
  | index w => exact congrArg (reported .number) (number_of_le h)

/-- A read fails if fewer bytes are left, and leaves the cursor where it is. -/
theorem ask_read_of_lt (h : data.length < pos + x.size) :
    (ofBytesAt data pos).ask (.read x) =
      (.failure (.wire (.endOfData x.size pos (data.length - pos))), ofBytesAt data pos) := by
  cases x with
  | bytes n => exact congrArg (reported .bytes) (take_of_lt h)
  | number size => exact congrArg (reported .number) (number_of_lt h)
  | index w => exact congrArg (reported .number) (number_of_lt h)

theorem atEnd_ofBytesAt_iff : (ofBytesAt data pos).atEnd = true ↔ data.length ≤ pos := by
  rw [atEnd, decide_eq_true_iff]
  simp only [ofBytesAt, left]
  omega

theorem ask_atEnd (data : Bytes) (pos : Nat) :
    (ofBytesAt data pos).ask .atEnd =
      (.verdict (decide (data.length ≤ pos)), ofBytesAt data pos) := by
  have hverdict : (ofBytesAt data pos).atEnd = decide (data.length ≤ pos) := by
    rw [Bool.eq_iff_iff, atEnd_ofBytesAt_iff, decide_eq_true_iff]
  rw [ask, hverdict]

theorem ask_expectEnd_of_le (h : data.length ≤ pos) :
    (ofBytesAt data pos).ask .expectEnd = (.done, ofBytesAt data pos) := by
  have hend : (ofBytesAt data pos).expectEnd = .ok () := by
    rw [expectEnd, if_pos (atEnd_ofBytesAt_iff.2 h)]
  rw [ask, hend]
  rfl

theorem ask_expectEnd_of_lt (h : pos < data.length) :
    (ofBytesAt data pos).ask .expectEnd =
      (.failure (.wire (.trailing (data.length - pos))), ofBytesAt data pos) := by
  have hmore : ¬(ofBytesAt data pos).atEnd = true := mt atEnd_ofBytesAt_iff.1 (Nat.not_le.2 h)
  rw [ask, expectEnd, if_neg hmore, toNat_left]
  rfl

theorem ask_expectEnd_iff :
    (ofBytesAt data pos).ask .expectEnd = (.done, ofBytesAt data pos) ↔ data.length ≤ pos := by
  by_cases h : data.length ≤ pos
  · exact iff_of_true (ask_expectEnd_of_le h) h
  · rw [ask_expectEnd_of_lt (Nat.not_le.1 h)]
    exact iff_of_false nofun h

end Cursor

/-! ## Readers -/

namespace Reader

/-- Asks for something. -/
def answer (r : Reader) : Request → Except WireError (Reply × Reader)
  | .read (.bytes n) => (r.take n).map (Prod.map .bytes id)
  | .read (.number size) => (r.number size).map (Prod.map .number id)
  | .read (.index w) => (r.index w).map (Prod.map .number id)
  | .atEnd => .ok (.verdict r.atEnd, r)
  | .expectEnd => r.expectEnd.map fun _ => (.done, r)

variable {data : Bytes} {pos : Nat} {x : Read}

/-- Every read takes some bytes, and answers with what they give. -/
theorem answer_read (r : Reader) (x : Read) :
    r.answer (.read x) = (r.take x.size).map (Prod.map x.reply id) := by
  have hnumber (size : Nat) :
      (r.number size).map (Prod.map Reply.number id) =
        (r.take size).map (Prod.map (fun bs => Reply.number bs.toNat) id) := by
    rw [number]
    cases r.take size <;> rfl
  cases x with
  | bytes n => rfl
  | number size => exact hnumber size
  | index w => exact hnumber w.size

theorem take_ofBytesAt_of_le {n : Nat} (h : pos + n ≤ data.length) :
    (ofBytesAt data pos).take n = .ok ((data.drop pos).take n, ofBytesAt data (pos + n)) := by
  refine take_eq_ok_iff.2 ⟨?_, rfl, ?_⟩
  · rw [length_rest_ofBytesAt]
    omega
  · rw [ofBytesAt, ofBytesAt, List.drop_drop]

theorem take_ofBytesAt_of_lt {n : Nat} (hpos : pos ≤ data.length) (h : data.length < pos + n) :
    (ofBytesAt data pos).take n = .error (.endOfData n pos (data.length - pos)) := by
  have hshort : (ofBytesAt data pos).rest.length < n := by
    rw [length_rest_ofBytesAt]
    omega
  rw [take_of_lt hshort, length_rest_ofBytesAt]
  rfl

theorem rest_ofBytesAt_eq_nil_iff : (ofBytesAt data pos).rest = [] ↔ data.length ≤ pos :=
  List.drop_eq_nil_iff

end Reader

namespace Cursor

variable {data : Bytes} {pos : Nat} {x : Read} {c : Cursor} {past : List (Request × Reply)}

/-- A cursor does what a reader does: it is moved to the place of the reader, or it stays. -/
def follow (c : Cursor) : Except WireError (Reply × Reader) → Reply × Cursor
  | .ok (reply, r) => (reply, { c with pos := r.pos })
  | .error e => (.failure (.wire e), c)

/-- A cursor within the data does what a reader at the same place does. -/
theorem ask_eq_follow (hpos : pos ≤ data.length) (q : Request) :
    (ofBytesAt data pos).ask q =
      (ofBytesAt data pos).follow ((Reader.ofBytesAt data pos).answer q) := by
  cases q with
  | read x =>
    rw [Reader.answer_read]
    by_cases h : pos + x.size ≤ data.length
    · rw [ask_read_of_le h, Reader.take_ofBytesAt_of_le h]
      rfl
    · have hlt : data.length < pos + x.size := by omega
      rw [ask_read_of_lt hlt, Reader.take_ofBytesAt_of_lt hpos hlt]
      rfl
  | atEnd =>
    have hverdict : (Reader.ofBytesAt data pos).atEnd = decide (data.length ≤ pos) := by
      rw [Bool.eq_iff_iff, Reader.atEnd_iff, Reader.rest_ofBytesAt_eq_nil_iff, decide_eq_true_iff]
    rw [ask_atEnd, Reader.answer, hverdict]
    rfl
  | expectEnd =>
    rw [Reader.answer]
    by_cases h : data.length ≤ pos
    · have hend := Reader.expectEnd_eq_ok_iff (u := ()).2 (Reader.rest_ofBytesAt_eq_nil_iff.2 h)
      rw [ask_expectEnd_of_le h, hend]
      rfl
    · have hmore := mt Reader.rest_ofBytesAt_eq_nil_iff.1 h
      rw [ask_expectEnd_of_lt (Nat.not_le.1 h), Reader.expectEnd_of_ne_nil hmore,
        Reader.length_rest_ofBytesAt]
      rfl

/-! ## Recorded runs -/

/-- A cursor is one that a run leaves: the run has told of the data in front of it. -/
def HasTold (data : Bytes) (past : List (Request × Reply)) (c : Cursor) : Prop :=
  ∃ pos ≤ data.length, c = ofBytesAt data pos ∧ past.flatMap told = data.take pos

theorem hasTold_start (data : Bytes) : HasTold data [] (ofBytesAt data 0) :=
  ⟨0, Nat.zero_le _, rfl, rfl⟩

/-- One request is recorded behind the others. -/
theorem HasTold.ask (h : HasTold data past c) (q : Request) :
    HasTold data (past ++ [(q, (c.ask q).1)]) (c.ask q).2 := by
  obtain ⟨pos, hpos, rfl, htold⟩ := h
  -- What tells of no bytes leaves the cursor.
  have hstay (reply : Reply) (hnothing : told (q, reply) = []) :
      HasTold data (past ++ [(q, reply)]) (ofBytesAt data pos) := by
    refine ⟨pos, hpos, rfl, ?_⟩
    rw [List.flatMap_append, htold, List.flatMap_singleton, hnothing, List.append_nil]
  cases q with
  | read x =>
    by_cases h : pos + x.size ≤ data.length
    · rw [ask_read_of_le h]
      refine ⟨pos + x.size, h, rfl, ?_⟩
      rw [List.flatMap_append, htold, List.flatMap_singleton, told_reply (length_take_drop h),
        List.take_add]
    · rw [ask_read_of_lt (Nat.not_le.1 h)]
      exact hstay _ rfl
  | atEnd => exact hstay _ rfl
  | expectEnd =>
    by_cases h : data.length ≤ pos
    · rw [ask_expectEnd_of_le h]
      exact hstay _ rfl
    · rw [ask_expectEnd_of_lt (Nat.not_le.1 h)]
      exact hstay _ rfl

/-- A run is recorded behind what was recorded before. -/
theorem HasTold.after (h : HasTold data past c) (qs : List Request) :
    HasTold data (past ++ log c qs) (after c qs) := by
  induction qs generalizing c past with
  | nil => simpa [Cursor.after, log] using h
  | cons q qs ih =>
    have hrest := ih (h.ask q)
    rw [List.append_assoc] at hrest
    exact hrest

theorem hasTold_log (data : Bytes) (qs : List Request) :
    HasTold data (log (ofBytesAt data 0) qs) (after (ofBytesAt data 0) qs) :=
  (hasTold_start data).after qs

/-! ## What a recorded run says -/

theorem ask_read_fails_iff {e : CursorError} :
    ((ofBytesAt data pos).ask (.read x)).1 = .failure e ↔
      data.length < pos + x.size ∧ e = .wire (.endOfData x.size pos (data.length - pos)) := by
  by_cases h : pos + x.size ≤ data.length
  · rw [ask_read_of_le h]
    exact iff_of_false (x.reply_ne_failure _ e) fun hshort => Nat.not_lt.2 h hshort.1
  · have hlt := Nat.not_le.1 h
    rw [ask_read_of_lt hlt]
    simp [hlt, eq_comm]

/-- A word has its size and spells its number. -/
theorem length_and_toNat_of_word {size : Nat} {what : Text} {value : Int} {bs : Bytes}
    (h : word size what value = .ok bs) : bs.length = size ∧ bs.toNat = value.toNat := by
  obtain ⟨n, rfl, hn, rfl⟩ := word_eq_ok_iff_exists.1 h
  exact ⟨Bytes.length_ofNat size n, Bytes.toNat_ofNat_of_lt hn⟩

/-- Every integer in the range of a word is written, and where its word stands it is read. -/
theorem ask_read_of_fitsWord {value : Int} (hx : ∀ bs, x.reply bs = .number bs.toNat)
    (hpos : pos ≤ data.length) (what : Text) (hfits : FitsWord x.size value) :
    ∃ bs, word x.size what value = .ok bs ∧ ∀ more, data.drop pos = bs ++ more →
      (ofBytesAt data pos).ask (.read x) = (.number value.toNat, ofBytesAt data (pos + x.size)) := by
  obtain ⟨bs, hword⟩ := exists_word_iff.2 hfits
  obtain ⟨hsize, hvalue⟩ := length_and_toNat_of_word hword
  refine ⟨bs, hword, fun more hdata => ?_⟩
  have hlength := congrArg List.length hdata
  rw [List.length_drop, List.length_append, hsize] at hlength
  have htake : (data.drop pos).take x.size = bs := by rw [hdata, ← hsize, List.take_left]
  rw [ask_read_of_le (by omega), htake, hx, hvalue]

theorem ofBytesAt_moved (data : Bytes) (pos n : Nat) :
    { ofBytesAt data pos with pos := (ofBytesAt data pos).pos + n } = ofBytesAt data (pos + n) := by
  simp only [ofBytesAt, Int.natCast_add]

/-- What a run of requests has told about the cursor that it leaves, and what the next request does
with the cursor. -/
structure Disciplined (data : Bytes) (past : List (Request × Reply)) (c : Cursor) : Prop where
  data_eq : c.data = data
  pos_nonneg : 0 ≤ c.pos
  pos_le : c.pos ≤ data.length
  /-- The bytes that were read, one after the other, are the data in front of the cursor. -/
  told_eq : past.flatMap told = data.take c.pos.toNat
  /-- A read fails exactly if it asks for more bytes than are left. -/
  fails_iff : ∀ x e, (c.ask (.read x)).1 = .failure e ↔
    c.left < x.size ∧ e = .wire (.endOfData x.size c.pos c.left.toNat)
  /-- A read that fails leaves the cursor where it is. -/
  of_failure : ∀ x e, (c.ask (.read x)).1 = .failure e → (c.ask (.read x)).2 = c
  /-- Any other read takes the next bytes, and answers with them or with the number that they
  spell. -/
  read_eq : ∀ x, x.size ≤ c.left → c.ask (.read x) =
    (x.reply ((data.drop c.pos.toNat).take x.size), { c with pos := c.pos + x.size })
  /-- Every integer in the range of a word is written, and read where its word stands. -/
  number_of_word : ∀ size what value, FitsWord size value → ∃ bs, word size what value = .ok bs ∧
    ∀ more, data.drop c.pos.toNat = bs ++ more →
      c.ask (.read (.number size)) = (.number value.toNat, { c with pos := c.pos + size })
  /-- Every integer in the range of an index is written, and read where it stands. -/
  index_of_encode : ∀ (w : Width) what (value : Int), FitsWord w.size value →
    ∃ bs, w.encode what value = .ok bs ∧ ∀ more, data.drop c.pos.toNat = bs ++ more →
      c.ask (.read (.index w)) = (.number value.toNat, { c with pos := c.pos + w.size })
  atEnd_eq : c.ask .atEnd = (.verdict (decide (past.flatMap told = data)), c)
  /-- The end is reached exactly if the bytes that were read are all of the data. -/
  expectEnd_iff : c.ask .expectEnd = (.done, c) ↔ past.flatMap told = data
  expectEnd_of_more : past.flatMap told ≠ data →
    c.ask .expectEnd = (.failure (.wire (.trailing c.left.toNat)), c)
  /-- A reader at the same place does the same. -/
  reader_eq : ∀ q, c.ask q = c.follow ((Reader.ofBytesAt data c.pos.toNat).answer q)

theorem disciplined_ofBytesAt (hpos : pos ≤ data.length) (htold : past.flatMap told = data.take pos) :
    Disciplined data past (ofBytesAt data pos) where
  data_eq := rfl
  pos_nonneg := Int.natCast_nonneg pos
  pos_le := Int.ofNat_le.2 hpos
  told_eq := htold
  fails_iff x e := by
    rw [← Int.not_le, le_left_iff, Nat.not_le, toNat_left]
    exact ask_read_fails_iff
  of_failure x e he := by
    rw [ask_read_of_lt (ask_read_fails_iff.1 he).1]
  read_eq x hx := by
    rw [ofBytesAt_moved]
    exact ask_read_of_le (le_left_iff.1 hx)
  number_of_word size what value hfits := by
    rw [ofBytesAt_moved]
    exact ask_read_of_fitsWord (x := .number size) (fun _ => rfl) hpos what hfits
  index_of_encode w what value hfits := by
    rw [ofBytesAt_moved, w.encode_int]
    exact ask_read_of_fitsWord (x := .index w) (fun _ => rfl) hpos what hfits
  atEnd_eq := by
    rw [htold, ask_atEnd, decide_eq_decide.2 (List.take_eq_self_iff data)]
  expectEnd_iff := by
    rw [htold, List.take_eq_self_iff]
    exact ask_expectEnd_iff
  expectEnd_of_more hmore := by
    rw [htold, Ne, List.take_eq_self_iff, Nat.not_le] at hmore
    rw [ask_expectEnd_of_lt hmore, toNat_left]
  reader_eq := ask_eq_follow hpos

/-- After every run of requests, whatever of it failed, the cursor is as the answers tell. -/
theorem disciplined_run (data : Bytes) (qs : List Request) :
    Disciplined data (log (ofBytesAt data 0) qs) (after (ofBytesAt data 0) qs) := by
  obtain ⟨pos, hpos, hafter, htold⟩ := hasTold_log data qs
  rw [hafter]
  exact disciplined_ofBytesAt hpos htold

/-- A byte, the word of 258, and another byte. -/
def padded : Bytes := [7, 2, 1, 0, 0, 9]

/-- The byte is read; a word of eight bytes is not there, and the end is not reached. -/
def interrupted : List Request := [.read (.number 1), .read (.number 8), .expectEnd]

/-- Behind two failures the word is where it was. More bytes than are left are not read, and the end
is still not reached. -/
theorem disciplined_run_interrupted :
    log (ofBytesAt padded 0) interrupted =
        [(.read (.number 1), .number 7),
          (.read (.number 8), .failure (.wire (.endOfData 8 1 5))),
          (.expectEnd, .failure (.wire (.trailing 5)))] ∧
      after (ofBytesAt padded 0) interrupted = ofBytesAt padded 1 ∧
        (ofBytesAt padded 1).ask (.read (.index .u32)) = (.number 258, ofBytesAt padded 5) ∧
          ((ofBytesAt padded 1).ask (.read (.bytes 6))).2 = ofBytesAt padded 1 ∧
            (ofBytesAt padded 1).ask .expectEnd ≠ (.done, ofBytesAt padded 1) := by
  have hrun := disciplined_run padded interrupted
  have hlog : log (ofBytesAt padded 0) interrupted =
      [(.read (.number 1), .number 7), (.read (.number 8), .failure (.wire (.endOfData 8 1 5))),
        (.expectEnd, .failure (.wire (.trailing 5)))] := by decide
  have hafter : after (ofBytesAt padded 0) interrupted = ofBytesAt padded 1 := by decide
  rw [hlog, hafter] at hrun
  obtain ⟨bs, hword, hread⟩ := hrun.index_of_encode .u32 "index" 258 (by decide)
  have hbytes : bs = [2, 1, 0, 0] := (Except.ok.inj (hword.symm.trans (by decide +kernel)))
  have hstands : padded.drop (ofBytesAt padded 1).pos.toNat = bs ++ [9] := by
    rw [hbytes]
    rfl
  have hfails := (hrun.fails_iff (.bytes 6) _).2 ⟨by decide, rfl⟩
  exact ⟨hlog, hafter, hread [9] hstands, hrun.of_failure _ _ hfails,
    fun hdone => absurd (hrun.expectEnd_iff.1 hdone) (by decide)⟩

end Cursor

end Plonkish.Wire
