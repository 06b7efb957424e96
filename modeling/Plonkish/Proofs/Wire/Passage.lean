import Plonkish.Proofs.Bytes
import Plonkish.Proofs.Outcome
import Plonkish.Wire.Reader

/-!
# Reading and writing as one relation

A read that succeeds passes some bytes, and each reading function passes exactly the bytes that the
writing function gives for what it reads. Stated as an equivalence this is both laws of a codec:
what is written is read back, and what is read could only be written so.

* `Reader.Passes`: a reader stands in front of some bytes, another behind them.
* `Reader.ofBytesAt`: a reader at a position of some data.
* `Reader.number_eq_ok_iff`, `Reader.byte_eq_ok_iff`, `Reader.index_eq_ok_iff`: the equivalence for
  numbers, bytes and indices.
-/

namespace Plonkish.Wire

theorem lt_capacity_iff {size n : Nat} : n < Bytes.capacity size ↔ (n : Int) ≤ maxWord size := by
  have := Bytes.capacity_pos size
  unfold maxWord
  omega

/-- A word is written for natural numbers only. -/
theorem word_eq_ok_iff_exists {size : Nat} {what : Text} {value : Int} {bytes : Bytes} :
    word size what value = .ok bytes ↔
      ∃ n : Nat, value = n ∧ n < Bytes.capacity size ∧ bytes = Bytes.ofNat size n := by
  rw [word_eq_ok_iff]
  constructor
  · rintro ⟨h0, h1, rfl⟩
    obtain ⟨n, rfl⟩ := Int.eq_ofNat_of_zero_le h0
    exact ⟨n, rfl, lt_capacity_iff.2 h1, rfl⟩
  · rintro ⟨n, rfl, hn, rfl⟩
    exact ⟨Int.natCast_nonneg n, lt_capacity_iff.1 hn, rfl⟩

namespace Reader

/-- The reader stands in front of some bytes, and another one behind them. -/
structure Passes (r : Reader) (bytes : Bytes) (r' : Reader) : Prop where
  rest : r.rest = bytes ++ r'.rest
  pos : r'.pos = r.pos + bytes.length

variable {r r' r₁ : Reader} {a b bytes data : Bytes} {n size : Nat}

theorem passes_nil_iff : r.Passes [] r' ↔ r' = r := by
  obtain ⟨p, s⟩ := r
  obtain ⟨p', s'⟩ := r'
  constructor
  · rintro ⟨h1, h2⟩
    simp only [List.nil_append, List.length_nil, Nat.add_zero] at h1 h2
    rw [h1, h2]
  · intro h
    cases h
    exact ⟨rfl, rfl⟩

theorem passes_append_iff :
    r.Passes (a ++ b) r' ↔ ∃ r₁, r.Passes a r₁ ∧ r₁.Passes b r' := by
  constructor
  · rintro ⟨h1, h2⟩
    refine ⟨⟨r.pos + a.length, b ++ r'.rest⟩, ⟨by rw [h1, List.append_assoc], rfl⟩, rfl, ?_⟩
    rw [h2, List.length_append, Nat.add_assoc]
  · rintro ⟨r₁, ⟨h1, h2⟩, h3, h4⟩
    refine ⟨by rw [h1, h3, List.append_assoc], ?_⟩
    rw [h4, h2, List.length_append, Nat.add_assoc]

theorem passes_cons_iff {x : UInt8} :
    r.Passes (x :: bytes) r' ↔ ∃ r₁, r.Passes [x] r₁ ∧ r₁.Passes bytes r' :=
  passes_append_iff (a := [x])

theorem Passes.trans (h₁ : r.Passes a r₁) (h₂ : r₁.Passes b r') : r.Passes (a ++ b) r' :=
  passes_append_iff.2 ⟨r₁, h₁, h₂⟩

theorem Passes.length_le (h : r.Passes bytes r') : r'.rest.length ≤ r.rest.length := by
  rw [h.rest, List.length_append]
  omega

/-- From the start to the end of some data there is nothing but the data. -/
theorem passes_to_end_iff :
    (∃ r, (ofBytes data).Passes bytes r ∧ r.rest = []) ↔ bytes = data := by
  constructor
  · rintro ⟨r, h, he⟩
    have := h.rest
    rw [he, List.append_nil] at this
    exact this.symm
  · rintro rfl
    exact ⟨⟨0 + bytes.length, []⟩, ⟨by simp [ofBytes], rfl⟩, rfl⟩

/-- The bytes in front of others are passed, and the others are left. -/
theorem passes_ofBytes_append (data more : Bytes) :
    (ofBytes (data ++ more)).Passes data ⟨data.length, more⟩ :=
  ⟨rfl, (Nat.zero_add _).symm⟩

/-! ## Positions -/

/-- A reader at a position of a byte string. -/
def ofBytesAt (data : Bytes) (pos : Nat) : Reader := ⟨pos, data.drop pos⟩

theorem length_rest_ofBytesAt (data : Bytes) (pos : Nat) :
    (ofBytesAt data pos).rest.length = data.length - pos :=
  List.length_drop

theorem passes_ofBytesAt (before bytes after : Bytes) :
    (ofBytesAt (before ++ bytes ++ after) before.length).Passes bytes
      (ofBytesAt (before ++ bytes ++ after) (before.length + bytes.length)) := by
  have hstart : (before ++ bytes ++ after).drop before.length = bytes ++ after := by simp
  have hend : (before ++ bytes ++ after).drop (before.length + bytes.length) = after := by
    rw [← List.length_append, List.drop_left]
  constructor
  · rw [ofBytesAt, ofBytesAt, hstart, hend]
  · rfl

theorem ofBytesAt_append (before bytes : Bytes) :
    ofBytesAt (before ++ bytes) before.length = ⟨before.length, bytes⟩ := by
  rw [ofBytesAt, List.drop_left]

/-! ## Reading functions -/

theorem take_eq_ok_iff_passes : r.take n = .ok (bytes, r') ↔ bytes.length = n ∧ r.Passes bytes r' := by
  rw [take_eq_ok_iff]
  constructor
  · rintro ⟨hn, rfl, rfl⟩
    refine ⟨by simp [hn], (List.take_append_drop n r.rest).symm, ?_⟩
    simp [hn]
  · rintro ⟨rfl, h⟩
    obtain ⟨p', s'⟩ := r'
    have hp : p' = r.pos + bytes.length := h.pos
    simp [h.rest, hp]

theorem take_of_lt (h : r.rest.length < n) :
    r.take n = .error (.endOfData n r.pos r.rest.length) := by
  have hshort : (r.rest.take n).length < n := by
    rw [List.length_take]
    omega
  rw [take]
  exact if_pos hshort

theorem number_eq_ok_iff :
    r.number size = .ok (n, r') ↔
      n < Bytes.capacity size ∧ r.Passes (Bytes.ofNat size n) r' := by
  simp only [number, Outcome.bind_eq_ok_iff, Outcome.pure_eq_ok_iff, Prod.exists, Prod.mk.injEq,
    take_eq_ok_iff_passes]
  constructor
  · rintro ⟨bytes, r'', ⟨rfl, h⟩, rfl, rfl⟩
    exact ⟨Bytes.toNat_lt bytes, by rwa [Bytes.ofNat_toNat]⟩
  · rintro ⟨hn, h⟩
    exact ⟨_, r', ⟨Bytes.length_ofNat size n, h⟩, Bytes.toNat_ofNat_of_lt hn, rfl⟩

/-- A number is read exactly where its word stands. -/
theorem number_eq_ok_iff_word (what : Text) :
    r.number size = .ok (n, r') ↔ ∃ bytes, word size what (n : Int) = .ok bytes ∧ r.Passes bytes r' := by
  rw [number_eq_ok_iff]
  simp only [word_eq_ok_iff_exists, Int.natCast_inj]
  constructor
  · rintro ⟨hn, h⟩
    exact ⟨_, ⟨n, rfl, hn, rfl⟩, h⟩
  · rintro ⟨_, ⟨m, rfl, hm, rfl⟩, h⟩
    exact ⟨hm, h⟩

theorem index_eq_ok_iff {w : Width} (what : Text) :
    r.index w = .ok (n, r') ↔
      ∃ bytes, w.encode what (n : Int) = .ok bytes ∧ r.Passes bytes r' := by
  simp only [index, Width.encode_int]
  exact number_eq_ok_iff_word what

theorem byte_eq_ok_iff {x : UInt8} : r.byte = .ok (x, r') ↔ r.Passes [x] r' := by
  obtain ⟨p', s'⟩ := r'
  unfold byte
  constructor
  · intro h
    split at h
    · next b rest hs =>
      cases h
      exact ⟨hs, rfl⟩
    · cases h
  · intro h
    have hp : p' = r.pos + 1 := h.pos
    rw [h.rest, hp]
    rfl

theorem atEnd_iff : r.atEnd = true ↔ r.rest = [] := List.isEmpty_iff

theorem expectEnd_eq_ok_iff {u : Unit} : r.expectEnd = .ok u ↔ r.rest = [] := by
  rw [← atEnd_iff, expectEnd]
  by_cases h : r.atEnd = true <;> simp [h]

theorem expectEnd_of_ne_nil (h : r.rest ≠ []) : r.expectEnd = .error (.trailing r.rest.length) := by
  rw [expectEnd, if_neg (mt atEnd_iff.1 h)]

end Reader

end Plonkish.Wire
