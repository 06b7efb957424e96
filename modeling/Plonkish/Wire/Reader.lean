import Plonkish.Wire.Error
import Plonkish.Wire.Word

/-!
# Reading bytes

A reader stands at a position of a byte string. A read takes the next bytes, or fails and leaves
the reader where it is.

* `Reader.take_eq_ok_iff`: a read succeeds exactly if enough bytes are left, and takes them.
-/

namespace Plonkish.Wire

/-- A position in a byte string, with the bytes behind it. -/
structure Reader where
  pos : Nat
  rest : Bytes
  deriving DecidableEq, Repr, Inhabited

namespace Reader

/-- A reader at the start of a byte string. -/
def ofBytes (data : Bytes) : Reader := ⟨0, data⟩

/-- Reads `n` bytes. -/
def take (n : Nat) (r : Reader) : Except WireError (Bytes × Reader) :=
  let bytes := r.rest.take n
  if bytes.length < n then .error (.endOfData n r.pos r.rest.length)
  else .ok (bytes, ⟨r.pos + n, r.rest.drop n⟩)

/-- Reads a number of `size` bytes. -/
def number (size : Nat) (r : Reader) : Except WireError (Nat × Reader) := do
  let (bytes, r) ← r.take size
  return (bytes.toNat, r)

/-- Reads one byte. -/
def byte (r : Reader) : Except WireError (UInt8 × Reader) :=
  match r.rest with
  | b :: rest => .ok (b, ⟨r.pos + 1, rest⟩)
  | [] => .error (.endOfData 1 r.pos 0)

/-- Reads an index. -/
def index (w : Width) (r : Reader) : Except WireError (Nat × Reader) := r.number w.size

/-- Whether nothing is left. -/
def atEnd (r : Reader) : Bool := r.rest.isEmpty

/-- Fails if bytes are left. -/
def expectEnd (r : Reader) : Except WireError Unit :=
  if r.atEnd then .ok () else .error (.trailing r.rest.length)

/-! ## Lengths -/

theorem take_eq_ok_iff {n : Nat} {r r' : Reader} {bytes : Bytes} :
    r.take n = .ok (bytes, r') ↔
      n ≤ r.rest.length ∧ bytes = r.rest.take n ∧ r' = ⟨r.pos + n, r.rest.drop n⟩ := by
  unfold take
  simp only [List.length_take]
  split
  · next h => simp; omega
  · next h => simp [eq_comm]; omega

theorem length_of_take {n : Nat} {r r' : Reader} {bytes : Bytes}
    (h : r.take n = .ok (bytes, r')) : r'.rest.length + n = r.rest.length := by
  obtain ⟨hn, _, rfl⟩ := take_eq_ok_iff.1 h
  simp
  omega

theorem length_of_number {size n : Nat} {r r' : Reader} (h : r.number size = .ok (n, r')) :
    r'.rest.length + size = r.rest.length := by
  unfold number at h
  cases ht : r.take size with
  | error e => rw [ht] at h; cases h
  | ok v =>
    obtain ⟨bytes, r''⟩ := v
    rw [ht] at h
    cases h
    exact length_of_take ht

theorem length_of_byte {b : UInt8} {r r' : Reader} (h : r.byte = .ok (b, r')) :
    r'.rest.length + 1 = r.rest.length := by
  unfold byte at h
  split at h
  · next hr => cases h; simp [hr]
  · cases h

theorem length_of_index {w : Width} {n : Nat} {r r' : Reader} (h : r.index w = .ok (n, r')) :
    r'.rest.length < r.rest.length := by
  have := length_of_number h
  cases w <;> simp [Width.size] at this <;> omega

end Reader

end Plonkish.Wire
