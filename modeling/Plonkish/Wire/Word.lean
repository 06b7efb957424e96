import Plonkish.Bytes
import Plonkish.Quantity

/-!
# Words and index widths

Numbers are written as words of a fixed number of bytes, least significant byte first. Indices
into a list take one byte if the list has at most 255 items and four bytes otherwise; a flag byte
says which.

* `Wire.word_eq_ok_iff`: an integer is written exactly if it is in the range of the word.
* `Wire.word_eq_error_iff`: otherwise it is an overflow.
* `Wire.truncatedWord_int`: an integer is its own integer part.
-/

namespace Plonkish.Wire

variable {ν : Type} [Quantity ν]

/-- The largest number that a word of `size` bytes holds. -/
def maxWord (size : Nat) : Nat := Bytes.capacity size - 1

/-- The bytes of a quantity as a word of `size` bytes. -/
def word (size : Nat) (what : Text) (value : ν) : Except WriteError Bytes :=
  match Quantity.within? (maxWord size) value, Quantity.integer? value with
  | none, _ => .error .notANumber
  | some false, _ => .error (.overflow ⟨what, Quantity.toJson value, maxWord size⟩)
  | some true, none => .error .notAnInteger
  | some true, some n => .ok (Bytes.ofNat size n.toNat)

theorem word_int (size : Nat) (what : Text) (value : Int) :
    word size what value =
      if 0 ≤ value ∧ value ≤ maxWord size then .ok (Bytes.ofNat size value.toNat)
      else .error (.overflow ⟨what, .int value, maxWord size⟩) := by
  unfold word
  by_cases h : 0 ≤ value ∧ value ≤ maxWord size <;> simp [h]

theorem word_eq_ok_iff {size : Nat} {what : Text} {value : Int} {bytes : Bytes} :
    word size what value = .ok bytes ↔
      0 ≤ value ∧ value ≤ maxWord size ∧ bytes = Bytes.ofNat size value.toNat := by
  rw [word_int]
  split
  · next h => simp [h, eq_comm]
  · next h => simp; intro h0 h1; exact absurd ⟨h0, h1⟩ h

theorem word_eq_error_iff {size : Nat} {what : Text} {value : Int} {e : WriteError} :
    word size what value = .error e ↔
      ¬(0 ≤ value ∧ value ≤ maxWord size) ∧ e = .overflow ⟨what, .int value, maxWord size⟩ := by
  rw [word_int]
  split
  · next h => simp [h]
  · next h => simp [h, eq_comm]

/-- The bytes of the integer part of a quantity, as a word of `size` bytes, if the quantity is in
the range of the word. -/
def truncatedWord (size : Nat) (what : Text) (value : ν) : Except WriteError Bytes :=
  match Quantity.within? (maxWord size) value with
  | none => .error .notANumber
  | some false => .error (.overflow ⟨what, Quantity.toJson value, maxWord size⟩)
  | some true => .ok (Bytes.ofNat size (Quantity.truncated value).toNat)

theorem truncatedWord_int (size : Nat) (what : Text) (value : Int) :
    truncatedWord size what value = word size what value := by
  unfold truncatedWord word
  by_cases h : 0 ≤ value ∧ value ≤ maxWord size <;> simp [h]

/-- The width of an index. -/
inductive Width
  | u8
  | u32
  deriving DecidableEq, Repr, Inhabited

namespace Width

/-- The name of a width. -/
def name : Width → String
  | .u8 => "u8"
  | .u32 => "u32"

/-- The number of bytes of an index. -/
def size : Width → Nat
  | .u8 => 1
  | .u32 => 4

/-- The flag byte of a width. -/
def flag : Width → UInt8
  | .u8 => 0
  | .u32 => 1

/-- The width that a flag byte stands for. -/
def ofFlag? (b : UInt8) : Option Width :=
  if b = 0 then some .u8 else if b = 1 then some .u32 else none

/-- The largest number of items that indices of four bytes can name. -/
def maxCount : Nat := Bytes.capacity 4

/-- The width for indices into lists with the given numbers of items. -/
def select (what : Text) (counts : List Nat) : Except WriteError Width :=
  match counts.find? fun count => maxCount < count with
  | some count => .error (.overflow ⟨what, .int count, maxCount⟩)
  | none => .ok (if counts.all fun count => count ≤ 255 then .u8 else .u32)

/-- The width of indices into a table of constants. -/
def forConstants (count : Nat) : Except WriteError Width :=
  select "constant pool size" [count]

/-- The width of indices into the lists of advice, fixed and instance queries. -/
def forQueries (advice fixed inst : Nat) : Except WriteError Width :=
  select "query list size" [advice, fixed, inst]

/-- The bytes of an index: of its integer part. -/
def encode (w : Width) (what : Text) (index : ν) : Except WriteError Bytes :=
  truncatedWord w.size what index

theorem encode_int (w : Width) (what : Text) (index : Int) :
    w.encode what index = word w.size what index := truncatedWord_int w.size what index

end Width

end Plonkish.Wire
