/-!
# Byte strings

Byte strings are lists of bytes. Numbers are written with the least significant byte first.

* `Bytes.toNat_ofNat`: reading a number back gives it modulo the capacity of its bytes.
* `Bytes.ofNat_toNat`: writing a number that was read, at the width of its bytes, gives the bytes.
-/

namespace Plonkish

/-- A byte string. -/
abbrev Bytes := List UInt8

namespace Bytes

/-- How many byte strings have `width` bytes: a power of 256. -/
def capacity : (width : Nat) → Nat
  | 0 => 1
  | w + 1 => 256 * capacity w

/-- The `width` low bytes of a number, least significant first. -/
def ofNat : (width : Nat) → (n : Nat) → Bytes
  | 0, _ => []
  | w + 1, n => UInt8.ofNat n :: ofNat w (n / 256)

/-- The number whose base-256 digits are the given bytes, least significant first. -/
def toNat : Bytes → Nat
  | [] => 0
  | b :: bs => b.toNat + 256 * toNat bs

/-- The hexadecimal digit of a number below 16, in lower case. -/
def hexDigit (n : Nat) : Char :=
  if n < 10 then Char.ofNat (48 + n) else Char.ofNat (87 + n)

/-- The two hexadecimal digits of a byte, high half first. -/
def hexPair (b : UInt8) : List Char :=
  [hexDigit (b.toNat / 16), hexDigit (b.toNat % 16)]

/-- The lower-case hexadecimal text of a byte string. -/
def toHex (bs : Bytes) : String :=
  String.ofList (bs.flatMap hexPair)

@[simp] theorem length_ofNat (w n : Nat) : (ofNat w n).length = w := by
  induction w generalizing n with
  | zero => rfl
  | succ w ih => simp [ofNat, ih]

theorem toNat_lt (bs : Bytes) : toNat bs < capacity bs.length := by
  induction bs with
  | nil => exact Nat.one_pos
  | cons b bs ih =>
    have hb := b.toNat_lt
    simp only [toNat, List.length_cons, capacity]
    omega

theorem toNat_ofNat (w n : Nat) : toNat (ofNat w n) = n % capacity w := by
  induction w generalizing n with
  | zero => exact (Nat.mod_one n).symm
  | succ w ih =>
    have hbyte : (UInt8.ofNat n).toNat = n % 256 := UInt8.toNat_ofNat'
    rw [ofNat, toNat, ih, hbyte, capacity, Nat.mod_mul]

theorem ofNat_toNat (bs : Bytes) : ofNat bs.length (toNat bs) = bs := by
  induction bs with
  | nil => rfl
  | cons b bs ih =>
    have hb := b.toNat_lt
    have h1 : (b.toNat + 256 * toNat bs) / 256 = toNat bs := by omega
    simp only [List.length_cons, ofNat, toNat, h1, ih, List.cons.injEq, and_true]
    apply UInt8.toNat_inj.1
    simp only [UInt8.toNat_ofNat']
    omega

end Bytes

end Plonkish
