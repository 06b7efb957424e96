import Plonkish.Bytes

/-!
# Scalars

The field of integers modulo the order of the BN254 curve's scalar group. A scalar is written as 32
bytes, least significant first, and only reduced values are read back. A uniform string of 64 bytes
is reduced instead.

* `Scalar.ofBytes_toBytes`: what is written is read back.
-/

namespace Plonkish

/-- The order of the scalar field. -/
def modulus : Nat := 0x30644E72E131A029B85045B68181585D2833E84879B9709143E1F593F0000001

instance : @NeZero Nat Zero.ofOfNat0 modulus := ⟨by decide⟩

/-- A scalar: an integer modulo `modulus`, held in reduced form. -/
abbrev Scalar := Fin modulus

/-- Why a byte string is no scalar. -/
inductive ScalarError
  /-- The canonical form has 32 bytes. -/
  | length (size : Nat)
  /-- The number is not below the modulus. -/
  | notReduced (bytes : Bytes)
  /-- A uniform string has 64 bytes. -/
  | uniformLength (size : Nat)
  deriving DecidableEq, Repr

namespace ScalarError

/-- The text of the error. -/
def message : ScalarError → String
  | .length size => s!"Field repr must be 32 bytes, got {size}"
  | .notReduced bytes => s!"Non-canonical field repr: {bytes.toHex}"
  | .uniformLength size => s!"Uniform bytes must be 64 bytes, got {size}"

end ScalarError

namespace Scalar

/-- The residue of an integer. -/
def ofInt (v : Int) : Scalar :=
  ⟨(v % modulus).toNat, by
    have : (0 : Int) < modulus := by decide
    have := Int.emod_nonneg v (b := modulus) (by omega)
    have := Int.emod_lt_of_pos v (b := modulus) (by omega)
    omega⟩

/-- Powers by repeated squaring. -/
def pow (x : Scalar) (n : Nat) : Scalar :=
  if n = 0 then 1
  else
    let y := pow (x * x) (n / 2)
    if n % 2 = 0 then y else x * y
termination_by n
decreasing_by omega

/-! ## Canonical bytes -/

/-- The number of bytes of a canonical scalar. -/
def byteSize : Nat := 32

/-- The number of bytes of a uniform string. -/
def uniformSize : Nat := 64

/-- The canonical bytes of a scalar. -/
def toBytes (x : Scalar) : Bytes :=
  Bytes.ofNat byteSize x.val

/-- The scalar that the given bytes are the canonical form of. -/
def ofBytes (bytes : Bytes) : Except ScalarError Scalar :=
  if bytes.length ≠ byteSize then .error (.length bytes.length)
  else if h : bytes.toNat < modulus then .ok ⟨bytes.toNat, h⟩
  else .error (.notReduced bytes)

/-- The residue of the number that 64 bytes spell. -/
def ofUniformBytes (bytes : Bytes) : Except ScalarError Scalar :=
  if bytes.length ≠ uniformSize then .error (.uniformLength bytes.length)
  else .ok (Fin.ofNat modulus bytes.toNat)

/-- The scalar as `0x` and 64 hexadecimal digits, most significant first. -/
def toHexText (x : Scalar) : String :=
  "0x" ++ Bytes.toHex x.toBytes.reverse

theorem length_toBytes (x : Scalar) : x.toBytes.length = byteSize := by
  simp [toBytes]

theorem ofBytes_toBytes (x : Scalar) : ofBytes x.toBytes = .ok x := by
  have hlt : x.val < Bytes.capacity 32 := Nat.lt_trans x.isLt (by decide)
  have hval : Bytes.toNat (Bytes.ofNat 32 x.val) = x.val := by
    rw [Bytes.toNat_ofNat, Nat.mod_eq_of_lt hlt]
  simp [ofBytes, toBytes, byteSize, hval]

end Scalar

end Plonkish
