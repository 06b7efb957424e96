import Plonkish.Number.Literal
import Plonkish.Scalar
import Plonkish.Text

/-!
# Decoding errors

Why bytes, or groups of bytes, do not spell what they are read as.
-/

namespace Plonkish

/-- Why decoding fails. -/
inductive WireError
  /-- More bytes are needed at a position than are left. -/
  | endOfData (need : Nat) (pos : Int) (left : Nat)
  /-- Bytes are left where the data should end. -/
  | trailing (count : Nat)
  /-- The number of groups is not that of an artifact. -/
  | groupCount (expected count : Nat)
  /-- A group is absent. -/
  | noGroup (name : Text)
  /-- The number of elements is not that of the general information. -/
  | infoCount (count expected : Nat)
  /-- An element of the general information has another size. -/
  | infoSize (index size expected : Nat)
  /-- A width flag is not a single byte. -/
  | flagSize (size : Nat)
  /-- A width flag stands for no width. -/
  | unknownWidth (flag : UInt8)
  /-- A tag stands for no column kind. -/
  | unknownKind (tag : UInt8)
  /-- An advice column lies beyond the phases. -/
  | noPhase (index count : Nat)
  /-- A rotation points neither way. -/
  | direction (b : UInt8)
  /-- A byte at a position starts no expression. -/
  | opcode (b : UInt8) (pos : Nat)
  /-- The two sides of the arguments differ in number. -/
  | argumentCounts
  /-- A constant is not in canonical form. -/
  | constant (e : ScalarError)
  /-- Commitments cannot be cut into pieces of the given size. -/
  | blobSize (what : String) (size : Nat) (unit : Int)
  /-- Commitments of no size cannot be told apart. -/
  | zeroUnit
  deriving DecidableEq, Repr

/-- Whether the text would spell a number of too many digits. Only the position of a cursor can
have grown so far from the data. -/
def WireError.isTooLong : WireError → Bool
  | .endOfData need pos left => [need, pos.natAbs, left].any Literal.isTooLong
  | .trailing count => Literal.isTooLong count
  | _ => false

/-- The text of the error. -/
def WireError.message : WireError → Text
  | .endOfData need pos left =>
    s!"Unexpected end of data: need {need} bytes at offset {pos}, {left} left"
  | .trailing count => s!"Trailing data: {count} bytes unread"
  | .groupCount expected count => s!"Expected {expected} groups, got {count}"
  | .noGroup name => "Group '" ++ name ++ "' not found"
  | .infoCount count expected => s!"General Info has {count} elements, expected {expected}"
  | .infoSize index size expected =>
    s!"General Info element {index} has {size} bytes, expected {expected}"
  | .flagSize size => s!"Width flag must be one byte, got {size}"
  | .unknownWidth flag => s!"{flag.toNat} is not a valid IndexWidth"
  | .unknownKind tag => s!"{tag.toNat} is not a valid ColumnKind"
  | .noPhase index count => s!"Advice column {index} has no phase ({count} advice columns)"
  | .direction b => s!"Invalid rotation direction byte: {b.toNat}"
  | .opcode b pos => s!"Invalid opcode 0x{Bytes.toHex [b]} at offset {pos}"
  | .argumentCounts => "Lookup or shuffle expression groups have mismatched lengths"
  | .constant e => e.message
  | .blobSize what size unit => s!"{what} length {size} is not a multiple of {unit}"
  | .zeroUnit => "Commitments must not be empty"

end Plonkish
