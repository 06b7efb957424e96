import Plonkish.Bytes
import Plonkish.Text

/-!
# Reading hexadecimal text

A byte is a pair of hexadecimal digits of either case. Blanks may stand before a pair and at the
end, never inside a pair. A text that is refused is refused at a position, counted in characters.
-/

namespace Plonkish.Hex

/-- The value of a hexadecimal digit of either case. -/
def digit? (c : Char) : Option Nat :=
  if '0' ≤ c ∧ c ≤ '9' then some (c.toNat - 48)
  else if 'a' ≤ c ∧ c ≤ 'f' then some (c.toNat - 87)
  else if 'A' ≤ c ∧ c ≤ 'F' then some (c.toNat - 55)
  else none

/-- The six blanks of ASCII. -/
def isBlank (c : Char) : Bool :=
  c = ' ' || c = '\t' || c = '\n' || c = '\x0b' || c = '\x0c' || c = '\r'

/-- Reads the pairs of a text that starts at position `pos`, behind the bytes `read` so far (the
latest first). The error is the position of the character that is no digit, or of the end of the
text if the second digit of a pair is absent. -/
def pairs (pos : Nat) (read : Bytes) : List Char → Except Nat Bytes
  | [] => .ok read.reverse
  | c :: cs =>
    if isBlank c then pairs (pos + 1) read cs
    else match digit? c, cs with
      | none, _ => .error pos
      | some _, [] => .error (pos + 1)
      | some hi, d :: ds =>
        match digit? d with
        | none => .error (pos + 1)
        | some lo => pairs (pos + 2) (UInt8.ofNat (16 * hi + lo) :: read) ds

/-- The bytes of a hexadecimal text. The first code point outside ASCII is reported before any
other fault. -/
def decode (text : Text) : Except Nat Bytes :=
  match text.points.findIdx? (fun p => 128 ≤ p.val) with
  | some pos => .error pos
  | none => pairs 0 [] (text.points.filterMap CodePoint.toChar?)

end Plonkish.Hex
