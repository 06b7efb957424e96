import Plonkish.Bytes
import Plonkish.Json

/-!
# Writing JSON text

Values are written in ASCII, with one blank behind every comma and colon. Every other character is
escaped by its code units, or by a letter if it has one.
-/

namespace Plonkish.Json

/-- The escape of a code unit. -/
def escapeUnit (n : Nat) : List Char :=
  ['\\', 'u', Bytes.hexDigit (n / 0x1000 % 16), Bytes.hexDigit (n / 0x100 % 16),
    Bytes.hexDigit (n / 0x10 % 16), Bytes.hexDigit (n % 16)]

/-- The letter behind a backslash that stands for a control character. -/
def controlLetter? (n : Nat) : Option Char :=
  if n = 0x08 then some 'b'
  else if n = 0x09 then some 't'
  else if n = 0x0a then some 'n'
  else if n = 0x0c then some 'f'
  else if n = 0x0d then some 'r'
  else none

/-- One code point inside a text. Those beyond `U+FFFF` are written as two code units. -/
def escapePoint (p : CodePoint) : List Char :=
  let n := p.val
  if p = .ofChar '"' ∨ p = .ofChar '\\' then ['\\', Char.ofNat n]
  else if 0x20 ≤ n ∧ n < 0x7f then [Char.ofNat n]
  else match controlLetter? n with
    | some c => ['\\', c]
    | none =>
      if n < 0x10000 then escapeUnit n
      else
        escapeUnit (0xd800 + (n - 0x10000) / 0x400) ++
          escapeUnit (0xdc00 + (n - 0x10000) % 0x400)

/-- A text in double quotes. -/
def escapeText (t : Text) : String :=
  "\"" ++ String.ofList (t.points.flatMap escapePoint) ++ "\""

/-- The text of a number: one of the words for those that are not finite, else the fewest digits
that read back. -/
def realText : Binary64 → String
  | .nan => "NaN"
  | .infinite negative => if negative then "-Infinity" else "Infinity"
  | x => x.toText

mutual

/-- Appends the text of a value. -/
def renderTo (out : String) : Json → String
  | .null => out ++ "null"
  | .bool true => out ++ "true"
  | .bool false => out ++ "false"
  | .int n => out ++ toString n
  | .real x => out ++ realText x
  | .str t => out ++ escapeText t
  | .arr items => (renderItems (out.push '[') "" items).push ']'
  | .obj fields => (renderFields (out.push '\x7b') "" fields).push '\x7d'

/-- Appends the items of an array, `comma` in front of the first. -/
def renderItems (out comma : String) : List Json → String
  | [] => out
  | v :: items => renderItems (renderTo (out ++ comma) v) ", " items

/-- Appends the fields of an object, `comma` in front of the first. -/
def renderFields (out comma : String) : List (Text × Json) → String
  | [] => out
  | (k, v) :: fields => renderFields (renderTo (out ++ comma ++ escapeText k ++ ": ") v) ", " fields

end

/-- The text of a value. -/
def render (j : Json) : String := renderTo "" j

end Plonkish.Json
