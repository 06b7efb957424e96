import Plonkish.Bytes
import Plonkish.Text.Printable

/-!
# Quoted text

A text is quoted in single quotes, unless it holds a single quote and no double quote; then it is
quoted in double quotes. The quote in use and the backslash are escaped, and so is every code point
without a printed form. So a quoted text is a `String`.
-/

namespace Plonkish.Text

/-- The quote around a text. -/
def quoteOf (t : Text) : Char :=
  if .ofChar '\'' ∈ t.points ∧ .ofChar '"' ∉ t.points then '"' else '\''

/-- The `width` low hexadecimal digits of a number, most significant first. -/
def hexDigits : (width : Nat) → (n : Nat) → List Char
  | 0, _ => []
  | w + 1, n => hexDigits w (n / 16) ++ [Bytes.hexDigit (n % 16)]

/-- The numeric escape of a code point, as short as its size allows. -/
def escapedPoint (p : CodePoint) : List Char :=
  if p.val < 0x100 then '\\' :: 'x' :: hexDigits 2 p.val
  else if p.val < 0x10000 then '\\' :: 'u' :: hexDigits 4 p.val
  else '\\' :: 'U' :: hexDigits 8 p.val

/-- One code point between quotes. -/
def quotedPoint (quote : Char) (p : CodePoint) : List Char :=
  match p.toChar? with
  | none => escapedPoint p
  | some c =>
    if c = quote ∨ c = '\\' then ['\\', c]
    else if c = '\t' then ['\\', 't']
    else if c = '\n' then ['\\', 'n']
    else if c = '\r' then ['\\', 'r']
    else if p.isPrintable then [c]
    else escapedPoint p

/-- A text in quotes. -/
def quoted (t : Text) : String :=
  String.ofList (t.quoteOf :: t.points.flatMap (quotedPoint t.quoteOf) ++ [t.quoteOf])

end Plonkish.Text
