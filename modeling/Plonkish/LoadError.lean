import Plonkish.Number.Literal
import Plonkish.Scalar
import Plonkish.Text.Quoted

/-!
# Loading errors

Why a JSON value does not describe a circuit or a key.
-/

namespace Plonkish

/-- Why a JSON value is refused. -/
inductive LoadError
  /-- An object lacks a field that is needed. -/
  | missing (key : String)
  /-- A value is not of the type that is needed. -/
  | wrongType
  /-- A field is asked of a value that is no object. -/
  | noFields
  /-- The kind of a column is none of the three. -/
  | columnKind (text : Text)
  /-- An expression's operation is unknown. -/
  | operation (text : Text)
  /-- A text is no integer literal. -/
  | literal (text : Text) (e : LiteralError)
  /-- A text is no hexadecimal text, for the code point at a position. -/
  | hex (pos : Nat)
  /-- Bytes are no canonical scalar. -/
  | scalar (e : ScalarError)
  /-- A number is infinite. -/
  | infinite
  /-- A number is no number. -/
  | notANumber
  /-- A text has no encoding, for its code points from a position up to another. -/
  | surrogates (text : Text) (first behind : Nat)
  deriving DecidableEq, Repr

namespace LoadError

/-- The number of characters of a quoted text that an error shows. -/
def shownCharacters : Nat := 200

/-- What is wrong with a literal. -/
def literalMessage (text : Text) : LiteralError → String
  | .malformed =>
    let shown := String.ofList (text.quoted.toList.take shownCharacters)
    s!"invalid literal for int() with base 0: {shown}"
  | .tooLong digits limit =>
    s!"Exceeds the limit ({limit} digits) for integer string conversion: " ++
      s!"value has {digits} digits; use sys.set_int_max_str_digits() to increase the limit"

/-- What is wrong with code points that have no encoding: a single one is shown. -/
def surrogatesMessage (text : Text) (first behind : Nat) : String :=
  if behind = first + 1 then
    let shown := String.ofList (((text.points.drop first).take 1).flatMap Text.escapedPoint)
    s!"'utf-8' codec can't encode character '{shown}' in position {first}: " ++
      "surrogates not allowed"
  else
    s!"'utf-8' codec can't encode characters in position {first}-{behind - 1}: " ++
      "surrogates not allowed"

/-- The text of the error. -/
def message : LoadError → Text
  | .missing key => Text.quoted key
  | .wrongType => "value of a wrong type"
  | .noFields => "value without fields"
  | .columnKind text => "Invalid column kind: " ++ text
  | .operation text => "Invalid expression op: " ++ text
  | .literal text e => literalMessage text e
  | .hex pos => s!"non-hexadecimal number found in fromhex() arg at position {pos}"
  | .scalar e => e.message
  | .infinite => "cannot convert float infinity to integer"
  | .notANumber => "cannot convert float NaN to integer"
  | .surrogates text first behind => surrogatesMessage text first behind

/-- The name of the kind of an error. -/
def kind : LoadError → String
  | .missing _ => "KeyError"
  | .wrongType => "TypeError"
  | .noFields => "AttributeError"
  | .infinite => "OverflowError"
  | .surrogates _ _ _ => "UnicodeEncodeError"
  | _ => "ValueError"

/-- The details of an error as they follow its kind in parentheses. -/
def details : LoadError → String
  | .missing key => Text.quoted key
  | .surrogates text first behind =>
    s!"'utf-8', {text.quoted}, {first}, {behind}, 'surrogates not allowed'"
  | e => e.message.quoted

end LoadError

end Plonkish
