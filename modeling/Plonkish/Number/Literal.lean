import Plonkish.Text

/-!
# Integer literals

An integer is written with an optional sign and digits, blanks around it. A single underscore may
stand between two digits. In the prefixed grammar the digits may follow `0x`, `0o` or `0b`, of
either case, with one underscore allowed behind the prefix, and a decimal literal has no leading
zeros unless it is zero. In the decimal grammar leading zeros are allowed. The digits of every
script count: those of each script are ten consecutive code points, so a table of the zeros holds
all of them. A reader may refuse decimal literals of more than a given number of digits.

* `Literal.parse_none`: without a limit a text is refused exactly if the grammar refuses it.
-/

namespace Plonkish

/-! ## Digits and blanks of all scripts -/

namespace CodePoint

/-- The code points of the digit zero, one for each script. -/
def zeroDigits : List Nat :=
  [0x30, 0x660, 0x6f0, 0x7c0, 0x966, 0x9e6, 0xa66, 0xae6, 0xb66, 0xbe6, 0xc66, 0xce6, 0xd66,
   0xde6, 0xe50, 0xed0, 0xf20, 0x1040, 0x1090, 0x17e0, 0x1810, 0x1946, 0x19d0, 0x1a80, 0x1a90,
   0x1b50, 0x1bb0, 0x1c40, 0x1c50, 0xa620, 0xa8d0, 0xa900, 0xa9d0, 0xa9f0, 0xaa50, 0xabf0,
   0xff10, 0x104a0, 0x10d30, 0x11066, 0x110f0, 0x11136, 0x111d0, 0x112f0, 0x11450, 0x114d0,
   0x11650, 0x116c0, 0x11730, 0x118e0, 0x11950, 0x11c50, 0x11d50, 0x11da0, 0x16a60, 0x16ac0,
   0x16b50, 0x1d7ce, 0x1d7d8, 0x1d7e2, 0x1d7ec, 0x1d7f6, 0x1e140, 0x1e2f0, 0x1e950, 0x1fbf0]

/-- The value of a decimal digit of any script. -/
def decimalDigit? (p : CodePoint) : Option Nat :=
  (zeroDigits.find? fun z => z ≤ p.val && p.val < z + 10).map (p.val - ·)

/-- Whether a code point of any script is blank. The information separators of ASCII are not. -/
def isBlank (p : CodePoint) : Bool :=
  let n := p.val
  (9 ≤ n && n ≤ 13) || n == 0x20 || n == 0x85 || n == 0xa0 || n == 0x1680 ||
    (0x2000 ≤ n && n ≤ 0x200a) || n == 0x2028 || n == 0x2029 || n == 0x202f || n == 0x205f ||
    n == 0x3000

example : (ofChar '7').decimalDigit? = some 7 ∧ (ofChar '٣').decimalDigit? = some 3 ∧
    (ofChar 'a').decimalDigit? = none := by
  decide

end CodePoint

/-- Why a text is no integer literal. -/
inductive LiteralError
  | malformed
  /-- A decimal literal has more digits than the limit. -/
  | tooLong (digits limit : Nat)
  deriving DecidableEq, Repr

namespace Literal

/-! ## The grammar -/

/-- A code point as a character of ASCII: a digit of any script as that digit, and any blank as a
space. Other characters become one that no literal holds. -/
def asciiChar (p : CodePoint) : Char :=
  if p.val < 128 then Char.ofNat p.val
  else if p.isBlank then ' '
  else match p.decimalDigit? with
    | some d => Char.ofNat (48 + d)
    | none => '?'

/-- The blanks of ASCII. -/
def isBlank (c : Char) : Bool := c = ' ' || ('\t' ≤ c && c ≤ '\r')

/-- The characters of a text without the blanks at its ends. -/
def trimmed (text : Text) : List Char :=
  (((text.points.map asciiChar).dropWhile isBlank).reverse.dropWhile isBlank).reverse

/-- The value of a digit in bases up to sixteen. -/
def digit? (base : Nat) (c : Char) : Option Nat :=
  let value? :=
    if '0' ≤ c ∧ c ≤ '9' then some (c.toNat - 48)
    else if 'a' ≤ c ∧ c ≤ 'f' then some (c.toNat - 87)
    else if 'A' ≤ c ∧ c ≤ 'F' then some (c.toNat - 55)
    else none
  value?.filter (· < base)

/-- Reads the digits behind the value `acc`. `afterDigit` says that the last character was a
digit, so an underscore may follow; the literal must end behind a digit. -/
def digits? (base : Nat) (acc : Nat) (afterDigit : Bool) : List Char → Option Nat
  | [] => if afterDigit then some acc else none
  | '_' :: cs => if afterDigit then digits? base acc false cs else none
  | c :: cs =>
    match digit? base c with
    | some d => digits? base (base * acc + d) true cs
    | none => none

/-- Reads the digits behind a prefix, where one underscore may come first. -/
def prefixed? (base : Nat) : List Char → Option Nat
  | '_' :: cs => digits? base 0 false cs
  | cs => digits? base 0 false cs

/-- An unsigned decimal literal without leading zeros, or a zero. -/
def plain? (cs : List Char) : Option Nat :=
  match cs.head?, digits? 10 0 false cs with
  | some '0', some (_ + 1) => none
  | _, value? => value?

/-- The base that a prefix names. -/
def prefixBase? : List Char → Option Nat
  | '0' :: p :: _ =>
    if p = 'x' ∨ p = 'X' then some 16
    else if p = 'o' ∨ p = 'O' then some 8
    else if p = 'b' ∨ p = 'B' then some 2
    else none
  | _ => none

/-- An unsigned literal of the prefixed grammar. -/
def unsigned? (cs : List Char) : Option Nat :=
  match prefixBase? cs with
  | some base => prefixed? base (cs.drop 2)
  | none => plain? cs

/-- A literal with an optional sign in front of an unsigned one. -/
def signed? (unsigned? : List Char → Option Nat) : List Char → Option Int
  | '+' :: cs => (unsigned? cs).map fun n => (n : Int)
  | '-' :: cs => (unsigned? cs).map fun n => -(n : Int)
  | cs => (unsigned? cs).map fun n => (n : Int)

/-! ## Limits -/

/-- The number of digits in a run of decimal digits and underscores in front, behind `count`
digits. A run in which an underscore stands elsewhere than between two digits has none. -/
def runLength? (count : Nat) (afterDigit : Bool) : List Char → Option Nat
  | [] => if afterDigit then some count else none
  | '_' :: cs => if afterDigit then runLength? count false cs else none
  | c :: cs =>
    match digit? 10 c with
    | some _ => runLength? (count + 1) true cs
    | none => if afterDigit then some count else none

/-- The characters behind a sign. -/
def behindSign : List Char → List Char
  | '+' :: cs => cs
  | '-' :: cs => cs
  | cs => cs

/-- The most digits of a decimal literal that is read or written. -/
def digitLimit : Nat := 4300

/-- Whether a number has more digits than are written. -/
def isTooLong (n : Nat) : Bool := Nat.pow 10 digitLimit ≤ n

/-- Fails for a literal whose run of decimal digits is longer than a limit, whatever follows the
run. -/
def checkLength (limit : Option Nat) (cs : List Char) : Except LiteralError Unit :=
  match limit, runLength? 0 false cs with
  | some limit, some count =>
    if count ≤ limit then .ok () else .error (.tooLong count limit)
  | _, _ => .ok ()

/-- A result, or the error of a malformed literal. -/
def orMalformed : Option Int → Except LiteralError Int
  | some n => .ok n
  | none => .error .malformed

/-- The integer that a text of the prefixed grammar spells. Only decimal literals are limited. -/
def parse (limit : Option Nat) (text : Text) : Except LiteralError Int := do
  let cs := trimmed text
  let body := behindSign cs
  checkLength (if (prefixBase? body).isSome then none else limit) body
  orMalformed (signed? unsigned? cs)

/-- The integer that a text of the decimal grammar spells. -/
def parseDecimal (limit : Option Nat) (text : Text) : Except LiteralError Int := do
  let cs := trimmed text
  checkLength limit (behindSign cs)
  orMalformed (signed? (digits? 10 0 false) cs)

theorem parse_none (text : Text) :
    parse none text = orMalformed (signed? unsigned? (trimmed text)) := by
  simp [parse, checkLength, bind, Except.bind]

example : parse none " -0x_fF " = .ok (-255) ∧ parse none "010" = .error .malformed ∧
    parse none "0_0" = .ok 0 ∧ parse (some 2) "1_23x" = .error (.tooLong 3 2) ∧
    parseDecimal none "007" = .ok 7 ∧ parseDecimal none "1__0" = .error .malformed :=
  ⟨rfl, rfl, rfl, rfl, rfl, rfl⟩

end Literal

end Plonkish
