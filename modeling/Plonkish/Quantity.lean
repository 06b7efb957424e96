import Plonkish.Json.Shown
import Plonkish.VariableNumber

/-!
# Quantities

Counts, indices, phases and row offsets are integers in a circuit that is built. A description may
hold any JSON value in their place: it is refused where a number is needed, and not before. A type
of quantities is one whose values may stand there, and both `Int` and `Json` are such types. A
quantity overflows if it does not fit the integer that it is to be written as.

* `Quantity.toJson_ofInt`: an integer is described by itself.
* `Quantity.canonical_ofInt`: integers are their own canonical form.
-/

namespace Plonkish

namespace Json

/-- Whether a value is an array or an object. Those cannot be looked up. -/
def isCompound : Json → Bool
  | .arr _ => true
  | .obj _ => true
  | _ => false

/-- The number that a value is. Truth values count as one and zero. -/
def toNumber? : Json → Option Number
  | .int n => some (.int n)
  | .real x => some (.real x)
  | .bool b => some (.int (if b then 1 else 0))
  | _ => none

/-- The value that a number is. -/
def ofNumber : Number → Json
  | .int n => .int n
  | .real x => .real x

/-- The integer that a value is. -/
def integer? (v : Json) : Option Int := v.toNumber?.bind Number.integer?

/-- The integer part of a number, toward zero. What is no finite number counts as zero. -/
def truncated (v : Json) : Int := (v.toNumber?.map Number.truncated).getD 0

/-- Whether a number lies between zero and a limit, both included; no result if the value is no
number. -/
def within? (limit : Int) (v : Json) : Option Bool := v.toNumber?.map (·.within limit)

/-- Whether a number lies between zero and a bound, the bound excluded; no result if the value is
no number. -/
def below? (bound : Int) (v : Json) : Option Bool := v.toNumber?.map (·.below bound)

/-- The number with the other sign. What is no number stays as it is. -/
def negated (v : Json) : Json := (v.toNumber?.map fun x => ofNumber x.negated).getD v

/-- The form that all numbers of equal value share: an integer, if there is one of that value.
Arrays and objects are never compared and stay as they are. -/
def canonical (v : Json) : Json := (v.toNumber?.map fun x => ofNumber x.canonical).getD v

end Json

/-- A type of quantities. Two quantities are equal in value if their canonical forms are equal. -/
class Quantity (ν : Type) where
  /-- The quantity that an integer is. -/
  ofInt : Int → ν
  /-- The value that describes a quantity. -/
  toJson : ν → Json
  /-- The quantity by which all of equal value are represented. -/
  canonical : ν → ν
  toJson_ofInt (n : Int) : toJson (ofInt n) = .int n
  canonical_ofInt (n : Int) : canonical (ofInt n) = ofInt n

instance : Numbering Int Nat where
  numberBehind offset i := (offset + i).toNat

instance : Numbering Json Number where
  numberBehind offset i := (Number.int offset).add (i.toNumber?.getD (.int 0))

namespace Quantity

instance : Quantity Int where
  ofInt n := n
  toJson := .int
  canonical n := n
  toJson_ofInt _ := rfl
  canonical_ofInt _ := rfl

instance : Quantity Json where
  ofInt := .int
  toJson v := v
  canonical := Json.canonical
  toJson_ofInt _ := rfl
  canonical_ofInt _ := rfl

variable {ν : Type} [Quantity ν]

/-- The integer that a quantity is. -/
def integer? (x : ν) : Option Int := (toJson x).integer?

/-- The integer part of a quantity. -/
def truncated (x : ν) : Int := (toJson x).truncated

/-- Whether a quantity lies between zero and a limit; no result if it is no number. -/
def within? (limit : Int) (x : ν) : Option Bool := (toJson x).within? limit

/-- Whether a quantity lies between zero and a bound, the bound excluded; no result if it is no
number. -/
def below? (bound : Int) (x : ν) : Option Bool := (toJson x).below? bound

/-- The text of a quantity in a message. -/
def shown (x : ν) : Text := (toJson x).shown

/-- Whether a quantity can be looked up. -/
def isAtom (x : ν) : Bool := !(toJson x).isCompound

/-! ## Integers -/

@[simp] theorem ofInt_int (n : Int) : (ofInt n : Int) = n := rfl

@[simp] theorem toJson_int (n : Int) : toJson n = .int n := rfl

@[simp] theorem canonical_int (n : Int) : canonical n = n := rfl

@[simp] theorem integer?_int (n : Int) : integer? n = some n := rfl

@[simp] theorem truncated_int (n : Int) : truncated n = n := rfl

@[simp] theorem within?_int (limit n : Int) :
    within? limit n = some (decide (0 ≤ n ∧ n ≤ limit)) := rfl

@[simp] theorem below?_int (bound n : Int) :
    below? bound n = some (decide (0 ≤ n ∧ n < bound)) := rfl

@[simp] theorem isAtom_int (n : Int) : isAtom n = true := rfl

end Quantity

/-! ## Quantities outside their range -/

/-- A value outside the range from zero to a limit. -/
structure Overflow where
  what : Text
  value : Json
  limit : Nat
  deriving DecidableEq

/-- The text of an overflow. -/
def Overflow.message (o : Overflow) : Text :=
  o.what ++ s!" = {o.value.spelled} exceeds limit {o.limit}"

/-- Why a quantity is not written. -/
inductive WriteError
  /-- It is outside its range. -/
  | overflow (o : Overflow)
  /-- It is no number, so it has no range. -/
  | notANumber
  /-- It is in its range and no integer. -/
  | notAnInteger
  deriving DecidableEq

end Plonkish
