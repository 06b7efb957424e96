import Plonkish.Number

/-!
# Numbers of variables

Variables are told apart, and ordered, by numbers from zero on. In a circuit that is built these
are natural numbers. A described challenge may have any number as its index, and then so has its
variable.

* `VariableNumber.position?_nat`: a natural number is a position in a point.
-/

namespace Plonkish

/-- A type of numbers of variables, ordered by value. -/
class VariableNumber (ι : Type) extends Ord ι where
  /-- The number. -/
  toNumber : ι → Number

namespace VariableNumber

instance : VariableNumber Nat where
  toNumber n := .int n

instance : VariableNumber Number where
  toNumber x := x

variable {ι : Type} [VariableNumber ι]

/-- The position in a point that a number is. Floating point numbers are none. -/
def position? (i : ι) : Option Nat := (toNumber i).integer?.map Int.toNat

/-- Whether a variable is one of the first `count`. -/
def isAmong (count : Int) (i : ι) : Bool := (toNumber i).below count

/-- The text of a number. -/
def shown (i : ι) : String := (toNumber i).toText

@[simp] theorem position?_nat (i : Nat) : position? i = some i := rfl

@[simp] theorem isAmong_nat (count : Int) (i : Nat) :
    isAmong count i = decide ((i : Int) < count) := by
  simp [isAmong, toNumber, Number.below]

@[simp] theorem shown_nat (i : Nat) : shown i = toString i := rfl

end VariableNumber

/-- Quantities of type `ν` whose variables are numbered by `ι`. -/
class Numbering (ν : Type) (ι : outParam Type) where
  /-- The number of the variable at a position behind `offset` others. -/
  numberBehind : (offset : Int) → ν → ι

end Plonkish
