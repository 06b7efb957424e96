import Plonkish.Number.Binary64

/-!
# Numbers

A number is an integer of any size or a 64-bit floating point number. Numbers of both kinds are
compared by value.

* `Number.compare_int`: integers are compared as integers.
-/

namespace Plonkish

/-- A number. -/
inductive Number
  | int (n : Int)
  | real (x : Binary64)
  deriving DecidableEq, Repr, Inhabited

namespace Number

/-- The value as a numerator and a positive denominator. What is not finite counts as zero. -/
def ratio : Number → Int × Nat
  | .int n => (n, 1)
  | .real x => x.ratio?.getD (0, 1)

instance : Ord Number :=
  ⟨fun a b => compare (a.ratio.1 * b.ratio.2) (b.ratio.1 * a.ratio.2)⟩

@[simp] theorem compare_int (m n : Int) : compare (int m) (int n) = compare m n := by
  change compare (m * 1) (n * 1) = compare m n
  rw [Int.mul_one, Int.mul_one]

/-- The integer that a number is. -/
def integer? : Number → Option Int
  | .int n => some n
  | .real _ => none

/-- The integer part of a number, toward zero. What is not finite counts as zero. -/
def truncated : Number → Int
  | .int n => n
  | .real x => x.truncate?.getD 0

/-- Whether a number lies between zero and a limit, both included. -/
def within (limit : Int) : Number → Bool
  | .int n => 0 ≤ n ∧ n ≤ limit
  | .real x => x.within limit

/-- Whether a number lies between zero and a bound, the bound excluded. -/
def below (bound : Int) : Number → Bool
  | .int n => 0 ≤ n ∧ n < bound
  | .real x => x.below bound

/-- The number with the other sign. -/
def negated : Number → Number
  | .int n => .int (-n)
  | .real x => .real x.negated

/-- The form that all numbers of equal value share: an integer, if there is one of that value. -/
def canonical : Number → Number
  | .int n => .int n
  | .real x => (x.integer?.map int).getD (.real x)

/-- A number as a floating point number. -/
def toBinary64 : Number → Binary64
  | .int n => .ofInt n
  | .real x => x

/-- The sum. It is an integer if both numbers are, and a floating point number otherwise. -/
def add : Number → Number → Number
  | .int m, .int n => .int (m + n)
  | a, b => .real (a.toBinary64.add b.toBinary64)

/-- The text of a number. -/
def toText : Number → String
  | .int n => toString n
  | .real x => x.toText

end Number

end Plonkish
