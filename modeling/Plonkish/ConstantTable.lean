import Plonkish.Position
import Plonkish.SchemaError

/-!
# The table of constants

Every constant of a circuit is kept once, by its canonical bytes, and is named by its position.
Positions are given in the order in which constants are first met. A frozen table takes no new
constants.
-/

namespace Plonkish

/-- The constants met so far. -/
structure ConstantTable where
  /-- The canonical bytes of each constant, in order of first appearance. -/
  entries : List Bytes := []
  /-- Whether new constants are refused. -/
  frozen : Bool := false
  deriving DecidableEq, Repr, Inhabited

namespace ConstantTable

/-- The number of constants. -/
def size (t : ConstantTable) : Nat := t.entries.length

/-- The position of a constant, if it is in the table. -/
def position? (t : ConstantTable) (v : Scalar) : Option Nat :=
  t.entries.idxOf? v.toBytes

/-- Whether a constant is in the table. -/
def contains (t : ConstantTable) (v : Scalar) : Bool := (t.position? v).isSome

/-- The position of a constant, which is appended if it is new. A refusal leaves the table as it
is. -/
def intern (v : Scalar) (t : ConstantTable) : Except SchemaError Nat × ConstantTable :=
  match t.position? v with
  | some i => (.ok i, t)
  | none =>
    if t.frozen then (.error (.frozenTable v), t)
    else (.ok t.size, { t with entries := t.entries ++ [v.toBytes] })

/-- The position of a constant that must be in the table. -/
def indexOf (t : ConstantTable) (v : Scalar) : Except SchemaError Nat :=
  match t.position? v with
  | some i => .ok i
  | none => .error (.unknownConstant v)

/-- Refuses new constants from now on. -/
def freeze (t : ConstantTable) : ConstantTable := { t with frozen := true }

/-- The bytes at a signed position. Negative positions count from the end. -/
def entryAt? (t : ConstantTable) (i : Int) : Option Bytes := itemAt? t.entries i

/-- The constants, read from their bytes. -/
def values (t : ConstantTable) : Except ScalarError (List Scalar) :=
  t.entries.mapM Scalar.ofBytes

end ConstantTable

end Plonkish
