import Plonkish.ConstantTable
import Std.Data.HashMap

/-!
# Indexed tables of constants

A table of constants with an index beside its entries, in which positions are looked up instead of
being searched for. Its answers are those of a `ConstantTable`.
-/

namespace Plonkish

/-- The constants met so far, and the position of each. -/
structure IndexedTable where
  /-- The canonical bytes of each constant, in order of first appearance. -/
  entries : Array Bytes := #[]
  /-- The index: the position of each entry. -/
  positions : Std.HashMap Bytes Nat := {}
  /-- Whether new constants are refused. -/
  frozen : Bool := false

namespace IndexedTable

/-- The number of constants. -/
def size (s : IndexedTable) : Nat := s.entries.size

/-- The position of a constant, if it is in the index. -/
def position? (s : IndexedTable) (v : Scalar) : Option Nat := s.positions[v.toBytes]?

/-- Whether a constant is in the index. -/
def contains (s : IndexedTable) (v : Scalar) : Bool := (s.position? v).isSome

/-- The table with a constant behind its entries. -/
def append (s : IndexedTable) (v : Scalar) : IndexedTable :=
  { s with
    entries := s.entries.push v.toBytes
    positions := s.positions.insert v.toBytes s.size }

/-- The position of a constant, which is appended if it is new. A refusal leaves the table as it
is. -/
def intern (v : Scalar) (s : IndexedTable) : Except SchemaError Nat × IndexedTable :=
  match s.position? v with
  | some i => (.ok i, s)
  | none =>
    if s.frozen then (.error (.frozenTable v), s)
    else (.ok s.size, s.append v)

/-- The position of a constant that must be in the table. -/
def indexOf (s : IndexedTable) (v : Scalar) : Except SchemaError Nat :=
  match s.position? v with
  | some i => .ok i
  | none => .error (.unknownConstant v)

/-- Refuses new constants from now on. -/
def freeze (s : IndexedTable) : IndexedTable := { s with frozen := true }

/-- The bytes at a signed position. Negative positions count from the end. -/
def entryAt? (s : IndexedTable) (i : Int) : Option Bytes := itemAt? s.entries.toList i

/-- The constants, read from their bytes. -/
def values (s : IndexedTable) : Except ScalarError (List Scalar) :=
  s.entries.toList.mapM Scalar.ofBytes

end IndexedTable

end Plonkish
