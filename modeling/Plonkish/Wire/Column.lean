import Plonkish.Column
import Plonkish.Wire.Reader

/-!
# Columns and queries on the wire

A column is its kind's tag and its index. The phase is not written: reading takes it from the list
of advice phases. A query is its column, the direction of its rotation and the magnitude.
-/

namespace Plonkish.Wire

variable {ν : Type} [Quantity ν]

/-- The tag of a column kind. -/
def kindTag : ColumnKind → UInt8
  | .advice => 1
  | .fixed => 2
  | .inst => 3

/-- The column kind that a tag stands for. -/
def kindOfTag? (b : UInt8) : Option ColumnKind :=
  if b = 1 then some .advice else if b = 2 then some .fixed else if b = 3 then some .inst else none

/-- The bytes of a column. -/
def encodeColumn (c : Column ν) : Except WriteError Bytes := do
  let index ← word 4 "column index" c.index
  return kindTag c.kind :: index

/-- The bytes of a query. -/
def encodeQuery (q : Query ν) : Except WriteError Bytes := do
  let column ← encodeColumn q.column
  let magnitude ← word 4 "rotation magnitude" q.rotation.magnitude
  return column ++ (if q.rotation.forward then 1 else 0) :: magnitude

/-- The phase of a column. Without a list of phases, and for other kinds than advice, it is
zero. -/
def phaseOf (phases : Option (List Int)) (kind : ColumnKind) (index : Nat) :
    Except WireError Int :=
  match kind, phases with
  | .advice, some phases =>
    match phases[index]? with
    | some phase => .ok phase
    | none => .error (.noPhase index phases.length)
  | _, _ => .ok 0

/-- Reads a column. -/
def readColumn (phases : Option (List Int)) (r : Reader) : Except WireError (Column × Reader) := do
  let (tag, r) ← r.byte
  match kindOfTag? tag with
  | none => .error (.unknownKind tag)
  | some kind =>
    let (index, r) ← r.number 4
    let phase ← phaseOf phases kind index
    return (⟨kind, index, phase⟩, r)

/-- Reads a rotation. -/
def readRotation (r : Reader) : Except WireError (Rotation × Reader) := do
  let (direction, r) ← r.byte
  if direction ≠ 0 ∧ direction ≠ 1 then .error (.direction direction)
  else
    let (magnitude, r) ← r.number 4
    return (⟨magnitude, direction = 1⟩, r)

/-- The column that the given bytes spell. -/
def decodeColumn (phases : Option (List Int)) (data : Bytes) : Except WireError Column := do
  let (column, r) ← readColumn phases (.ofBytes data)
  r.expectEnd
  return column

/-- The query that the given bytes spell. -/
def decodeQuery (phases : Option (List Int)) (data : Bytes) : Except WireError Query := do
  let (column, r) ← readColumn phases (.ofBytes data)
  let (rotation, r) ← readRotation r
  r.expectEnd
  return ⟨column, rotation⟩

end Plonkish.Wire
