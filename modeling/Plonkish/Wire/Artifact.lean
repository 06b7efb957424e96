import Plonkish.Wire.Reader

/-!
# Artifacts

An artifact is a list of named groups of byte strings. It is flattened with a count in front of
the groups, a count in front of each group's elements and a length in front of each element. The
names are not written: reading expects the groups of `groupNames` in that order.
-/

namespace Plonkish.Wire

/-- A named group of byte strings. -/
structure Group where
  name : Text
  elements : List Bytes
  deriving DecidableEq, Repr, Inhabited

/-- The number of bytes in a group. -/
def Group.totalSize (g : Group) : Nat := g.elements.flatten.length

/-- A list of groups. -/
structure Artifact where
  groups : List Group
  deriving DecidableEq, Repr, Inhabited

/-- The names of the groups of a circuit's artifact, in order. -/
def groupNames : List Text :=
  ["General Info", "Advice Queries", "Instance Queries", "Fixed Queries", "Permutation Columns",
    "Fields Pool", "Gates", "Lookups Input Expressions", "Lookups Table Expressions",
    "Shuffles Input Expressions", "Shuffles Shuffle Expressions"]

/-! ## Flattening -/

/-- The bytes of an element behind its length. -/
def encodeElement (what : Text) (element : Bytes) : Except WriteError Bytes := do
  let size ← word 4 what (element.length : Int)
  return size ++ element

/-- The bytes of a group: the number of its elements, and its elements. -/
def encodeGroup (g : Group) : Except WriteError Bytes := do
  let count ← word 4 (g.name ++ " element count") (g.elements.length : Int)
  let elements ← g.elements.mapM (encodeElement (g.name ++ " element length"))
  return count ++ elements.flatten

namespace Artifact

/-- The first group with a name. -/
def group (a : Artifact) (name : Text) : Except WireError Group :=
  match a.groups.find? fun g => g.name = name with
  | some g => .ok g
  | none => .error (.noGroup name)

/-- The name, number of elements and number of bytes of each group. -/
def report (a : Artifact) : List (Text × Nat × Nat) :=
  a.groups.map fun g => (g.name, g.elements.length, g.totalSize)

/-- The bytes of an artifact: the number of its groups, and its groups. -/
def encode (a : Artifact) : Except WriteError Bytes := do
  let count ← word 4 "group count" (a.groups.length : Int)
  let groups ← a.groups.mapM encodeGroup
  return count ++ groups.flatten

end Artifact

/-! ## Reading -/

/-- Reads the given number of elements, behind those read so far (the latest first). -/
def readElements (read : List Bytes) : (count : Nat) → Reader →
    Except WireError (List Bytes × Reader)
  | 0, r => .ok (read.reverse, r)
  | count + 1, r => do
    let (size, r) ← r.number 4
    let (element, r) ← r.take size
    readElements (element :: read) count r

/-- Reads one group for each name. -/
def readGroups : List Text → Reader → Except WireError (List Group × Reader)
  | [], r => .ok ([], r)
  | name :: names, r => do
    let (count, r) ← r.number 4
    let (elements, r) ← readElements [] count r
    let (groups, r) ← readGroups names r
    return (⟨name, elements⟩ :: groups, r)

/-- The artifact that the given bytes spell. -/
def Artifact.decode (data : Bytes) : Except WireError Artifact := do
  let (count, r) ← (Reader.ofBytes data).number 4
  if count ≠ groupNames.length then .error (.groupCount groupNames.length count)
  else
    let (groups, r) ← readGroups groupNames r
    r.expectEnd
    return ⟨groups⟩

end Plonkish.Wire
