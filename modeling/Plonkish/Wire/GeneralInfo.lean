import Plonkish.Wire.Artifact

/-!
# General information

The first group of an artifact holds the parameters of the circuit, in twelve elements.
-/

namespace Plonkish.Wire

/-- The parameters of a circuit as they are read. -/
structure GeneralInfo where
  transcript : Bytes
  fixedCommitments : Bytes
  permutationCommitments : Bytes
  k : Nat
  maxQueries : Nat
  degree : Nat
  fixedCount : Nat
  instCount : Nat
  advicePhases : List Int
  challengePhases : List Int
  queryWidth : Width
  poolWidth : Width
  deriving DecidableEq, Repr

/-- The number of elements. -/
def infoSize : Nat := 12

/-- The number in the element at an index, which must have the given size. -/
def infoNumber (index size : Nat) (element : Bytes) : Except WireError Nat :=
  if element.length ≠ size then .error (.infoSize index element.length size)
  else .ok element.toNat

/-- The width that an element's flag stands for. -/
def infoWidth (element : Bytes) : Except WireError Width :=
  match element with
  | [flag] =>
    match Width.ofFlag? flag with
    | some w => .ok w
    | none => .error (.unknownWidth flag)
  | _ => .error (.flagSize element.length)

/-- The phases in an element, one in each byte. -/
def infoPhases (element : Bytes) : List Int := element.map fun b => (b.toNat : Int)

/-- Reads the elements of the group. -/
def GeneralInfo.ofElements (elements : List Bytes) : Except WireError GeneralInfo :=
  match elements with
  | [transcript, fixed, permutation, k, maxQueries, degree, fixedCount, instCount, advicePhases,
      challengePhases, queryWidth, poolWidth] => do
    let k ← infoNumber 3 1 k
    let maxQueries ← infoNumber 4 4 maxQueries
    let degree ← infoNumber 5 4 degree
    let fixedCount ← infoNumber 6 8 fixedCount
    let instCount ← infoNumber 7 8 instCount
    let queryWidth ← infoWidth queryWidth
    let poolWidth ← infoWidth poolWidth
    return {
      transcript
      fixedCommitments := fixed
      permutationCommitments := permutation
      k, maxQueries, degree, fixedCount, instCount
      advicePhases := infoPhases advicePhases
      challengePhases := infoPhases challengePhases
      queryWidth, poolWidth }
  | _ => .error (.infoCount elements.length infoSize)

end Plonkish.Wire
