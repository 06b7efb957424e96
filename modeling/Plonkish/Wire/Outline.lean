import Plonkish.Outline
import Plonkish.Wire.Column
import Plonkish.Wire.Expression
import Plonkish.Wire.GeneralInfo

/-!
# Outlines on the wire

An outline is written as an artifact and read back from one. The widths of indices are chosen
once, from the sizes of the table of constants and of the lists of queries, before any index is
written. Names are not written and come back empty, and what comes back is made of integers.
-/

namespace Plonkish

open Wire

namespace Outline

/-! ## Writing -/

variable {ν : Type} [Quantity ν]

/-- The width of indices into the table of constants. -/
def poolWidth (o : Outline ν) : Except WriteError Width :=
  Width.forConstants o.constants.length

/-- The width of indices into the lists of queries. -/
def queryWidth (o : Outline ν) : Except WriteError Width :=
  Width.forQueries o.adviceQueries.length o.fixedQueries.length o.instQueries.length

/-- The byte of a phase: of its integer part. -/
def encodePhase (phase : ν) : Except WriteError Bytes := truncatedWord 1 "phase" phase

theorem encodePhase_int (phase : Int) : encodePhase phase = word 1 "phase" phase :=
  truncatedWord_int 1 "phase" phase

/-- The bytes of phases, one byte each. -/
def encodePhases (phases : List ν) : Except WriteError Bytes := do
  let bytes ← phases.mapM encodePhase
  return bytes.flatten

/-- The elements of the general information. -/
def generalInfo (o : Outline ν) (query pool : Width) : Except WriteError (List Bytes) := do
  let k ← word 1 "k" o.k
  let maxQueries ← word 4 "max queries per advice column" o.maxQueries
  let degree ← word 4 "degree" o.degree
  let fixedCount ← word 8 "fixed column count" o.fixedCount
  let instCount ← word 8 "instance column count" o.instCount
  let advicePhases ← encodePhases o.advicePhases
  let challengePhases ← encodePhases o.challengePhases
  return [o.transcript, o.fixedCommitments.flatten, o.permutationCommitments.flatten, k,
    maxQueries, degree, fixedCount, instCount, advicePhases, challengePhases, [query.flag],
    [pool.flag]]

/-- The artifact of an outline at given widths. -/
def encodeAt (o : Outline ν) (query pool : Width) : Except WriteError Artifact := do
  let info ← o.generalInfo query pool
  let adviceQueries ← o.adviceQueries.mapM encodeQuery
  let instQueries ← o.instQueries.mapM encodeQuery
  let fixedQueries ← o.fixedQueries.mapM encodeQuery
  let permutation ← o.permutation.mapM encodeColumn
  let exprs (es : List (Ir ν)) := encodeExprs query pool es
  let gates ← o.gates.mapM fun g => exprs g.polys
  let lookupInputs ← o.lookups.mapM fun a => exprs a.inputs
  let lookupTargets ← o.lookups.mapM fun a => exprs a.targets
  let shuffleInputs ← o.shuffles.mapM fun a => exprs a.inputs
  let shuffleTargets ← o.shuffles.mapM fun a => exprs a.targets
  let elements := [info, adviceQueries, instQueries, fixedQueries, permutation, o.constants, gates,
    lookupInputs, lookupTargets, shuffleInputs, shuffleTargets]
  return ⟨groupNames.zipWith Wire.Group.mk elements⟩

/-- The artifact of an outline. -/
def encode (o : Outline ν) : Except WriteError Artifact := do
  let pool ← o.poolWidth
  let query ← o.queryWidth
  o.encodeAt query pool

/-! ## Reading -/

/-- Cuts bytes into pieces of `size + 1` bytes. -/
def chunks (size : Nat) : Bytes → List Bytes
  | [] => []
  | b :: blob => (b :: blob.take size) :: chunks size (blob.drop size)
termination_by blob => blob.length
decreasing_by simp only [List.length_drop, List.length_cons]; omega

/-- Cuts encoded commitments into pieces of a given size, which must divide them. Pieces of
negative size are none. -/
def splitCommitments (what : String) (unit : Int) (blob : Bytes) :
    Except WireError (List Bytes) :=
  if unit = 0 then .error .zeroUnit
  else if (blob.length : Int) % unit ≠ 0 then .error (.blobSize what blob.length unit)
  else match unit with
    | .ofNat (size + 1) => .ok (chunks size blob)
    | _ => .ok []

/-- The size of an encoded commitment. -/
def commitmentSize : Nat := 32

/-- Reads the two sides of arguments, those of each argument in turn. -/
def decodeArguments (exprs : Bytes → Except WireError (List Ir)) (inputs targets : List Bytes) :
    Except WireError (List (Argument Ir)) :=
  (inputs.zip targets).mapM fun (i, t) => do
    let inputs ← exprs i
    let targets ← exprs t
    return ⟨.str (.ofString ""), inputs, targets⟩

/-- The outline that an artifact spells, with commitments of the given size. -/
def decode (commitmentSize : Int) (a : Artifact) : Except WireError Outline := do
  let infoGroup ← a.group "General Info"
  let info ← GeneralInfo.ofElements infoGroup.elements
  let phases := some info.advicePhases
  let exprs := decodeExprs info.queryWidth info.poolWidth
  let elements (name : Text) : Except WireError (List Bytes) := do
    let g ← a.group name
    return g.elements
  let lookupInputs ← elements "Lookups Input Expressions"
  let lookupTargets ← elements "Lookups Table Expressions"
  let shuffleInputs ← elements "Shuffles Input Expressions"
  let shuffleTargets ← elements "Shuffles Shuffle Expressions"
  if lookupInputs.length ≠ lookupTargets.length ∨ shuffleInputs.length ≠ shuffleTargets.length then
    .error .argumentCounts
  else
    let constants ← elements "Fields Pool"
    let _ ← constants.mapM fun entry => (Scalar.ofBytes entry).mapError .constant
    let adviceQueries ← (← elements "Advice Queries").mapM (decodeQuery phases)
    let instQueries ← (← elements "Instance Queries").mapM (decodeQuery phases)
    let fixedQueries ← (← elements "Fixed Queries").mapM (decodeQuery phases)
    let permutation ← (← elements "Permutation Columns").mapM (decodeColumn phases)
    let gates ← (← elements "Gates").mapM fun e => do
      let polys ← exprs e
      return (⟨.str (.ofString ""), polys⟩ : Gate Ir)
    let lookups ← decodeArguments exprs lookupInputs lookupTargets
    let shuffles ← decodeArguments exprs shuffleInputs shuffleTargets
    let fixed ← splitCommitments "Fixed commitments" commitmentSize info.fixedCommitments
    let permuted ←
      splitCommitments "Permutation commitments" commitmentSize info.permutationCommitments
    return {
      k := info.k
      degree := info.degree
      fixedCount := info.fixedCount
      instCount := info.instCount
      advicePhases := info.advicePhases
      challengePhases := info.challengePhases
      maxQueries := info.maxQueries
      adviceQueries, instQueries, fixedQueries, permutation, constants, gates, lookups, shuffles
      transcript := info.transcript
      fixedCommitments := fixed
      permutationCommitments := permuted }

end Outline

end Plonkish
