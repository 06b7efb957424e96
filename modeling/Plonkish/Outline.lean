import Plonkish.Lowering
import Plonkish.Quantity
import Plonkish.VerifyingKey

/-!
# Outlines of circuits

An outline is everything a verifier needs to know about the structure of one circuit at one size:
its parameters and queries, the table of constants, and its lowered gates and arguments.
-/

namespace Plonkish

/-- The structure of a circuit with `2 ^ k` rows. -/
structure Outline (ν : Type := Int) where
  k : ν
  degree : ν
  fixedCount : ν
  instCount : ν
  advicePhases : List ν
  challengePhases : List ν
  /-- The largest number of queries to one advice column. -/
  maxQueries : ν
  adviceQueries : List (Query ν)
  instQueries : List (Query ν)
  fixedQueries : List (Query ν)
  permutation : List (Column ν)
  /-- The canonical bytes of each constant. -/
  constants : List Bytes
  gates : List (Gate (Ir ν))
  lookups : List (Argument (Ir ν))
  shuffles : List (Argument (Ir ν))
  transcript : Bytes
  fixedCommitments : List Bytes
  permutationCommitments : List Bytes
  deriving DecidableEq

/-- Why a circuit has no outline. -/
inductive OutlineError
  /-- The size or a phase does not fit a byte. -/
  | overflow (o : Overflow)
  /-- The key's fingerprint has another size than a scalar. -/
  | transcript (size : Nat)
  /-- A phase is no number. -/
  | notANumber
  /-- An expression refers to something unregistered. -/
  | schema (e : SchemaError)
  deriving DecidableEq

/-- The text of the error. -/
def OutlineError.message : OutlineError → Text
  | .overflow o => o.message
  | .transcript size => s!"transcript_repr must be 32 bytes, got {size}"
  | .notANumber => "value of a wrong type"
  | .schema e => e.message

namespace Outline

variable {ν μ : Type}

/-- The variables of the outlined circuit. -/
def space (o : Outline ν) : VariableSpace ν :=
  ⟨o.adviceQueries, o.fixedQueries, o.instQueries, o.challengePhases.length⟩

/-- The outline without the names of gates and arguments. -/
def anonymous (o : Outline ν) : Outline ν :=
  { o with
    gates := o.gates.map fun g => { g with name := .str (.ofString "") }
    lookups := o.lookups.map fun a => { a with name := .str (.ofString "") }
    shuffles := o.shuffles.map fun a => { a with name := .str (.ofString "") } }

/-- The outline with its quantities changed. -/
def map (f : ν → μ) (o : Outline ν) : Outline μ where
  k := f o.k
  degree := f o.degree
  fixedCount := f o.fixedCount
  instCount := f o.instCount
  advicePhases := o.advicePhases.map f
  challengePhases := o.challengePhases.map f
  maxQueries := f o.maxQueries
  adviceQueries := o.adviceQueries.map (·.map f)
  instQueries := o.instQueries.map (·.map f)
  fixedQueries := o.fixedQueries.map (·.map f)
  permutation := o.permutation.map (·.map f)
  constants := o.constants
  gates := o.gates.map (·.map (·.map f))
  lookups := o.lookups.map (·.map (·.map f))
  shuffles := o.shuffles.map (·.map (·.map f))
  transcript := o.transcript
  fixedCommitments := o.fixedCommitments
  permutationCommitments := o.permutationCommitments

variable [Quantity ν]

/-- Fails unless a quantity fits a byte. -/
def checkByte (what : Text) (value : ν) : Except OutlineError Unit :=
  match Quantity.within? 255 value with
  | none => .error .notANumber
  | some false => .error (.overflow ⟨what, Quantity.toJson value, 255⟩)
  | some true => .ok ()

theorem checkByte_int (what : Text) (value : Int) :
    checkByte what value =
      if 0 ≤ value ∧ value ≤ 255 then .ok () else .error (.overflow ⟨what, .int value, 255⟩) := by
  unfold checkByte
  by_cases h : 0 ≤ value ∧ value ≤ 255 <;> simp [h]

variable [DecidableEq ν]

/-- The outline with the given lowered parts and table of constants. -/
def ofParts (k : Int) (c : Circuit ν) (key : VerifyingKey) (parts : Lowering.Parts ν)
    (table : ConstantTable) : Outline ν where
  k := Quantity.ofInt k
  degree := c.degree
  fixedCount := c.fixedCount
  instCount := c.instCount
  advicePhases := c.advicePhases
  challengePhases := c.challengePhases
  maxQueries := Quantity.ofInt c.maxQueries
  adviceQueries := c.adviceQueries
  instQueries := c.instQueries
  fixedQueries := c.fixedQueries
  permutation := c.permutation
  constants := table.entries
  gates := parts.gates
  lookups := parts.lookups
  shuffles := parts.shuffles
  transcript := key.transcript
  fixedCommitments := key.fixedCommitments
  permutationCommitments := key.permutationCommitments

/-- The outline of a circuit. The size is checked first, then the phases, then the fingerprint;
then the expressions are lowered. -/
def ofCircuit (k : Int) (c : Circuit ν) (key : VerifyingKey) :
    Except OutlineError (Outline ν) := do
  checkByte "k" k
  (c.advicePhases ++ c.challengePhases).forM (checkByte "phase")
  if key.transcript.length ≠ Scalar.byteSize then .error (.transcript key.transcript.length)
  else match (Lowering.circuit c).run {} with
    | (.ok parts, table) => .ok (ofParts k c key parts table)
    | (.error e, _) => .error (.schema e)

/-- The sizes of the lists of an outline, in a sentence. -/
def summary (o : Outline ν) : String :=
  s!"Built shape k={(Quantity.toJson o.k).spelled}: " ++
    s!"{o.adviceQueries.length} advice / {o.fixedQueries.length} fixed / " ++
    s!"{o.instQueries.length} instance queries, {o.challengePhases.length} challenges, " ++
    s!"{o.constants.length} constants, {o.gates.length} gates, {o.lookups.length} lookups, " ++
    s!"{o.shuffles.length} shuffles"

end Outline

end Plonkish
