import Plonkish.Circuit
import Plonkish.Position
import Plonkish.SchemaError

/-!
# The space of variables

Queries and challenges share one index space: first the advice queries, then the fixed and the
instance queries, then the challenges. A variable is named by its class and its position there, or
by its position in the whole space. Queries are compared by value.

* `VariableSpace.check_int`: a space of integers can always be looked up in.
* `VariableSpace.number_int`: positions that are integers are numbered by natural numbers.
* `VariableSpace.globalIndex_of_indexOf`, `VariableSpace.globalIndex_of_challengeIndex`: what is
  found has a position in the whole space.
-/

namespace Plonkish

/-- The variables of a circuit: three lists of queries and a number of challenges. -/
structure VariableSpace (ν : Type := Int) where
  advice : List (Query ν) := []
  fixed : List (Query ν) := []
  inst : List (Query ν) := []
  challenges : Int := 0
  deriving DecidableEq, Inhabited

namespace VariableSpace

variable {ν : Type}

/-- The variables of a circuit. -/
def ofCircuit (c : Circuit ν) : VariableSpace ν :=
  ⟨c.adviceQueries, c.fixedQueries, c.instQueries, c.challengePhases.length⟩

/-- The queries of a class. Challenges have none. -/
def queries (V : VariableSpace ν) : VariableClass → List (Query ν)
  | .advice => V.advice
  | .fixed => V.fixed
  | .inst => V.inst
  | .challenge => []

/-- The number of variables of a class. -/
def size (V : VariableSpace ν) : VariableClass → Int
  | .challenge => V.challenges
  | cls => (V.queries cls).length

/-- The number of variables in front of a class. -/
def offset (V : VariableSpace ν) : VariableClass → Int
  | .advice => 0
  | .fixed => V.size .advice
  | .inst => V.size .advice + V.size .fixed
  | .challenge => V.size .advice + V.size .fixed + V.size .inst

theorem offset_nonneg (V : VariableSpace ν) (cls : VariableClass) : 0 ≤ V.offset cls := by
  cases cls <;> simp only [offset, size] <;> omega

/-- The number of all variables. -/
def width (V : VariableSpace ν) : Int :=
  V.size .advice + V.size .fixed + V.size .inst + V.size .challenge

section Lookup

variable [Quantity ν]

/-- Fails unless every query can be looked up. -/
def check (V : VariableSpace ν) : Except SchemaError Unit :=
  if (V.advice ++ V.fixed ++ V.inst).all Query.isAtom then .ok () else .error .wrongType

@[simp] theorem check_int (V : VariableSpace) : V.check = .ok () := by
  simp [check]

/-- The first position of a query in the list of a class. -/
def indexOf [DecidableEq ν] (V : VariableSpace ν) (cls : VariableClass) (column : Column ν)
    (rotation : Rotation ν) : Except SchemaError Nat :=
  let q : Query ν := ⟨column, rotation⟩
  let described := q.map Quantity.toJson
  if cls = .challenge then .error (.challengeAsQuery described.column)
  else if !q.isAtom then .error .wrongType
  else match q.position? (V.queries cls) with
    | some i => .ok i
    | none => .error (.unregisteredQuery cls described.column described.rotation)

/-- The position of a challenge, which is its index. -/
def challengeIndex (V : VariableSpace ν) (index : ν) : Except SchemaError ν :=
  match Quantity.below? (V.size .challenge) index with
  | some true => .ok index
  | some false => .error (.unregisteredChallenge (Quantity.toJson index))
  | none => .error .wrongType

/-- The number, in the whole space, of the variable at a position in a class. -/
def number {ι : Type} [Numbering ν ι] (V : VariableSpace ν) (cls : VariableClass) (index : ν) : ι :=
  Numbering.numberBehind (V.offset cls) index

@[simp] theorem number_int (V : VariableSpace) (cls : VariableClass) (index : Int) :
    V.number cls index = (V.offset cls + index).toNat := rfl

/-- A query is found at a position of its class. -/
theorem lt_size_of_indexOf [DecidableEq ν] {V : VariableSpace ν} {cls : VariableClass}
    {column : Column ν} {rotation : Rotation ν} {i : Nat}
    (h : V.indexOf cls column rotation = .ok i) : (i : Int) < V.size cls := by
  dsimp only [indexOf] at h
  split at h
  · cases h
  · next hcls =>
    split at h
    · cases h
    · split at h
      · next j hj =>
        cases h
        obtain ⟨hlt, -⟩ := List.idxOf?_eq_some_iff.1 hj
        rw [List.length_map] at hlt
        cases cls with
        | challenge => exact absurd rfl hcls
        | _ => exact Int.ofNat_lt.2 hlt
      · cases h

/-- The position of a challenge lies in the range of its class, whatever kind of number it is. -/
theorem below?_of_challengeIndex {V : VariableSpace ν} {index j : ν}
    (h : V.challengeIndex index = .ok j) :
    Quantity.below? (V.size .challenge) j = some true := by
  unfold challengeIndex at h
  split at h
  · next hbelow =>
    cases h
    exact hbelow
  · cases h
  · cases h

end Lookup

/-- The position in the whole space of a position in a class. -/
def globalIndex (V : VariableSpace ν) (cls : VariableClass) (index : Int) :
    Except SchemaError Int :=
  if 0 ≤ index ∧ index < V.size cls then .ok (V.offset cls + index)
  else .error (.outsideClass cls index (V.size cls))

theorem globalIndex_eq_ok_iff {V : VariableSpace ν} {cls : VariableClass} {i j : Int} :
    V.globalIndex cls i = .ok j ↔ (0 ≤ i ∧ i < V.size cls) ∧ V.offset cls + i = j := by
  unfold globalIndex
  split
  · next h => simp [h]
  · next h => simp [h]

theorem globalIndex_of_indexOf [Quantity ν] [DecidableEq ν] {V : VariableSpace ν}
    {cls : VariableClass} {column : Column ν} {rotation : Rotation ν} {i : Nat}
    (h : V.indexOf cls column rotation = .ok i) : V.globalIndex cls i = .ok (V.offset cls + i) :=
  globalIndex_eq_ok_iff.2 ⟨⟨Int.natCast_nonneg i, lt_size_of_indexOf h⟩, rfl⟩

theorem globalIndex_of_challengeIndex {V : VariableSpace} {index j : Int}
    (h : V.challengeIndex index = .ok j) :
    V.globalIndex .challenge j = .ok (V.offset .challenge + j) := by
  have hbelow := below?_of_challengeIndex h
  rw [Quantity.below?_int, Option.some_inj, decide_eq_true_eq] at hbelow
  exact globalIndex_eq_ok_iff.2 ⟨hbelow, rfl⟩

/-- The class and position there of a position in the whole space: the last class that starts no
later and has variables. -/
def resolve (V : VariableSpace ν) (index : Int) : Except SchemaError (VariableClass × Int) :=
  if 0 ≤ index ∧ index < V.width then
    match VariableClass.all.reverse.find? fun cls => V.offset cls ≤ index ∧ 0 < V.size cls with
    | some cls => .ok (cls, index - V.offset cls)
    | none => .error (.outsideSpace index V.width)
  else .error (.outsideSpace index V.width)

/-- The query at a signed position of a class. -/
def query? (V : VariableSpace ν) (cls : VariableClass) (index : Int) : Option (Query ν) :=
  itemAt? (V.queries cls) index

end VariableSpace

end Plonkish
