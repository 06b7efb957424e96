import Plonkish.Circuit
import Plonkish.Expr.FromJson

/-!
# Circuits from JSON

A circuit is described by an object with its counts, phases, queries, gates and arguments. Every
field may be absent, and quantities are kept as they are given. The counts, phases and permutation
columns are read first, then the queries, then the gates, lookups and shuffles.
-/

namespace Plonkish

/-- The column kind that a value names. -/
def ColumnKind.ofJson? : Json → Option ColumnKind
  | .str text => text.toString?.bind ColumnKind.ofName?
  | _ => none

namespace Circuit

/-- Reads a column. -/
def readColumn (j : Json) : Except LoadError (Column Json) := do
  let name ← j.entry "kind"
  if name.isCompound then .error .wrongType
  else
    match ColumnKind.ofJson? name with
    | none => .error (.columnKind name.shown)
    | some kind =>
      let index ← j.entry "index"
      let phase ← Expr.readPhase j
      return ⟨kind, index, phase⟩

/-- Reads a query. -/
def readQuery (j : Json) : Except LoadError (Query Json) := do
  let columnJson ← j.entry "column"
  let column ← readColumn columnJson
  let rotation ← Expr.readRotation j
  return ⟨column, rotation⟩

/-- Reads the list in a field with a reader of its items. An absent field is an empty list. -/
def readList {α : Type} (read : Json → Except LoadError α) (j : Json) (key : String) :
    Except LoadError (List α) := do
  let v ← j.member key (.arr [])
  let items ← v.listed
  items.mapM read

/-- Reads the expressions in a field that must be there. -/
def readExprs (j : Json) (key : String) : Except LoadError (List (Expr Json)) := do
  let v ← j.entry key
  let items ← v.listed
  items.mapM Expr.ofJson

/-- The name in a description, or one made of what is named and its number. -/
def readName (what : String) (i : Nat) (j : Json) : Except LoadError Json :=
  j.member "name" (.str (.ofString s!"{what}_{i}"))

/-- Reads the gate with a number. -/
def readGate (item : Nat × Json) : Except LoadError (Gate (Expr Json)) := do
  let (i, j) := item
  let name ← readName "gate" i j
  let polys ← readExprs j "polys"
  return ⟨name, polys⟩

/-- Reads the argument with a number, its targets in a given field. -/
def readArgument (what targetKey : String) (item : Nat × Json) :
    Except LoadError (Argument (Expr Json)) := do
  let (i, j) := item
  let name ← readName what i j
  let inputs ← readExprs j "inputExpressions"
  let targets ← readExprs j targetKey
  return ⟨name, inputs, targets⟩

/-- Reads the list in a field with a reader of its numbered items. -/
def readNumbered {α : Type} (read : Nat × Json → Except LoadError α) (j : Json) (key : String) :
    Except LoadError (List α) := do
  let v ← j.member key (.arr [])
  let items ← v.listed
  ((List.range items.length).zip items).mapM read

/-- Reads the declared degree, which may be absent or null. -/
def readDegree (j : Json) : Except LoadError (Option Json) := do
  let v ← j.member "degree" .null
  return if v = .null then none else some v

/-- The circuit that a value describes. -/
def ofJson (j : Json) : Except LoadError (Circuit Json) := do
  let fixedCount ← j.member "numFixedColumns" (.int 0)
  let instCount ← j.member "numInstanceColumns" (.int 0)
  let advicePhases ← readList pure j "adviceColumnPhase"
  let challengePhases ← readList pure j "challengePhase"
  let declaredDegree ← readDegree j
  let permutation ← readList readColumn j "permutationColumns"
  let adviceQueries ← readList readQuery j "adviceQueries"
  let fixedQueries ← readList readQuery j "fixedQueries"
  let instQueries ← readList readQuery j "instanceQueries"
  let gates ← readNumbered readGate j "gates"
  let lookups ← readNumbered (readArgument "lookup" "tableExpressions") j "lookups"
  let shuffles ← readNumbered (readArgument "shuffle" "shuffleExpressions") j "shuffles"
  return {
    fixedCount, instCount, advicePhases, challengePhases
    adviceQueries, fixedQueries, instQueries, permutation
    gates, lookups, shuffles, declaredDegree }

end Circuit

end Plonkish
