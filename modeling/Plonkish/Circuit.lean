import Plonkish.Expr.Degree
import Plonkish.Json

/-!
# Circuits

What a circuit registers: columns, queries, challenges, columns under the permutation argument,
and its gates and arguments. Names are kept as they were given, and so are quantities.
-/

namespace Plonkish

/-- Polynomial constraints that must vanish. -/
structure Gate (ε : Type) where
  name : Json
  polys : List ε
  deriving DecidableEq, Inhabited

/-- The gate with its polynomials changed. -/
def Gate.map {ε η : Type} (f : ε → η) (g : Gate ε) : Gate η := ⟨g.name, g.polys.map f⟩

/-- An argument about two lists of expressions. In a lookup the inputs must appear in the targets,
its table; in a shuffle they are a permutation of the targets. -/
structure Argument (ε : Type) where
  name : Json
  inputs : List ε
  targets : List ε
  deriving DecidableEq, Inhabited

/-- The argument with its expressions changed. -/
def Argument.map {ε η : Type} (f : ε → η) (a : Argument ε) : Argument η :=
  ⟨a.name, a.inputs.map f, a.targets.map f⟩

/-- A circuit before anything is laid out. -/
structure Circuit (ν : Type := Int) where
  /-- The number of fixed columns. -/
  fixedCount : ν
  /-- The number of instance columns. -/
  instCount : ν
  /-- The phase of each advice column. -/
  advicePhases : List ν := []
  /-- The phase of each challenge. -/
  challengePhases : List ν := []
  /-- The queries of each kind in the order of registration. -/
  adviceQueries : List (Query ν) := []
  fixedQueries : List (Query ν) := []
  instQueries : List (Query ν) := []
  /-- The columns under the permutation argument. -/
  permutation : List (Column ν) := []
  gates : List (Gate (Expr ν)) := []
  lookups : List (Argument (Expr ν)) := []
  shuffles : List (Argument (Expr ν)) := []
  /-- The degree, if it was given instead of being computed. -/
  declaredDegree : Option ν := none

namespace Circuit

variable {ν : Type} [Quantity ν]

/-- The circuit in which nothing is registered. -/
def empty : Circuit ν where
  fixedCount := Quantity.ofInt 0
  instCount := Quantity.ofInt 0

instance : Inhabited (Circuit ν) := ⟨empty⟩

/-- The queries of one kind. -/
def queriesOf (c : Circuit ν) : ColumnKind → List (Query ν)
  | .advice => c.adviceQueries
  | .fixed => c.fixedQueries
  | .inst => c.instQueries

/-- The largest degree of the expressions, and at least one. -/
def maxDegree (exprs : List (Expr ν)) : Nat :=
  (exprs.map Expr.degree).foldl max 1

/-- The degree that the permutation argument needs. -/
def permutationDegree : Nat := 3

/-- The degree that a gate needs: the largest of its polynomials. -/
def gateDegree (g : Gate (Expr ν)) : Nat :=
  (g.polys.map Expr.degree).foldl max 0

/-- The degree that a lookup needs. -/
def lookupDegree (a : Argument (Expr ν)) : Nat :=
  2 + maxDegree a.inputs + maxDegree a.targets

/-- The degree that a shuffle needs. -/
def shuffleDegree (a : Argument (Expr ν)) : Nat :=
  2 + max (maxDegree a.inputs) (maxDegree a.targets)

/-- The largest degree that a constraint of the circuit needs. -/
def computedDegree (c : Circuit ν) : Nat :=
  (c.gates.map gateDegree ++ c.lookups.map lookupDegree ++ c.shuffles.map shuffleDegree).foldl max
    permutationDegree

/-- The degree of the circuit: the declared one, else the computed one. -/
def degree (c : Circuit ν) : ν := c.declaredDegree.getD (Quantity.ofInt c.computedDegree)

/-- The number of advice queries to the columns with an index, compared by value. -/
def adviceQueryCount [DecidableEq ν] (c : Circuit ν) (index : ν) : Nat :=
  c.adviceQueries.countP fun q =>
    Quantity.canonical q.column.index = Quantity.canonical index

/-- The largest number of advice queries to one column. -/
def maxQueries [DecidableEq ν] (c : Circuit ν) : Nat :=
  (c.adviceQueries.map fun q => c.adviceQueryCount q.column.index).foldl max 0

end Circuit

end Plonkish
