import Plonkish.Circuit

/-!
# Building circuits

The calls by which a circuit is written: columns and challenges are allocated, queries and equality
columns are registered once, and gates and arguments are appended. Each call gives the circuit
after it, behind what it allocated.
-/

namespace Plonkish.Circuit

variable {ν : Type} [Quantity ν]

/-- The integer behind a count. -/
def successor (count : ν) : ν := Quantity.ofInt (Quantity.truncated count + 1)

@[simp] theorem successor_int (count : Int) : successor count = count + 1 := rfl

/-- Allocates an advice column. -/
def allocAdvice (c : Circuit ν) (phase : ν) : Column ν × Circuit ν :=
  (⟨.advice, Quantity.ofInt c.advicePhases.length, phase⟩,
    { c with advicePhases := c.advicePhases ++ [phase] })

/-- Allocates a fixed column. -/
def allocFixed (c : Circuit ν) : Column ν × Circuit ν :=
  (⟨.fixed, c.fixedCount, Quantity.ofInt 0⟩, { c with fixedCount := successor c.fixedCount })

/-- Allocates an instance column. -/
def allocInst (c : Circuit ν) : Column ν × Circuit ν :=
  (⟨.inst, c.instCount, Quantity.ofInt 0⟩, { c with instCount := successor c.instCount })

/-- Allocates a challenge that is usable after a phase. -/
def allocChallenge (c : Circuit ν) (phase : ν) : Leaf ν × Circuit ν :=
  (.challenge (Quantity.ofInt c.challengePhases.length) phase,
    { c with challengePhases := c.challengePhases ++ [phase] })

/-- Puts a column under the permutation argument, once. -/
def enableEquality [DecidableEq ν] (c : Circuit ν) (column : Column ν) : Circuit ν :=
  if column.isIn c.permutation then c else { c with permutation := c.permutation ++ [column] }

/-- Registers a query in the list of its column's kind, once. -/
def register [DecidableEq ν] (c : Circuit ν) (q : Query ν) : Circuit ν :=
  if (q.position? (c.queriesOf q.column.kind)).isSome then c
  else match q.column.kind with
    | .advice => { c with adviceQueries := c.adviceQueries ++ [q] }
    | .fixed => { c with fixedQueries := c.fixedQueries ++ [q] }
    | .inst => { c with instQueries := c.instQueries ++ [q] }

/-- Appends a gate. -/
def addGate (c : Circuit ν) (name : Json) (polys : List (Expr ν)) : Circuit ν :=
  { c with gates := c.gates ++ [⟨name, polys⟩] }

/-- Appends a lookup of pairs of an input and a table expression. -/
def addLookup (c : Circuit ν) (name : Json) (pairs : List (Expr ν × Expr ν)) : Circuit ν :=
  { c with lookups := c.lookups ++ [⟨name, pairs.map (·.1), pairs.map (·.2)⟩] }

/-- Appends a shuffle of pairs of an input and a target expression. -/
def addShuffle (c : Circuit ν) (name : Json) (pairs : List (Expr ν × Expr ν)) : Circuit ν :=
  { c with shuffles := c.shuffles ++ [⟨name, pairs.map (·.1), pairs.map (·.2)⟩] }

end Plonkish.Circuit
