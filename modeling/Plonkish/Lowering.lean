import Plonkish.ConstantTable
import Plonkish.Expr.Postorder
import Plonkish.Ir
import Plonkish.VariableSpace

/-!
# Lowering expressions

Raw expressions are lowered to expressions over numbered variables and constants. Constants are
entered into the table as they are met, left to right, and stay there if the expression fails
later. Sums and negations are kept. A product with a constant operand becomes a scaled expression,
the left operand tested first.
-/

namespace Plonkish

/-- A computation that enters constants into a table and may fail. The table survives a failure. -/
abbrev Lowering := ExceptT SchemaError (StateM ConstantTable)

namespace Lowering

variable {ν : Type} [Quantity ν] [DecidableEq ν]

/-- Enters a constant. -/
def intern (v : Scalar) : Lowering Nat := ExceptT.mk (ConstantTable.intern v)

/-- A result that does not depend on the table. -/
def ofExcept {α : Type} (x : Except SchemaError α) : Lowering α := ExceptT.mk (pure x)

/-- Lowers a leaf. -/
def leaf (V : VariableSpace ν) : Leaf ν → Lowering (Ir ν)
  | .constant v => do
    let i ← intern v
    return .const i
  | .query q => do
    let cls := VariableClass.ofKind q.column.kind
    let i ← ofExcept (V.indexOf cls q.column q.rotation)
    return .var cls (Quantity.ofInt i)
  | .challenge index _ => do
    let i ← ofExcept (V.challengeIndex index)
    return .var .challenge i
  | .selector index => ofExcept (.error (.selector (Quantity.toJson index)))

/-- The product of two lowered operands: scaled if one is a constant. -/
def product : Ir ν → Ir ν → Ir ν
  | .const i, b => .scaled b i
  | a, .const i => .scaled a i
  | a, b => .product a b

/-- Lowering as an evaluation of expressions. -/
def algebra (V : VariableSpace ν) : Algebra ν Lowering (Ir ν) where
  leaf := leaf V
  neg := .neg
  sum := .sum
  product := product

/-- Lowers an expression. -/
def expr (V : VariableSpace ν) (e : Expr ν) : Lowering (Ir ν) := (algebra V).value e

/-- Lowers expressions in order. -/
def exprs (V : VariableSpace ν) (es : List (Expr ν)) : Lowering (List (Ir ν)) := es.mapM (expr V)

/-- Lowers the polynomials of a gate. -/
def gate (V : VariableSpace ν) (g : Gate (Expr ν)) : Lowering (Gate (Ir ν)) := do
  let polys ← exprs V g.polys
  return ⟨g.name, polys⟩

/-- Lowers an argument, its inputs first. -/
def argument (V : VariableSpace ν) (a : Argument (Expr ν)) :
    Lowering (Argument (Ir ν)) := do
  let inputs ← exprs V a.inputs
  let targets ← exprs V a.targets
  return ⟨a.name, inputs, targets⟩

/-- The gates, lookups and shuffles of a circuit, lowered. -/
structure Parts (ν : Type := Int) where
  gates : List (Gate (Ir ν))
  lookups : List (Argument (Ir ν))
  shuffles : List (Argument (Ir ν))

/-- Lowers a circuit whose queries can be looked up: its gates, then its lookups, then its
shuffles. -/
def circuit (c : Circuit ν) : Lowering (Parts ν) := do
  let V := VariableSpace.ofCircuit c
  ofExcept V.check
  let gates ← c.gates.mapM (gate V)
  let lookups ← c.lookups.mapM (argument V)
  let shuffles ← c.shuffles.mapM (argument V)
  return ⟨gates, lookups, shuffles⟩

end Lowering

end Plonkish
