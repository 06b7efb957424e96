import Plonkish.Expr.Postorder
import Plonkish.Poly
import Plonkish.VariableSpace

/-!
# Expanding expressions

Raw expressions are expanded to polynomials over the whole space of variables. The variable of a
challenge is numbered by the challenge's index, whatever kind of number that is.

* `Expansion.leaf_query`, `Expansion.leaf_challenge`: with integers, the variable of a leaf is the
  checked position in the whole space, and the check never fails.
-/

namespace Plonkish

/-- Why an expression is not expanded. -/
inductive ExpansionError
  | schema (e : SchemaError)
  /-- The number of a variable is not below the width of the space: a negative number of
  challenges narrows the space, and a sum may be rounded up to the width. -/
  | poly (e : PolyError)
  deriving DecidableEq

namespace Expansion

variable {ν ι : Type} [Quantity ν] [DecidableEq ν] [VariableNumber ι] [Numbering ν ι]

/-- Expands a leaf. What was found lies in the range of its class, so its number needs no check. -/
def leaf (V : VariableSpace ν) : Leaf ν → Except ExpansionError (Poly ι)
  | .constant v => (Poly.ofConstant V.width v).mapError .poly
  | .query q => do
    let cls := VariableClass.ofKind q.column.kind
    let i ← (V.indexOf cls q.column q.rotation).mapError .schema
    (Poly.ofVariable V.width (V.number cls (Quantity.ofInt i))).mapError .poly
  | .challenge index _ => do
    let i ← (V.challengeIndex index).mapError .schema
    (Poly.ofVariable V.width (V.number .challenge i)).mapError .poly
  | .selector index => .error (.schema (.selector (Quantity.toJson index)))

/-- The variable of a position that is in its class is the one at the checked position in the whole
space. -/
theorem ofVariable_number {V : VariableSpace} {cls : VariableClass} {i j : Int}
    (h : V.globalIndex cls i = .ok j) :
    (Poly.ofVariable V.width (V.number cls i)).mapError ExpansionError.poly = (do
      let j ← (V.globalIndex cls i).mapError .schema
      (Poly.ofSigned V.width j).mapError .poly) := by
  rw [h]
  obtain ⟨⟨hi, -⟩, rfl⟩ := VariableSpace.globalIndex_eq_ok_iff.1 h
  obtain ⟨n, hn⟩ := Int.eq_ofNat_of_zero_le (Int.add_nonneg (V.offset_nonneg cls) hi)
  rw [VariableSpace.number_int, hn, Int.toNat_natCast, ← Poly.ofSigned_natCast]
  rfl

theorem leaf_query (V : VariableSpace) (q : Query) :
    leaf V (.query q) = (do
      let cls := VariableClass.ofKind q.column.kind
      let i ← (V.indexOf cls q.column q.rotation).mapError .schema
      let j ← (V.globalIndex cls i).mapError .schema
      (Poly.ofSigned V.width j).mapError .poly) := by
  dsimp only [leaf]
  cases h : V.indexOf (.ofKind q.column.kind) q.column q.rotation with
  | error e => rfl
  | ok i => exact ofVariable_number (VariableSpace.globalIndex_of_indexOf h)

theorem leaf_challenge (V : VariableSpace) (index phase : Int) :
    leaf V (.challenge index phase) = (do
      let i ← (V.challengeIndex index).mapError .schema
      let j ← (V.globalIndex .challenge i).mapError .schema
      (Poly.ofSigned V.width j).mapError .poly) := by
  dsimp only [leaf]
  cases h : V.challengeIndex index with
  | error e => rfl
  | ok i => exact ofVariable_number (VariableSpace.globalIndex_of_challengeIndex h)

/-- Expansion as an evaluation of expressions. -/
def algebra (V : VariableSpace ν) : Algebra ν (Except ExpansionError) (Poly ι) where
  leaf := leaf V
  neg := Poly.neg
  sum := Poly.add
  product := Poly.mulByScaling

/-- The polynomial of an expression. -/
def expr (V : VariableSpace ν) (e : Expr ν) : Except ExpansionError (Poly ι) :=
  (algebra V).value e

/-- The polynomials of expressions. -/
def exprs (V : VariableSpace ν) (es : List (Expr ν)) : Except ExpansionError (List (Poly ι)) :=
  es.mapM (expr V)

/-- The polynomials of all expressions of a circuit. -/
structure Parts (ι : Type := Nat) where
  numVars : Int
  gates : List (List (Poly ι))
  lookupInputs : List (List (Poly ι))
  lookupTargets : List (List (Poly ι))
  shuffleInputs : List (List (Poly ι))
  shuffleTargets : List (List (Poly ι))

/-- Expands a circuit whose queries can be looked up: its gates, then the inputs of all lookups,
then their targets, then the inputs of all shuffles, then their targets. -/
def circuit (c : Circuit ν) : Except ExpansionError (Parts ι) := do
  let V := VariableSpace.ofCircuit c
  V.check.mapError .schema
  let gates ← c.gates.mapM fun g => exprs V g.polys
  let lookupInputs ← c.lookups.mapM fun a => exprs V a.inputs
  let lookupTargets ← c.lookups.mapM fun a => exprs V a.targets
  let shuffleInputs ← c.shuffles.mapM fun a => exprs V a.inputs
  let shuffleTargets ← c.shuffles.mapM fun a => exprs V a.targets
  return ⟨V.width, gates, lookupInputs, lookupTargets, shuffleInputs, shuffleTargets⟩

end Expansion

end Plonkish
