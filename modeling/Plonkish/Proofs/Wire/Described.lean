import Plonkish.Proofs.Lowering.Described
import Plonkish.Wire.Outline

/-!
# Writing quantities that are integers

An outline whose quantities are integers is written as the outline of these integers is, in every
type of quantities.

* `Wire.encodeExprs_ofInt`: expressions.
* `Outline.encodeAt_ofInt`: outlines.
-/

namespace Plonkish

variable {ν : Type} [Quantity ν]

namespace Wire

theorem word_ofInt (size : Nat) (what : Text) (value : Int) :
    word size what (Quantity.ofInt value : ν) = word size what value := by
  simp only [word, Quantity.within?, Quantity.integer?, Quantity.toJson_ofInt, Quantity.toJson_int]

theorem truncatedWord_ofInt (size : Nat) (what : Text) (value : Int) :
    truncatedWord size what (Quantity.ofInt value : ν) = truncatedWord size what value := by
  simp only [truncatedWord, Quantity.within?, Quantity.truncated, Quantity.toJson_ofInt,
    Quantity.toJson_int]

theorem encodeColumn_ofInt (c : Column) :
    encodeColumn (c.map Quantity.ofInt : Column ν) = encodeColumn c := by
  simp only [encodeColumn, Column.map, word_ofInt]

theorem encodeQuery_ofInt (q : Query) :
    encodeQuery (q.map Quantity.ofInt : Query ν) = encodeQuery q := by
  simp only [encodeQuery, Query.map, Rotation.map, encodeColumn_ofInt, word_ofInt]
  rfl

theorem encodeVarIndex_ofInt (query : Width) (cls : VariableClass) (index : Int) :
    encodeVarIndex query cls (Quantity.ofInt index : ν) = encodeVarIndex query cls index := by
  cases cls <;> simp only [encodeVarIndex, word_ofInt, Width.encode, truncatedWord_ofInt]

theorem encoding_ofInt (query pool : Width) (e : Ir) :
    encoding query pool (e.map Quantity.ofInt : Ir ν) = encoding query pool e := by
  induction e with
  | const i => rfl
  | var cls i => simp only [Ir.map, encoding, encodeVarIndex_ofInt]
  | neg e ih => simp only [Ir.map, encoding, ih]
  | sum a b iha ihb => simp only [Ir.map, encoding, iha, ihb]
  | product a b iha ihb => simp only [Ir.map, encoding, iha, ihb]
  | scaled e i ih => simp only [Ir.map, encoding, ih]

theorem encodeExprs_ofInt (query pool : Width) (es : List Ir) :
    encodeExprs query pool (es.map (.map Quantity.ofInt) : List (Ir ν)) =
      encodeExprs query pool es := by
  have hpending : pendingEncoding query pool
      ((es.map (Ir.map (Quantity.ofInt : Int → ν))).map .node) =
        pendingEncoding query pool (es.map .node) := by
    induction es with
    | nil => rfl
    | cons e es ih =>
      simp only [List.map_cons, pendingEncoding, Pending.encoding, encoding_ofInt] at ih ⊢
      rw [ih]
  rw [encodeExprs, encodeExprs, emit_eq, emit_eq, hpending]

end Wire

namespace Outline

open Wire

variable (o : Outline) (query pool : Width)

theorem encodePhases_ofInt (phases : List Int) :
    encodePhases (phases.map (Quantity.ofInt : Int → ν)) = encodePhases phases := by
  simp only [encodePhases, List.mapM_map, Function.comp_def, encodePhase, truncatedWord_ofInt]
  rfl

theorem generalInfo_ofInt :
    (o.map (Quantity.ofInt : Int → ν)).generalInfo query pool = o.generalInfo query pool := by
  simp only [generalInfo, map, word_ofInt, encodePhases_ofInt]

/-- An outline whose quantities are integers is written as the outline of these integers is. -/
theorem encodeAt_ofInt :
    (o.map (Quantity.ofInt : Int → ν)).encodeAt query pool = o.encodeAt query pool := by
  simp only [encodeAt, generalInfo_ofInt]
  simp only [map, List.mapM_map, Function.comp_def, encodeQuery_ofInt, encodeColumn_ofInt, Gate.map,
    Argument.map, encodeExprs_ofInt]

theorem poolWidth_ofInt : (o.map (Quantity.ofInt : Int → ν)).poolWidth = o.poolWidth := rfl

theorem queryWidth_ofInt : (o.map (Quantity.ofInt : Int → ν)).queryWidth = o.queryWidth := by
  simp only [queryWidth, map, List.length_map]

theorem encode_ofInt : (o.map (Quantity.ofInt : Int → ν)).encode = o.encode := by
  simp only [encode, poolWidth_ofInt, queryWidth_ofInt, encodeAt_ofInt]

end Outline

end Plonkish
