import Plonkish.Proofs.Bytes.Hex
import Plonkish.Proofs.ConstantTable
import Plonkish.Proofs.Expr.FromJson
import Plonkish.Proofs.Number.Literal

/-!
# Notations of constants

A constant may be described by an integer, by a literal in one of four bases or by its canonical
bytes. All notations of an integer denote its residue, and a table of constants gives one position
to all of them. Bytes denote a scalar only if they are canonical.

* `Scalar.notations`: the notations of an integer.
* `Scalar.ofJsonWithin_of_mem_notations`: what they denote.
* `Scalar.ofJsonWithin_repr`: what bytes denote.
* `Scalar.ofJson_notations`: notations agree, also in tables of constants.
-/

namespace Plonkish

open Outcome

/-- A constant that has a position is found there, with whatever else has been entered. -/
theorem ConstantTable.Reaches.intern_eq {t t' t'' : ConstantTable} {v : Scalar} {i : Nat}
    (hlater : t'.Reaches t'') (h : t.intern v = (.ok i, t')) : t''.intern v = (.ok i, t'') := by
  rw [intern, hlater.position?_eq (position?_of_intern h)]

/-- Only objects have fields. -/
theorem Json.exists_of_field? {j v : Json} {key : String} (h : j.field? key = some v) :
    ∃ fields, j = .obj fields := by
  cases j with
  | obj fields => exact ⟨fields, rfl⟩
  | _ => cases h

namespace Scalar

variable {limit : Option Nat} {v : Int} {x : Scalar} {j : Json} {text : Text}

/-- The notations of an integer: itself, the canonical bytes of its residue, and literals in base
ten and in the bases that are marked. -/
def notations (v : Int) : List Json :=
  .int v :: .obj [("repr", .str (ofInt v).toBytes.toHex)] :: .str (toString v) ::
    [16, 8, 2].map fun base => .str (Literal.written base v)

/-- Bytes denote the scalar that they are the canonical form of. -/
theorem ofJsonWithin_repr (h : j.field? "repr" = some (.str text)) :
    ofJsonWithin limit j = .ok x ↔ Hex.decode text = .ok x.toBytes := by
  obtain ⟨fields, rfl⟩ := Json.exists_of_field? h
  have hentry : (Json.obj fields).entry "repr" = .ok (.str text) := by
    rw [Json.field?] at h
    rw [Json.entry, h]
  simp only [ofJsonWithin, hentry, Json.hexBytes, bind_eq_ok_iff, mapError_eq_ok_iff,
    ofBytes_eq_ok_iff, Except.ok.injEq, exists_eq_left', exists_eq_right]

/-- Bytes are accepted exactly if they are canonical. -/
theorem exists_ofJsonWithin_repr (h : j.field? "repr" = some (.str text)) :
    (∃ x, ofJsonWithin limit j = .ok x) ↔
      ∃ bytes, Hex.decode text = .ok bytes ∧ IsCanonical bytes := by
  simp only [ofJsonWithin_repr h, isCanonical_iff, ofBytes_eq_ok_iff]
  constructor
  · rintro ⟨x, hx⟩
    exact ⟨x.toBytes, hx, x, rfl⟩
  · rintro ⟨_, hx, x, rfl⟩
    exact ⟨x, hx⟩

/-- All notations of an integer denote its residue. -/
theorem ofJsonWithin_of_mem_notations (hwithin : Literal.IsWithin limit v) (h : j ∈ notations v) :
    ofJsonWithin limit j = .ok (ofInt v) := by
  have hwritten : ∀ base ∈ Literal.bases,
      ofJsonWithin limit (.str (Literal.written base v)) = .ok (ofInt v) := by
    intro base hbase
    rw [ofJsonWithin, Literal.parse_written hbase hwithin]
  rw [notations, List.mem_cons, List.mem_cons, List.mem_cons, List.mem_map] at h
  rcases h with rfl | rfl | rfl | ⟨base, hbase, rfl⟩
  · rfl
  · exact (ofJsonWithin_repr rfl).2 (Hex.decode_toHex _)
  · rw [← Literal.written_ten]
    exact hwritten 10 List.mem_cons_self
  · exact hwritten base (List.mem_cons_of_mem _ hbase)

end Scalar

/-- A description of a constant by a notation of an integer is read as the residue. -/
theorem Expr.ofJson_of_mem_notations {d j : Json} {v : Int} (hop : Names d "constant")
    (hvalue : d.entry "value" = .ok j) (hwithin : Literal.IsWithin (some Literal.digitLimit) v)
    (h : j ∈ Scalar.notations v) : ofJson d = .ok (.leaf (.constant (Scalar.ofInt v))) := by
  rw [readsByRecursion_ofJson.constant hop, hvalue]
  have hscalar := Scalar.ofJsonWithin_of_mem_notations hwithin h
  rw [← Scalar.ofJson] at hscalar
  simp only [bind, Except.bind, hscalar]
  rfl

namespace Scalar

/-- All notations of an integer within the limit denote the residue of the integer. Wherever one of
them has a position in a table of constants, any other is found at that position, with whatever else
has been entered. They are read as the same constant expression. Conversely, hexadecimal bytes are
accepted exactly if they are 32 bytes that spell a number below the modulus, and then they denote
that number. -/
theorem ofJson_notations :
    (∀ (limit : Option Nat) (v : Int), Literal.IsWithin limit v →
      ((ofInt v).val : Int) = v % modulus ∧
        (∀ j ∈ notations v, ofJsonWithin limit j = .ok (ofInt v)) ∧
          ∀ j ∈ notations v, ∀ j' ∈ notations v, ∀ x x',
            ofJsonWithin limit j = .ok x → ofJsonWithin limit j' = .ok x' →
              ∀ (t t' t'' : ConstantTable) (i : Nat), t.intern x = (.ok i, t') →
                t'.Reaches t'' → t''.intern x' = (.ok i, t'')) ∧
      (∀ v, Literal.IsWithin (some Literal.digitLimit) v → ∀ j ∈ notations v,
        ∀ d, Expr.Names d "constant" → d.entry "value" = .ok j →
          Expr.ofJson d = .ok (.leaf (.constant (ofInt v)))) ∧
        ∀ (limit : Option Nat) (j : Json) (text : Text), j.field? "repr" = some (.str text) →
          ((∃ x, ofJsonWithin limit j = .ok x) ↔
            ∃ bytes, Hex.decode text = .ok bytes ∧ bytes.length = 32 ∧ bytes.toNat < modulus) ∧
          ∀ x, ofJsonWithin limit j = .ok x →
            ∃ bytes, Hex.decode text = .ok bytes ∧ bytes.toNat = x.val := by
  refine ⟨fun limit v hwithin => ⟨val_ofInt v, fun j hj => ofJsonWithin_of_mem_notations hwithin hj,
    ?_⟩, fun v hwithin j hj d hop hvalue => Expr.ofJson_of_mem_notations hop hvalue hwithin hj,
    fun limit j text hfield => ⟨exists_ofJsonWithin_repr hfield, fun x hx => ?_⟩⟩
  · intro j hj j' hj' x x' hx hx' t t' t'' i hintern hlater
    rw [ofJsonWithin_of_mem_notations hwithin hj] at hx
    rw [ofJsonWithin_of_mem_notations hwithin hj'] at hx'
    cases hx
    cases hx'
    exact hlater.intern_eq hintern
  · refine ⟨x.toBytes, (ofJsonWithin_repr hfield).1 hx, ?_⟩
    rw [toBytes, Bytes.toNat_ofNat_of_lt (val_lt_capacity x)]

/-- A frozen table in which minus eleven has been entered behind three and in front of seven. -/
def frozenAtEleven : ConstantTable :=
  let t : ConstantTable := ⟨[toBytes 3], false⟩
  ((t.intern (ofInt (-11))).2.intern 7).2.freeze

/-- Minus eleven in some notations, one of which has been entered; and a byte that is no scalar. -/
theorem ofJson_notations_negative :
    (∀ j ∈ [.int (-11), .str "-11", .str "-0xb", .str "-0b1011"],
      ofJsonWithin none j = .ok (ofInt (-11)) ∧
        frozenAtEleven.intern (ofInt (-11)) = (.ok 1, frozenAtEleven)) ∧
      Expr.ofJson (.obj [("op", .str "constant"), ("value", .str "-0o13")]) =
        .ok (.leaf (.constant (ofInt (-11)))) ∧
      ¬∃ x, ofJsonWithin none (.obj [("repr", .str "0b")]) = .ok x := by
  obtain ⟨hnotations, hexpr, hrepr⟩ := ofJson_notations
  obtain ⟨-, hread, hposition⟩ := hnotations none (-11) (Literal.isWithin_none _)
  have hmem : ∀ j ∈ [.int (-11), .str "-11", .str "-0xb", .str "-0b1011"],
      j ∈ notations (-11) := by
    decide +kernel
  have hlater : (ConstantTable.intern (ofInt (-11)) ⟨[toBytes 3], false⟩).2.Reaches
      frozenAtEleven :=
    (ConstantTable.reaches_intern 7 _).trans (.single (.freeze _))
  refine ⟨fun j hj => ⟨hread j (hmem j hj), ?_⟩, ?_, ?_⟩
  · have hint : Json.int (-11) ∈ notations (-11) := hmem _ List.mem_cons_self
    exact hposition _ hint j (hmem j hj) _ _ (hread _ hint) (hread j (hmem j hj))
      ⟨[toBytes 3], false⟩ _ frozenAtEleven 1 (by decide +kernel) hlater
  · have hwithin : Literal.IsWithin (some Literal.digitLimit) (-11) := by
      rintro most ⟨⟩
      decide
    exact hexpr (-11) hwithin (.str "-0o13") (by decide +kernel) _ rfl rfl
  · rw [(hrepr none _ "0b" rfl).1]
    rintro ⟨bytes, hdecode, hlength, -⟩
    cases hdecode
    cases hlength

end Scalar

end Plonkish
