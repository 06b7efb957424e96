import Plonkish.Expr.FromJson
import Plonkish.Proofs.Expr

/-!
# Reading expressions by recursion

What a reader of descriptions has to do is said rule by rule: which fields it fetches and in which
order, when it reads the operands, and how it fails. Only one reader obeys the rules, and it is the
one that keeps stacks.

* `Expr.ReadsByRecursion`: the rules. `Expr.ReadsByRecursion.unique`: they leave no choice.
* `Expr.readsByRecursion_ofJson`: reading with stacks obeys them.
* `Expr.ofJson_toJson`: what an expression is written as is read as the expression.
* `Expr.ofJson_by_recursion`: reading with stacks is reading by recursion, errors included.
-/

namespace Plonkish

theorem Scalar.ofInt_val (v : Scalar) : ofInt v.val = v := by
  have hmod : (v.val : Int) % modulus = v.val :=
    Int.emod_eq_of_lt (Int.natCast_nonneg _) (Int.ofNat_lt.2 v.isLt)
  apply Fin.ext
  simp only [ofInt, hmod, Int.toNat_natCast]

/-- A rotation by a signed offset is read from the offset it is written as. -/
theorem Rotation.ofJson_offset (n : Int) :
    Rotation.ofJson ((Rotation.ofInt n).map Json.int).offset =
      .ok ((Rotation.ofInt n).map .int) := by
  have hoffset (r : Rotation) : (r.map Json.int).offset = .int r.toInt := by
    obtain ⟨magnitude, forward⟩ := r
    cases forward <;> rfl
  rw [hoffset, toInt_ofInt]
  rfl

/-- The kinds of error that a value can give as a constant. -/
def Json.constantFaults : Json → List String
  | .null => ["TypeError"]
  | .bool _ => []
  | .int _ => []
  | .real _ => ["ValueError", "OverflowError"]
  | .str _ => ["ValueError"]
  | .arr _ => ["TypeError"]
  | .obj _ => ["KeyError", "TypeError", "ValueError"]

open Outcome in
/-- A constant fails as the kind of its value allows. -/
theorem Scalar.failsOnly_ofJson (value : Json) :
    FailsOnly (fun e => e.kind ∈ value.constantFaults) (Scalar.ofJson value) := by
  cases value with
  | null => exact failsOnly_error (List.mem_singleton_self _)
  | bool b => exact failsOnly_ok
  | int n => exact failsOnly_ok
  | real x =>
    cases x with
    | finite negative mantissa exponent => exact failsOnly_ok
    | infinite negative => exact failsOnly_error (by simp [Json.constantFaults, LoadError.kind])
    | nan => exact failsOnly_error (by simp [Json.constantFaults, LoadError.kind])
  | str text =>
    rw [Scalar.ofJson, Scalar.ofJsonWithin]
    cases Literal.parse (some Literal.digitLimit) text with
    | ok n => exact failsOnly_ok
    | error e => exact failsOnly_error (List.mem_singleton_self _)
  | arr items => exact failsOnly_error (List.mem_singleton_self _)
  | obj fields =>
    refine FailsOnly.bind ?_ fun text => FailsOnly.bind ?_ fun bytes => FailsOnly.mapError ?_
    · unfold Json.entry
      dsimp only
      split
      · exact failsOnly_ok
      · exact failsOnly_error (by simp [Json.constantFaults, LoadError.kind])
    · unfold Json.hexBytes
      split
      · exact FailsOnly.mapError fun _ => by simp [Json.constantFaults, LoadError.kind]
      · exact failsOnly_error (by simp [Json.constantFaults, LoadError.kind])
    · intro e
      simp [Json.constantFaults, LoadError.kind]

namespace Expr

/-! ## The rules -/

/-- The names of the operations with operands. -/
def operators : List String := ["neg", "sum", "product"]

/-- The names of the operations without operands, queries apart. -/
def leafOperations : List String := ["constant", "challenge", "selector"]

/-- The names that an operation can have. -/
def operations : List String :=
  operators ++ leafOperations ++ [ColumnKind.advice, .fixed, .inst].map ColumnKind.name

/-- The value describes an operation, of which it gives the name. -/
def Names (j : Json) (name : String) : Prop := j.member "op" .null = .ok (.str name)

/-- Reads a node with two operands: the right one is looked for first, and the left one is read
first. -/
def readPair (reader : Json → Except LoadError (Expr Json))
    (node : Expr Json → Expr Json → Expr Json) (j : Json) : Except LoadError (Expr Json) := do
  let rhs ← j.entry "rhs"
  let lhs ← j.entry "lhs"
  let x ← reader lhs
  let y ← reader rhs
  return node x y

/-- What a reader of descriptions does that reads by recursion. -/
structure ReadsByRecursion (reader : Json → Except LoadError (Expr Json)) : Prop where
  /-- What is no object has no fields. -/
  noObject {j : Json} (h : ∀ fields, j ≠ .obj fields) : reader j = .error .noFields
  /-- An array or an object in place of the name cannot be looked up. -/
  compound {j op : Json} (h : j.member "op" .null = .ok op) (hop : op.isCompound = true) :
    reader j = .error .wrongType
  /-- Anything else in place of the name is an unknown operation, and so is no name at all. -/
  unknown {j op : Json} (h : j.member "op" .null = .ok op) (hop : op.isCompound = false)
    (hname : ∀ name ∈ operations, op ≠ .str name) : reader j = .error (.operation op.shown)
  neg {j : Json} (h : Names j "neg") : reader j = do
    let e ← j.entry "expr"
    let x ← reader e
    return .neg x
  sum {j : Json} (h : Names j "sum") : reader j = readPair reader .sum j
  product {j : Json} (h : Names j "product") : reader j = readPair reader .product j
  constant {j : Json} (h : Names j "constant") : reader j = do
    let value ← j.entry "value"
    let v ← Scalar.ofJson value
    return .leaf (.constant v)
  query (kind : ColumnKind) {j : Json} (h : Names j kind.name) : reader j = do
    let index ← j.entry "column"
    let phase ← j.member "phase" (.int 0)
    let offset ← j.member "rotation" (.int 0)
    let rotation ← Rotation.ofJson offset
    return .leaf (.query ⟨⟨kind, index, phase⟩, rotation⟩)
  challenge {j : Json} (h : Names j "challenge") : reader j = do
    let index ← j.entry "index"
    let phase ← j.member "phase" (.int 0)
    return .leaf (.challenge index phase)
  selector {j : Json} (h : Names j "selector") : reader j = do
    let index ← j.entry "index"
    return .leaf (.selector index)

/-! ## There is one reader -/

variable {j : Json} {reader reader' : Json → Except LoadError (Expr Json)}

theorem readPair_congr {node : Expr Json → Expr Json → Expr Json}
    (h : ∀ k, sizeOf k < sizeOf j → reader k = reader' k) :
    readPair reader node j = readPair reader' node j := by
  unfold readPair
  cases hr : j.entry "rhs" with
  | error e => rfl
  | ok rhs =>
    cases hl : j.entry "lhs" with
    | error e => rfl
    | ok lhs =>
      have hlhs := h lhs (Json.sizeOf_lt_of_entry hl)
      have hrhs := h rhs (Json.sizeOf_lt_of_entry hr)
      simp only [bind, Except.bind, hlhs, hrhs]

/-- Two readers that obey the rules read a description alike, if they read all smaller ones
alike. -/
theorem ReadsByRecursion.eq_of_smaller (h : ReadsByRecursion reader)
    (h' : ReadsByRecursion reader') (ih : ∀ k, sizeOf k < sizeOf j → reader k = reader' k) :
    reader j = reader' j := by
  -- The cases are those of the rules: no object, no known name, or one of the names.
  cases hop : j.member "op" .null with
  | error e =>
    have hno : ∀ fields, j ≠ .obj fields := by
      rintro fields rfl
      cases hop
    rw [h.noObject hno, h'.noObject hno]
  | ok op =>
    by_cases hcompound : op.isCompound = true
    · rw [h.compound hop hcompound, h'.compound hop hcompound]
    by_cases hknown : ∀ name ∈ operations, op ≠ .str name
    · have hatom := Bool.not_eq_true _ ▸ hcompound
      rw [h.unknown hop hatom hknown, h'.unknown hop hatom hknown]
    push Not at hknown
    obtain ⟨name, hname, rfl⟩ := hknown
    simp only [operations, operators, leafOperations, List.map, List.cons_append, List.nil_append,
      List.mem_cons, List.not_mem_nil, or_false] at hname
    rcases hname with rfl | rfl | rfl | rfl | rfl | rfl | rfl | rfl | rfl
    · rw [h.neg hop, h'.neg hop]
      cases he : j.entry "expr" with
      | error e => rfl
      | ok e =>
        have hexpr := ih e (Json.sizeOf_lt_of_entry he)
        simp only [bind, Except.bind, hexpr]
    · rw [h.sum hop, h'.sum hop, readPair_congr ih]
    · rw [h.product hop, h'.product hop, readPair_congr ih]
    · rw [h.constant hop, h'.constant hop]
    · rw [h.challenge hop, h'.challenge hop]
    · rw [h.selector hop, h'.selector hop]
    · rw [h.query .advice hop, h'.query .advice hop]
    · rw [h.query .fixed hop, h'.query .fixed hop]
    · rw [h.query .inst hop, h'.query .inst hop]

/-- The rules leave no choice. -/
theorem ReadsByRecursion.unique (h : ReadsByRecursion reader) (h' : ReadsByRecursion reader')
    (j : Json) : reader j = reader' j :=
  h.eq_of_smaller h' fun k _ => h.unique h' k
termination_by sizeOf j

/-! ## Reading with stacks obeys the rules -/

theorem readOperation_of_names {name : String} (h : Names j name) :
    readOperation j = .ok name := by
  rw [readOperation, h]
  simp only [bind, Except.bind, operationName, Text.toString?_ofString]

theorem readOperation_of_noObject (h : ∀ fields, j ≠ .obj fields) :
    readOperation j = .error .noFields := by
  cases j with
  | obj fields => exact absurd rfl (h fields)
  | _ => rfl

theorem read_of_readOperation {e : LoadError} (h : readOperation j = .error e) :
    read j = .error e := by
  rw [read_eq, readHead, h]

theorem read_of_compound {op : Json} (h : j.member "op" .null = .ok op)
    (hop : op.isCompound = true) : read j = .error .wrongType := by
  apply read_of_readOperation
  rw [readOperation, h]
  cases op with
  | arr items => rfl
  | obj fields => rfl
  | _ => cases hop

theorem readPair_eq {node : Expr Json → Expr Json → Expr Json} :
    readPair reader node j = do
      let (lhs, rhs) ← readOperands j
      let x ← reader lhs
      let y ← reader rhs
      return node x y := by
  rw [readPair, readOperands]
  cases j.entry "rhs" with
  | error e => rfl
  | ok rhs => cases j.entry "lhs" <;> rfl

theorem readHead_of_names {name : String} (h : Names j name) :
    readHead j =
      if name = "neg" then (j.entry "expr").map .neg
      else if name = "sum" then (readOperands j).map fun (lhs, rhs) => .sum lhs rhs
      else if name = "product" then (readOperands j).map fun (lhs, rhs) => .product lhs rhs
      else (readLeaf name j).map .leaf := by
  rw [readHead, readOperation_of_names h]

/-- What is no operator is read as a leaf. -/
theorem read_of_names {name : String} (h : Names j name)
    (hname : name ∉ operators) : read j = do
      let l ← readLeaf name j
      return .leaf l := by
  simp only [operators, List.mem_cons, List.not_mem_nil, or_false, not_or] at hname
  obtain ⟨hneg, hsum, hproduct⟩ := hname
  rw [read_eq, readHead_of_names h, if_neg hneg, if_neg hsum, if_neg hproduct]
  cases readLeaf name j <;> rfl

/-- What names no other leaf is read as a query, if it names a column kind. -/
theorem readLeaf_of_query {name : String} (hname : name ∉ leafOperations) :
    readLeaf name j =
      match ColumnKind.ofName? name with
      | some kind => readQuery kind j
      | none => .error (.operation name) := by
  simp only [leafOperations, List.mem_cons, List.not_mem_nil, or_false, not_or] at hname
  obtain ⟨hconstant, hchallenge, hselector⟩ := hname
  rw [readLeaf, if_neg hconstant, if_neg hchallenge]
  exact if_neg hselector

theorem readLeaf_of_unknown {name : String} (hname : name ∉ operations) :
    readLeaf name j = .error (.operation name) := by
  have hkind : ColumnKind.ofName? name = none := by
    rw [ColumnKind.ofName?, List.find?_eq_none]
    intro kind hkind hkindName
    have hmem := List.mem_map_of_mem (f := ColumnKind.name) hkind
    rw [decide_eq_true_iff.1 hkindName] at hmem
    exact hname (List.mem_append_right _ hmem)
  have hleaf : name ∉ leafOperations := fun hop =>
    hname (List.mem_append_left _ (List.mem_append_right operators hop))
  rw [readLeaf_of_query hleaf, hkind]

theorem read_of_unknown {op : Json} (h : j.member "op" .null = .ok op)
    (hop : op.isCompound = false) (hname : ∀ name ∈ operations, op ≠ .str name) :
    read j = .error (.operation op.shown) := by
  by_cases hstr : ∃ name : String, op = .str name
  · obtain ⟨name, rfl⟩ := hstr
    have hunknown : name ∉ operations := fun hmem => hname name hmem rfl
    have hoperator : name ∉ operators := fun hmem =>
      hunknown (List.mem_append_left _ (List.mem_append_left _ hmem))
    rw [read_of_names h hoperator, readLeaf_of_unknown hunknown]
    rfl
  · apply read_of_readOperation
    rw [readOperation, h]
    cases op with
    | str text =>
      cases htext : text.toString? with
      | none => simp only [bind, Except.bind, operationName, htext, Json.shown]
      | some name => exact absurd ⟨name, by rw [Text.ofString_of_toString? htext]⟩ hstr
    | arr items => cases hop
    | obj fields => cases hop
    | _ => rfl

/-- Reading by recursion obeys the rules. -/
theorem readsByRecursion_read : ReadsByRecursion read where
  noObject h := read_of_readOperation (readOperation_of_noObject h)
  compound := read_of_compound
  unknown := read_of_unknown
  neg {j} h := by
    rw [read_eq, readHead_of_names h, if_pos rfl]
    cases j.entry "expr" <;> rfl
  sum {j} h := by
    rw [read_eq, readHead_of_names h, if_neg (by decide), if_pos rfl, readPair_eq]
    cases readOperands j <;> rfl
  product {j} h := by
    rw [read_eq, readHead_of_names h, if_neg (by decide), if_neg (by decide), if_pos rfl,
      readPair_eq]
    cases readOperands j <;> rfl
  constant h := by
    rw [read_of_names h (by decide), readLeaf, if_pos rfl]
    simp only [bind_assoc, pure_bind]
  query kind j h := by
    have hkind : ColumnKind.ofName? kind.name = some kind := by cases kind <;> rfl
    have hleaf : kind.name ∉ leafOperations := by cases kind <;> decide
    have hoperator : kind.name ∉ operators := by cases kind <;> decide
    rw [read_of_names h hoperator, readLeaf_of_query hleaf, hkind]
    simp only [readQuery, readPhase, readRotation, bind_assoc, pure_bind]
  challenge h := by
    rw [read_of_names h (by decide), readLeaf, if_neg (by decide), if_pos rfl]
    simp only [readPhase, bind_assoc, pure_bind]
  selector h := by
    rw [read_of_names h (by decide), readLeaf, if_neg (by decide), if_neg (by decide), if_pos rfl]
    simp only [bind_assoc, pure_bind]

/-- Reading with stacks obeys the rules. -/
theorem readsByRecursion_ofJson : ReadsByRecursion ofJson :=
  funext ofJson_eq_read ▸ readsByRecursion_read

/-! ## Reading what was written -/

/-- All rotations of an expression are rotations by signed offsets. -/
def HasSignedRotations (e : Expr Json) : Prop :=
  ∀ q, Leaf.query q ∈ e.leaves → ∃ n : Int, q.rotation = (Rotation.ofInt n).map .int

/-- An object whose first field is the name describes the operation with the name. -/
theorem names_obj (name : String) (fields : List (Text × Json)) :
    Names (.obj (("op", .str name) :: fields)) name := rfl

theorem ofJson_leaf (l : Leaf Json) (h : HasSignedRotations (.leaf l)) :
    ofJson l.toJson = .ok (.leaf l) := by
  cases l with
  | constant v =>
    rw [Leaf.toJson, readsByRecursion_ofJson.constant (names_obj _ _)]
    exact congrArg (fun v => Except.ok (leaf (.constant v))) v.ofInt_val
  | query q =>
    obtain ⟨n, hn⟩ := h q (List.mem_singleton_self _)
    obtain ⟨⟨kind, index, phase⟩, rotation⟩ := q
    cases hn
    rw [Leaf.toJson, readsByRecursion_ofJson.query kind (names_obj _ _)]
    change (do
      let rotation ← Rotation.ofJson ((Rotation.ofInt n).map Json.int).offset
      return leaf (.query ⟨⟨kind, index, phase⟩, rotation⟩)) = _
    rw [Rotation.ofJson_offset]
    rfl
  | challenge index phase => exact readsByRecursion_ofJson.challenge (names_obj _ _)
  | selector index => exact readsByRecursion_ofJson.selector (names_obj _ _)

theorem readPair_ok {node : Expr Json → Expr Json → Expr Json} {lhs rhs : Json} {a b : Expr Json}
    (hr : j.entry "rhs" = .ok rhs) (hl : j.entry "lhs" = .ok lhs) (ha : reader lhs = .ok a)
    (hb : reader rhs = .ok b) : readPair reader node j = .ok (node a b) := by
  rw [readPair, hr, hl]
  simp only [bind, Except.bind, ha, hb]
  rfl

/-- What an expression is written as is read as the expression. -/
theorem ofJson_toJson (e : Expr Json) (h : HasSignedRotations e) : ofJson e.toJson = .ok e := by
  induction e with
  | leaf l => exact ofJson_leaf l h
  | neg e ih =>
    rw [toJson, readsByRecursion_ofJson.neg (names_obj _ _)]
    change (do let x ← ofJson e.toJson; return neg x) = _
    rw [ih h]
    rfl
  | sum a b iha ihb =>
    rw [toJson, readsByRecursion_ofJson.sum (names_obj _ _)]
    have ha := iha fun q hq => h q (List.mem_append_left _ hq)
    have hb := ihb fun q hq => h q (List.mem_append_right _ hq)
    exact readPair_ok rfl rfl ha hb
  | product a b iha ihb =>
    rw [toJson, readsByRecursion_ofJson.product (names_obj _ _)]
    have ha := iha fun q hq => h q (List.mem_append_left _ hq)
    have hb := ihb fun q hq => h q (List.mem_append_right _ hq)
    exact readPair_ok rfl rfl ha hb

/-! ## Reading with stacks is reading by recursion -/

/-- Reading with stacks is the one way of reading by recursion, in what it gives and in how it
fails. It ends with one expression on its stack, and no node ever lacks an operand. What is missing,
unknown or of a wrong type has an error of a kind of its own, constants included. Expressions whose
rotations are rotations by signed offsets are read from what they are written as. -/
theorem ofJson_by_recursion :
    (∀ reader, ReadsByRecursion reader ↔ reader = ofJson) ∧
    (∀ j, readOnto [] [.read j] = (ofJson j).map fun e => some [e]) ∧
    ((∀ key, (LoadError.missing key).kind = "KeyError") ∧
      (∀ op, (LoadError.operation op).kind = "ValueError") ∧
      LoadError.wrongType.kind = "TypeError" ∧ LoadError.noFields.kind = "AttributeError") ∧
    (Scalar.ofJson .null = .error .wrongType ∧
      (∀ items, Scalar.ofJson (.arr items) = .error .wrongType) ∧
      ∀ value e, Scalar.ofJson value = .error e → e.kind ∈ value.constantFaults) ∧
    ∀ e : Expr Json, HasSignedRotations e → ofJson e.toJson = .ok e := by
  refine ⟨fun reader => ⟨fun h => ?_, ?_⟩, fun j => ?_, ?_, ?_, ofJson_toJson⟩
  · exact funext (h.unique readsByRecursion_ofJson)
  · rintro rfl
    exact readsByRecursion_ofJson
  · rw [ofJson_eq_read, readOnto_eq]
  · exact ⟨fun _ => rfl, fun _ => rfl, rfl, rfl⟩
  · exact ⟨rfl, fun _ => rfl, Scalar.failsOnly_ofJson⟩

/-- A nested expression is read back. Of a missing right operand and an unknown operation on the
left the missing operand is reported. -/
theorem ofJson_by_recursion_nested :
    let q : Query Json := ⟨⟨.advice, .int 2, .int 0⟩, ⟨.int 1, false⟩⟩
    let e : Expr Json := .neg (.sum (query q) (.product (constant 5) (.leaf (.selector (.int 3)))))
    HasSignedRotations e ∧ ofJson e.toJson = .ok e ∧
      ofJson (.obj [("op", .str "sum"), ("lhs", .obj [("op", .str "power")])]) =
        .error (.missing "rhs") := by
  intro q e
  have hsigned : HasSignedRotations e := by
    intro q' hq'
    have hq : q' = q := by
      simpa [e, leaves, query, constant] using hq'
    rw [hq]
    exact ⟨-1, rfl⟩
  refine ⟨hsigned, ofJson_by_recursion.2.2.2.2 e hsigned, ?_⟩
  exact ((ofJson_by_recursion.1 ofJson).2 rfl).sum (names_obj _ _)

end Expr

end Plonkish
