import Mathlib.Data.Set.List
import Mathlib.Tactic.MkIffOfInductiveProp
import Plonkish.Circuit.FromJson
import Plonkish.Proofs.Expr.FromJson
import Plonkish.Proofs.Lowering.Described
import Plonkish.VerifyingKey

/-!
# Well-typed descriptions

A description is well-typed if what it has in its fields is of the type that is read there: objects
and arrays where these are described, integers for quantities, texts for names of operations and
kinds. Fields may be missing, and integers and texts may be any. All this can be decided. Reading a
well-typed description gives a circuit of integers or fails in a way that the command reports.

* `Schema.IsExpr`, `Schema.IsCircuit`, `Schema.IsKey`: well-typed descriptions.
* `LoadError.IsReported`: the errors about a well-typed description.
* `Expr.yields_ofJson`, `Circuit.yields_ofJson`, `VerifyingKey.failsOnly_ofJson`: reading.
-/

namespace Plonkish

open Outcome

/-! ## Schemas -/

namespace Schema

def IsObject (j : Json) : Prop := ∃ fields, j = .obj fields

def IsArrayOf (P : Json → Prop) (j : Json) : Prop :=
  ∃ items, j = .arr items ∧ ∀ item ∈ items, P item

def IsInt (j : Json) : Prop := ∃ n, j = .int n

def IsText (j : Json) : Prop := ∃ text, j = .str text

/-- The field of an object has a property, unless it is missing. -/
def Field (key : String) (P : Json → Prop) (j : Json) : Prop := ∀ v, j.field? key = some v → P v

/-- A constant: no value that denotes no number. -/
def IsConstant : Json → Prop
  | .null => False
  | .arr _ => False
  | .real (.infinite _) => False
  | .obj fields => Field "repr" IsText (.obj fields)
  | _ => True

/-- An expression. All operations have their quantities and operands in fields of the same names. -/
@[mk_iff]
inductive IsExpr : Json → Prop
  | intro {j : Json} (object : IsObject j) (op : Field "op" IsText j)
    (value : Field "value" IsConstant j)
    (quantities : ∀ key ∈ ["column", "index", "phase", "rotation"], Field key IsInt j)
    (operands : ∀ key ∈ ["expr", "lhs", "rhs"], ∀ v, j.field? key = some v → IsExpr v) : IsExpr j

@[mk_iff]
structure IsColumn (j : Json) : Prop where
  object : IsObject j
  kind : Field "kind" IsText j
  index : Field "index" IsInt j
  phase : Field "phase" IsInt j

@[mk_iff]
structure IsQuery (j : Json) : Prop where
  object : IsObject j
  column : Field "column" IsColumn j
  rotation : Field "rotation" IsInt j

/-- An object that lists expressions in given fields. -/
@[mk_iff]
structure ListsExprs (keys : List String) (j : Json) : Prop where
  object : IsObject j
  exprs : ∀ key ∈ keys, Field key (IsArrayOf IsExpr) j

@[mk_iff]
structure IsCircuit (j : Json) : Prop where
  object : IsObject j
  counts : ∀ key ∈ ["numFixedColumns", "numInstanceColumns"], Field key IsInt j
  phases : ∀ key ∈ ["adviceColumnPhase", "challengePhase"], Field key (IsArrayOf IsInt) j
  degree : Field "degree" (fun v => v = .null ∨ IsInt v) j
  permutation : Field "permutationColumns" (IsArrayOf IsColumn) j
  queries : ∀ key ∈ ["adviceQueries", "fixedQueries", "instanceQueries"],
    Field key (IsArrayOf IsQuery) j
  gates : Field "gates" (IsArrayOf (ListsExprs ["polys"])) j
  lookups : Field "lookups" (IsArrayOf (ListsExprs ["inputExpressions", "tableExpressions"])) j
  shuffles : Field "shuffles" (IsArrayOf (ListsExprs ["inputExpressions", "shuffleExpressions"])) j

@[mk_iff]
structure IsKey (j : Json) : Prop where
  object : IsObject j
  fingerprint : ∀ key ∈ ["transcriptRepr", "pinned"], Field key IsText j
  commitments : ∀ key ∈ ["fixedCommitments", "permutationCommitments"],
    Field key (IsArrayOf IsText) j

/-! ### Deciding -/

variable {key : String} {P : Json → Prop}

instance : DecidablePred IsObject := fun j =>
  decidable_of_iff ((j matches .obj _) = true) (by cases j <;> simp [IsObject])

instance : DecidablePred IsInt := fun j =>
  decidable_of_iff ((j matches .int _) = true) (by cases j <;> simp [IsInt])

instance : DecidablePred IsText := fun j =>
  decidable_of_iff ((j matches .str _) = true) (by cases j <;> simp [IsText])

instance [DecidablePred P] : DecidablePred (IsArrayOf P)
  | .arr items => decidable_of_iff (∀ item ∈ items, P item) (by simp [IsArrayOf])
  | .null | .bool _ | .int _ | .real _ | .str _ | .obj _ => .isFalse (by simp [IsArrayOf])

theorem field_of_eq_none {j : Json} (h : j.field? key = none) : Field key P j := by
  intro v hv
  cases h.symm.trans hv

theorem field_iff_of_eq_some {j v : Json} (h : j.field? key = some v) : Field key P j ↔ P v := by
  rw [Field, h]
  simp

instance [DecidablePred P] : DecidablePred (Field key P) := fun j =>
  match h : j.field? key with
  | none => .isTrue (field_of_eq_none h)
  | some v => decidable_of_iff (P v) (field_iff_of_eq_some h).symm

instance : DecidablePred IsConstant
  | .null | .arr _ | .real (.infinite _) => .isFalse id
  | .obj fields => inferInstanceAs (Decidable (Field "repr" IsText (.obj fields)))
  | .bool _ | .int _ | .str _ | .real .nan | .real (.finite _ _ _) => .isTrue trivial

/-- Operands are smaller than the expression, so looking into them ends. -/
def decideIsExpr (j : Json) : Decidable (IsExpr j) :=
  have operand (key : String) : Decidable (Field key IsExpr j) :=
    match h : j.field? key with
    | none => .isTrue (field_of_eq_none h)
    | some v =>
      have := Json.sizeOf_lt_of_field? h
      have := decideIsExpr v
      decidable_of_iff (IsExpr v) (field_iff_of_eq_some h).symm
  have (key : String) : Decidable (∀ v, j.field? key = some v → IsExpr v) := operand key
  decidable_of_iff _ (isExpr_iff j).symm
termination_by sizeOf j

instance : DecidablePred IsExpr := decideIsExpr

instance : DecidablePred IsColumn := fun j => decidable_of_iff _ (isColumn_iff j).symm

instance : DecidablePred IsQuery := fun j => decidable_of_iff _ (isQuery_iff j).symm

instance (keys : List String) : DecidablePred (ListsExprs keys) := fun j =>
  decidable_of_iff _ (listsExprs_iff keys j).symm

instance : DecidablePred IsCircuit := fun j => decidable_of_iff _ (isCircuit_iff j).symm

instance : DecidablePred IsKey := fun j => decidable_of_iff _ (isKey_iff j).symm

end Schema

/-- The kinds of the errors that the command reports. -/
def LoadError.IsReported (e : LoadError) : Prop :=
  e.kind ∈ ["KeyError", "ValueError", "UnicodeEncodeError"]

instance : DecidablePred LoadError.IsReported := fun e =>
  inferInstanceAs (Decidable (e.kind ∈ _))

open Schema

variable {j : Json} {key : String} {P : Json → Prop}

/-! ## Fields -/

theorem Json.yields_entry (hobject : IsObject j) (h : Field key P j) :
    Yields LoadError.IsReported P (j.entry key) := by
  obtain ⟨fields, rfl⟩ := hobject
  cases hv : fields.lookup (.ofString key) with
  | some v =>
    rw [entry, hv]
    exact h v hv
  | none =>
    rw [entry, hv]
    exact List.mem_cons_self

theorem Json.exists_member {default : Json} (hobject : IsObject j) (h : Field key P j)
    (hdefault : P default) : ∃ v, j.member key default = .ok v ∧ P v := by
  obtain ⟨fields, rfl⟩ := hobject
  refine ⟨(fields.lookup (.ofString key)).getD default, rfl, ?_⟩
  cases hv : fields.lookup (.ofString key) with
  | some v => exact h v hv
  | none => exact hdefault

theorem Json.yields_member {default : Json} (hobject : IsObject j) (h : Field key P j)
    (hdefault : P default) : Yields LoadError.IsReported P (j.member key default) := by
  obtain ⟨v, hv, hP⟩ := exists_member hobject h hdefault
  rw [hv]
  exact hP

theorem Json.failsOnly_hexBytes (h : IsText j) : FailsOnly LoadError.IsReported j.hexBytes := by
  obtain ⟨text, rfl⟩ := h
  exact FailsOnly.mapError fun _ => by simp [LoadError.IsReported, LoadError.kind]

/-! ## Expressions -/

theorem Scalar.failsOnly_ofJson_of_isConstant (h : IsConstant j) :
    FailsOnly LoadError.IsReported (ofJson j) := by
  cases j with
  | null => exact h.elim
  | arr items => exact h.elim
  | bool b => exact failsOnly_ok
  | int n => exact failsOnly_ok
  | real x =>
    cases x with
    | infinite negative => exact h.elim
    | nan => exact failsOnly_error (by decide)
    | finite negative mantissa exponent => exact failsOnly_ok
  | str text =>
    intro e he
    have hkind := Scalar.failsOnly_ofJson _ e he
    exact List.mem_cons_of_mem _ (List.mem_cons.2 (.inl (List.mem_singleton.1 hkind)))
  | obj fields =>
    have hrepr := Json.yields_entry ⟨fields, rfl⟩ (show Field "repr" IsText (.obj fields) from h)
    refine Yields.failsOnly (Q := fun _ => True) (hrepr.bind fun text htext => ?_)
    refine ((Json.failsOnly_hexBytes htext).bind fun bytes => ?_).yields
    exact FailsOnly.mapError fun _ => by simp [LoadError.IsReported, LoadError.kind]

namespace Expr

/-- An expression whose quantities are integers. -/
def IsIntegral (e : Expr Json) : Prop := ∃ e' : Expr, e = e'.map .int

theorem yields_readPhase (hobject : IsObject j) (h : Field "phase" IsInt j) :
    Yields LoadError.IsReported IsInt (readPhase j) :=
  Json.yields_member hobject h ⟨0, rfl⟩

theorem yields_readRotation (hobject : IsObject j) (h : Field "rotation" IsInt j) :
    Yields LoadError.IsReported (fun r => ∃ r' : Rotation, r = r'.map .int) (readRotation j) := by
  refine (Json.yields_member hobject h ⟨0, rfl⟩).bind fun offset hoffset => ?_
  obtain ⟨n, rfl⟩ := hoffset
  exact ⟨Rotation.ofInt n, rfl⟩

/-- A leaf is read. -/
theorem yields_readLeaf (op : String) (hj : IsExpr j) :
    Yields LoadError.IsReported (fun l => ∃ l' : Leaf, l = l'.map .int) (readLeaf op j) := by
  obtain ⟨hobject, hop, hvalue, hquantities, -⟩ := hj
  simp only [List.forall_mem_cons] at hquantities
  obtain ⟨hcolumn, hindex, hphase, hrotation, -⟩ := hquantities
  unfold readLeaf
  split
  · refine (Json.yields_entry hobject hvalue).bind fun value hv => ?_
    refine (Scalar.failsOnly_ofJson_of_isConstant hv).yields.bind fun v _ => ?_
    exact ⟨.constant v, rfl⟩
  split
  · refine (Json.yields_entry hobject hindex).bind fun index hi => ?_
    refine (yields_readPhase hobject hphase).bind fun phase hp => ?_
    obtain ⟨⟨i, rfl⟩, p, rfl⟩ := And.intro hi hp
    exact ⟨.challenge i p, rfl⟩
  split
  · refine (Json.yields_entry hobject hindex).bind fun index hi => ?_
    obtain ⟨i, rfl⟩ := hi
    exact ⟨.selector i, rfl⟩
  split
  · next kind hkind =>
    refine (Json.yields_entry hobject hcolumn).bind fun index hi => ?_
    refine (yields_readPhase hobject hphase).bind fun phase hp => ?_
    refine (yields_readRotation hobject hrotation).bind fun rotation hr => ?_
    obtain ⟨⟨i, rfl⟩, ⟨p, rfl⟩, r, rfl⟩ := And.intro hi (And.intro hp hr)
    exact ⟨.query ⟨⟨kind, i, p⟩, r⟩, rfl⟩
  · exact List.mem_cons_of_mem _ List.mem_cons_self

/-- An operation with two operands is read if these are. -/
theorem yields_readPair (node : Expr → Expr → Expr) {node' : Expr Json → Expr Json → Expr Json}
    (hnode : ∀ a b, node' (a.map .int) (b.map .int) = (node a b).map .int) (hobject : IsObject j)
    (hoperands : ∀ key ∈ ["lhs", "rhs"],
      Field key (fun v => Yields LoadError.IsReported IsIntegral (ofJson v)) j) :
    Yields LoadError.IsReported IsIntegral (readPair ofJson node' j) := by
  simp only [List.forall_mem_cons] at hoperands
  obtain ⟨hlhs, hrhs, -⟩ := hoperands
  refine (Json.yields_entry hobject hrhs).bind fun rhs hright => ?_
  refine (Json.yields_entry hobject hlhs).bind fun lhs hleft => ?_
  refine hleft.bind fun x hx => hright.bind fun y hy => ?_
  obtain ⟨⟨a, rfl⟩, b, rfl⟩ := And.intro hx hy
  exact ⟨node a b, hnode a b⟩

/-- What names no operator is read as a leaf. -/
theorem yields_ofJson_of_leaf {name : String} (hj : IsExpr j) (hname : Names j name)
    (hleaf : name ∉ operators) : Yields LoadError.IsReported IsIntegral (ofJson j) := by
  rw [ofJson_eq_read, read_of_names hname hleaf]
  refine (yields_readLeaf name hj).bind fun l hl => ?_
  obtain ⟨l', rfl⟩ := hl
  exact ⟨.leaf l', rfl⟩

/-- A well-typed description is read as an expression of integers, or it fails as reported. -/
theorem yields_ofJson (hj : IsExpr j) : Yields LoadError.IsReported IsIntegral (ofJson j) := by
  have hexpr := hj
  induction hj with
  | @intro j hobject hop _ _ hsmaller ih =>
    have hoperands : ∀ key ∈ ["expr", "lhs", "rhs"],
        Field key (fun v => Yields LoadError.IsReported IsIntegral (ofJson v)) j :=
      fun key hkey v hv => ih key hkey v hv (hsmaller key hkey v hv)
    obtain ⟨op, hmember, hatom⟩ := Json.exists_member (P := fun v => v.isCompound = false) hobject
      (fun v hv => by obtain ⟨text, rfl⟩ := hop v hv; rfl) (rfl : Json.null.isCompound = false)
    by_cases hunknown : ∀ name ∈ operations, op ≠ .str name
    · rw [readsByRecursion_ofJson.unknown hmember hatom hunknown]
      exact List.mem_cons_of_mem _ List.mem_cons_self
    push Not at hunknown
    obtain ⟨name, -, rfl⟩ := hunknown
    by_cases hleaf : name ∉ operators
    · exact yields_ofJson_of_leaf hexpr hmember hleaf
    simp only [operators, not_not, List.mem_cons, List.not_mem_nil, or_false] at hleaf
    rcases hleaf with rfl | rfl | rfl
    · rw [readsByRecursion_ofJson.neg hmember]
      refine (Json.yields_entry hobject (hoperands _ List.mem_cons_self)).bind fun e he => ?_
      refine he.bind fun x hx => ?_
      obtain ⟨x', rfl⟩ := hx
      exact ⟨.neg x', rfl⟩
    · rw [readsByRecursion_ofJson.sum hmember]
      exact yields_readPair .sum (fun _ _ => rfl) hobject fun key hkey =>
        hoperands key (List.mem_cons_of_mem _ hkey)
    · rw [readsByRecursion_ofJson.product hmember]
      exact yields_readPair .product (fun _ _ => rfl) hobject fun key hkey =>
        hoperands key (List.mem_cons_of_mem _ hkey)

end Expr

/-! ## Circuits -/

namespace Circuit

variable {α β : Type} {read : Json → Except LoadError β} {f : α → β}

/-- Results that are each given by some item are given by some items. -/
theorem exists_map_eq {ys : List β} (h : ∀ y ∈ ys, ∃ x, y = f x) :
    ∃ xs : List α, ys = xs.map f := by
  induction ys with
  | nil => exact ⟨[], rfl⟩
  | cons y ys ih =>
    obtain ⟨⟨x, rfl⟩, hys⟩ := List.forall_mem_cons.1 h
    obtain ⟨xs, rfl⟩ := ih hys
    exact ⟨x :: xs, rfl⟩

/-- A list is read if its items are. -/
theorem yields_listed {items : Json} (h : IsArrayOf P items)
    (hread : ∀ item, P item → Yields LoadError.IsReported (fun y => ∃ x, y = f x) (read item)) :
    Yields LoadError.IsReported (fun ys => ∃ xs : List α, ys = xs.map f)
      (do let items ← items.listed; items.mapM read) := by
  obtain ⟨items, rfl, hitems⟩ := h
  exact (Yields.mapM fun item hitem => hread item (hitems item hitem)).imp fun ys => exists_map_eq

theorem isArrayOf_nil : IsArrayOf P (.arr []) := ⟨[], rfl, List.forall_mem_nil P⟩

theorem yields_readList (hobject : IsObject j) (h : Field key (IsArrayOf P) j)
    (hread : ∀ item, P item → Yields LoadError.IsReported (fun y => ∃ x, y = f x) (read item)) :
    Yields LoadError.IsReported (fun ys => ∃ xs : List α, ys = xs.map f) (readList read j key) :=
  (Json.yields_member hobject h isArrayOf_nil).bind fun _ hv => yields_listed hv hread

theorem yields_readNumbered {read : Nat × Json → Except LoadError β} (hobject : IsObject j)
    (h : Field key (IsArrayOf P) j)
    (hread : ∀ i item, P item →
      Yields LoadError.IsReported (fun y => ∃ x, y = f x) (read (i, item))) :
    Yields LoadError.IsReported (fun ys => ∃ xs : List α, ys = xs.map f)
      (readNumbered read j key) := by
  refine (Json.yields_member hobject h isArrayOf_nil).bind fun v hv => ?_
  obtain ⟨items, rfl, hitems⟩ := hv
  refine (Yields.mapM fun item hitem => ?_).imp fun ys => exists_map_eq
  exact hread item.1 item.2 (hitems _ (List.of_mem_zip hitem).2)

theorem yields_readColumn (hj : IsColumn j) :
    Yields LoadError.IsReported (fun c => ∃ c' : Column, c = c'.map .int) (readColumn j) := by
  refine (Json.yields_entry hj.object hj.kind).bind fun name hname => ?_
  obtain ⟨text, rfl⟩ := hname
  cases hkind : ColumnKind.ofJson? (.str text) with
  | none =>
    simp only [Json.isCompound]
    exact List.mem_cons_of_mem _ List.mem_cons_self
  | some kind =>
    simp only [Json.isCompound]
    refine (Json.yields_entry hj.object hj.index).bind fun index hindex => ?_
    refine (Expr.yields_readPhase hj.object hj.phase).bind fun phase hphase => ?_
    obtain ⟨⟨i, rfl⟩, p, rfl⟩ := And.intro hindex hphase
    exact ⟨⟨kind, i, p⟩, rfl⟩

theorem yields_readQuery (hj : IsQuery j) :
    Yields LoadError.IsReported (fun q => ∃ q' : Query, q = q'.map .int) (readQuery j) := by
  refine (Json.yields_entry hj.object hj.column).bind fun v hv => ?_
  refine (yields_readColumn hv).bind fun column hcolumn => ?_
  refine (Expr.yields_readRotation hj.object hj.rotation).bind fun rotation hrotation => ?_
  obtain ⟨⟨c, rfl⟩, r, rfl⟩ := And.intro hcolumn hrotation
  exact ⟨⟨c, r⟩, rfl⟩

theorem yields_readExprs (hobject : IsObject j) (h : Field key (IsArrayOf IsExpr) j) :
    Yields LoadError.IsReported (fun ys => ∃ xs : List Expr, ys = xs.map (.map .int))
      (readExprs j key) :=
  (Json.yields_entry hobject h).bind fun _ hv => yields_listed hv fun _ => Expr.yields_ofJson

theorem failsOnly_readName {what : String} {i : Nat} (hobject : IsObject j) :
    FailsOnly LoadError.IsReported (readName what i j) :=
  (Json.yields_member (P := fun _ => True) hobject (fun _ _ => trivial) trivial).failsOnly

theorem yields_readGate (i : Nat) (hj : ListsExprs ["polys"] j) :
    Yields LoadError.IsReported (fun g => ∃ g' : Gate Expr, g = g'.map (.map .int))
      (readGate (i, j)) := by
  refine (failsOnly_readName hj.object).yields.bind fun name _ => ?_
  refine (yields_readExprs hj.object (hj.exprs _ List.mem_cons_self)).bind fun polys hpolys => ?_
  obtain ⟨es, rfl⟩ := hpolys
  exact ⟨⟨name, es⟩, rfl⟩

theorem yields_readArgument {what targetKey : String} (i : Nat)
    (hj : ListsExprs ["inputExpressions", targetKey] j) :
    Yields LoadError.IsReported (fun a => ∃ a' : Argument Expr, a = a'.map (.map .int))
      (readArgument what targetKey (i, j)) := by
  have hexprs := hj.exprs
  simp only [List.forall_mem_cons] at hexprs
  obtain ⟨hinputs, htargets, -⟩ := hexprs
  refine (failsOnly_readName hj.object).yields.bind fun name _ => ?_
  refine (yields_readExprs hj.object hinputs).bind fun inputs hins => ?_
  refine (yields_readExprs hj.object htargets).bind fun targets houts => ?_
  obtain ⟨⟨is, rfl⟩, ts, rfl⟩ := And.intro hins houts
  exact ⟨⟨name, is, ts⟩, rfl⟩

theorem yields_readDegree (hj : IsCircuit j) :
    Yields LoadError.IsReported (fun d => ∃ d' : Option Int, d = d'.map .int) (readDegree j) := by
  refine (Json.yields_member hj.object hj.degree (.inl rfl)).bind fun v hv => ?_
  rcases hv with rfl | ⟨n, rfl⟩
  · exact ⟨none, rfl⟩
  · exact ⟨some n, rfl⟩

/-- A well-typed description is read as a circuit of integers, or it fails as reported. -/
theorem yields_ofJson (hj : IsCircuit j) :
    Yields LoadError.IsReported (fun c => ∃ c' : Circuit, c = c'.map .int) (ofJson j) := by
  have hdegree := yields_readDegree hj
  obtain ⟨hobject, hcounts, hphases, -, hpermutation, hqueries, hgates, hlookups, hshuffles⟩ := hj
  simp only [List.forall_mem_cons] at hcounts hphases hqueries
  obtain ⟨hfixedCount, hinstCount, -⟩ := hcounts
  obtain ⟨hadvicePhases, hchallengePhases, -⟩ := hphases
  obtain ⟨hadvice, hfixed, hinst, -⟩ := hqueries
  have hphase (item : Json) (h : IsInt item) :
      Yields LoadError.IsReported (fun v => ∃ n, v = Json.int n) (pure item) := h
  refine (Json.yields_member hobject hfixedCount ⟨0, rfl⟩).bind fun _ ⟨fixedCount, h⟩ => ?_
  cases h
  refine (Json.yields_member hobject hinstCount ⟨0, rfl⟩).bind fun _ ⟨instCount, h⟩ => ?_
  cases h
  refine (yields_readList hobject hadvicePhases hphase).bind fun _ ⟨advicePhases, h⟩ => ?_
  cases h
  refine (yields_readList hobject hchallengePhases hphase).bind fun _ ⟨challengePhases, h⟩ => ?_
  cases h
  refine hdegree.bind fun _ ⟨degree, h⟩ => ?_
  cases h
  refine (yields_readList hobject hpermutation fun _ => yields_readColumn).bind
    fun _ ⟨permutation, h⟩ => ?_
  cases h
  refine (yields_readList hobject hadvice fun _ => yields_readQuery).bind fun _ ⟨advice, h⟩ => ?_
  cases h
  refine (yields_readList hobject hfixed fun _ => yields_readQuery).bind fun _ ⟨fixed, h⟩ => ?_
  cases h
  refine (yields_readList hobject hinst fun _ => yields_readQuery).bind fun _ ⟨inst, h⟩ => ?_
  cases h
  refine (yields_readNumbered hobject hgates fun i _ => yields_readGate i).bind
    fun _ ⟨gates, h⟩ => ?_
  cases h
  refine (yields_readNumbered hobject hlookups fun i _ => yields_readArgument i).bind
    fun _ ⟨lookups, h⟩ => ?_
  cases h
  refine (yields_readNumbered hobject hshuffles fun i _ => yields_readArgument i).bind
    fun _ ⟨shuffles, h⟩ => ?_
  cases h
  exact ⟨⟨fixedCount, instCount, advicePhases, challengePhases, advice, fixed, inst, permutation,
    gates, lookups, shuffles, degree⟩, rfl⟩

end Circuit

/-! ## Keys -/

namespace VerifyingKey

theorem failsOnly_readCommitments (hobject : IsObject j) (h : Field key (IsArrayOf IsText) j) :
    FailsOnly LoadError.IsReported (readCommitments j key) := by
  refine Yields.failsOnly (Q := fun _ => True) ?_
  refine (Json.yields_member hobject h Circuit.isArrayOf_nil).bind fun v hv => ?_
  obtain ⟨items, rfl, hitems⟩ := hv
  exact (Yields.mapM fun item hitem => (Json.failsOnly_hexBytes (hitems item hitem)).yields).imp
    fun _ _ => trivial

theorem failsOnly_pinnedText (h : IsText j) : FailsOnly LoadError.IsReported (pinnedText j) := by
  obtain ⟨text, rfl⟩ := h
  rw [pinnedText]
  cases text.toString? with
  | some s => exact failsOnly_ok
  | none => exact failsOnly_error (by simp [LoadError.IsReported, LoadError.kind])

theorem failsOnly_readTranscript (hj : IsKey j) :
    FailsOnly LoadError.IsReported (readTranscript j) := by
  have hfields := hj.fingerprint
  simp only [List.forall_mem_cons] at hfields
  obtain ⟨htranscript, hpinned, -⟩ := hfields
  have hholds (word : String) : FailsOnly LoadError.IsReported (holds word j) := by
    obtain ⟨fields, rfl⟩ := hj.object
    exact failsOnly_ok
  refine (hholds _).bind fun hasTranscript => ?_
  split
  · refine Yields.failsOnly (Q := fun _ => True) ?_
    refine (Json.yields_entry hj.object htranscript).bind fun text htext => ?_
    exact (Json.failsOnly_hexBytes htext).yields
  refine (hholds _).bind fun hasPinned => ?_
  split
  · refine Yields.failsOnly (Q := fun _ => True) ?_
    refine (Json.yields_entry hj.object hpinned).bind fun v hv => ?_
    exact ((failsOnly_pinnedText hv).bind fun _ => failsOnly_pure).yields
  · exact failsOnly_ok

/-- A well-typed description of a key is read, or reading fails as reported. -/
theorem failsOnly_ofJson (hj : IsKey j) : FailsOnly LoadError.IsReported (ofJson j) := by
  have hcommitments := hj.commitments
  simp only [List.forall_mem_cons] at hcommitments
  obtain ⟨hfixed, hpermutation, -⟩ := hcommitments
  exact (failsOnly_readTranscript hj).bind fun _ =>
    (failsOnly_readCommitments hj.object hfixed).bind fun _ =>
      (failsOnly_readCommitments hj.object hpermutation).bind fun _ => failsOnly_pure

end VerifyingKey

end Plonkish
