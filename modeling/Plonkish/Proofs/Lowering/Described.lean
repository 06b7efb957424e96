import Plonkish.Outline
import Plonkish.Proofs.Lowering.Circuit

/-!
# Quantities that are integers

A circuit may have any quantities. If all of them are integers, it is laid out as the circuit of
these integers is, in every type of quantities.

* `VariableSpace.indexOf_ofInt`, `VariableSpace.challengeIndex_ofInt`: looking variables up.
* `Lowering.circuit_ofInt`: lowering.
* `Outline.ofCircuit_ofInt`: laying out.
-/

namespace Plonkish

variable {ν : Type} [Quantity ν]

/-! ## Quantities and queries -/

theorem Quantity.ofInt_injective : Function.Injective (ofInt : Int → ν) := by
  intro m n h
  have hjson := congrArg toJson h
  rw [toJson_ofInt, toJson_ofInt] at hjson
  exact Json.int.inj hjson

namespace Query

variable {q : Query} {queries : List Query}

theorem map_ofInt_injective :
    Function.Injective (map Quantity.ofInt : Query → Query ν) := by
  rintro ⟨⟨kind, index, phase⟩, magnitude, forward⟩
    ⟨⟨kind', index', phase'⟩, magnitude', forward'⟩ h
  simp only [map, Column.map, Rotation.map, Query.mk.injEq, Column.mk.injEq, Rotation.mk.injEq,
    Quantity.ofInt_injective.eq_iff] at h ⊢
  exact h

theorem canonical_ofInt (q : Query) :
    (q.map Quantity.ofInt : Query ν).canonical = q.map Quantity.ofInt := by
  simp only [canonical, map, Column.map, Rotation.map, Quantity.canonical_ofInt]

theorem isAtom_ofInt (q : Query) : (q.map Quantity.ofInt : Query ν).isAtom = true := by
  simp [isAtom, Column.isAtom, map, Column.map, Rotation.map, Quantity.isAtom,
    Quantity.toJson_ofInt, Json.isCompound]

/-- A query is found where it is found among integers. -/
theorem position?_ofInt [DecidableEq ν] (q : Query) (queries : List Query) :
    (q.map Quantity.ofInt : Query ν).position? (queries.map (map Quantity.ofInt)) =
      q.position? queries := by
  have hcanonical : (queries.map (map Quantity.ofInt)).map canonical =
      queries.map (map (Quantity.ofInt : Int → ν)) := by
    rw [List.map_map]
    exact List.map_congr_left fun q _ => canonical_ofInt q
  have hbeq (q' : Query) :
      (q'.map (Quantity.ofInt : Int → ν) == q.map Quantity.ofInt) = (q' == q) := by
    simp only [beq_eq_decide, map_ofInt_injective.eq_iff]
  rw [position?, hcanonical, canonical_ofInt, position?_int, List.idxOf?, List.idxOf?,
    List.findIdx?_map]
  exact congrArg (fun p => List.findIdx? p queries) (funext hbeq)

theorem map_toJson_ofInt (q : Query) :
    (q.map Quantity.ofInt : Query ν).map Quantity.toJson = q.map Quantity.toJson := by
  simp only [map, Column.map, Rotation.map, Quantity.toJson_ofInt]
  rfl

end Query

/-! ## The space of variables -/

namespace VariableSpace

/-- The space with its quantities changed. -/
def map {μ ν : Type} (f : μ → ν) (V : VariableSpace μ) : VariableSpace ν :=
  ⟨V.advice.map (·.map f), V.fixed.map (·.map f), V.inst.map (·.map f), V.challenges⟩

variable (V : VariableSpace)

theorem queries_map {μ : Type} (f : Int → μ) (cls : VariableClass) :
    (V.map f).queries cls = (V.queries cls).map (·.map f) := by
  cases cls <;> rfl

theorem check_ofInt : (V.map Quantity.ofInt : VariableSpace ν).check = .ok () := by
  have hatom : (fun q : Query => (q.map (Quantity.ofInt : Int → ν)).isAtom) = fun _ => true :=
    funext Query.isAtom_ofInt
  simp [check, map, List.all_map, Function.comp_def, hatom]

theorem indexOf_ofInt [DecidableEq ν] (cls : VariableClass) (column : Column)
    (rotation : Rotation) :
    (V.map Quantity.ofInt : VariableSpace ν).indexOf cls (column.map Quantity.ofInt)
        (rotation.map Quantity.ofInt) =
      V.indexOf cls column rotation := by
  have hquery : (⟨column.map Quantity.ofInt, rotation.map Quantity.ofInt⟩ : Query ν) =
      Query.map Quantity.ofInt ⟨column, rotation⟩ := rfl
  unfold indexOf
  simp only [hquery, queries_map, Query.map_toJson_ofInt, Query.isAtom_ofInt, Query.position?_ofInt,
    Query.isAtom_int]
  rfl

theorem challengeIndex_ofInt (i : Int) :
    (V.map Quantity.ofInt : VariableSpace ν).challengeIndex (Quantity.ofInt i) =
      (V.challengeIndex i).map Quantity.ofInt := by
  have hbelow : Quantity.below? ((V.map (Quantity.ofInt : Int → ν)).size .challenge)
      (Quantity.ofInt i : ν) = Quantity.below? (V.size .challenge) i := by
    rw [Quantity.below?, Quantity.toJson_ofInt]
    rfl
  rw [challengeIndex, challengeIndex, hbelow, Quantity.toJson_ofInt, Quantity.toJson_int]
  cases Quantity.below? (V.size .challenge) i with
  | none => rfl
  | some below => cases below <;> rfl

end VariableSpace

/-! ## Lowering -/

namespace Lowering

theorem map_ofExcept {α β : Type} (f : α → β) (x : Except SchemaError α) :
    f <$> ofExcept x = ofExcept (x.map f) := by
  cases x <;> rfl

variable [DecidableEq ν] (V : VariableSpace)

theorem leaf_ofInt (l : Leaf) :
    leaf (V.map Quantity.ofInt : VariableSpace ν) (l.map Quantity.ofInt) =
      Ir.map Quantity.ofInt <$> leaf V l := by
  cases l with
  | constant v => simp [leaf, Leaf.map, Ir.map]
  | query q =>
    have hcolumn : (q.map (Quantity.ofInt : Int → ν)).column = q.column.map Quantity.ofInt := rfl
    have hrotation : (q.map (Quantity.ofInt : Int → ν)).rotation =
        q.rotation.map Quantity.ofInt := rfl
    have hkind : (q.column.map (Quantity.ofInt : Int → ν)).kind = q.column.kind := rfl
    simp only [leaf, Leaf.map, hcolumn, hrotation, hkind, VariableSpace.indexOf_ofInt]
    simp [Ir.map]
  | challenge i phase =>
    simp only [leaf, Leaf.map, VariableSpace.challengeIndex_ofInt, ← map_ofExcept]
    simp [Ir.map]
  | selector i =>
    simp only [leaf, Leaf.map, Quantity.toJson_ofInt]
    rfl

theorem map_product {μ μ' : Type} (f : μ → μ') (a b : Ir μ) :
    (product a b).map f = product (a.map f) (b.map f) := by
  cases a <;> cases b <;> rfl

theorem expr_ofInt (e : Expr) :
    expr (V.map Quantity.ofInt : VariableSpace ν) (e.map Quantity.ofInt) =
      Ir.map Quantity.ofInt <$> expr V e := by
  induction e with
  | leaf l => rw [Expr.map, expr_leaf, expr_leaf, leaf_ofInt]
  | neg e ih =>
    rw [Expr.map, expr_neg, expr_neg, ih]
    simp [Ir.map]
  | sum a b iha ihb =>
    rw [Expr.map, expr_sum, expr_sum, iha, ihb]
    simp [Ir.map]
  | product a b iha ihb =>
    rw [Expr.map, expr_product, expr_product, iha, ihb]
    simp [map_product]

/-- A traversal of changed items that changes the results is the traversal with changed results. -/
theorem mapM_map_eq {α β γ δ : Type} {f : α → Lowering β} {f' : γ → Lowering δ} {g : α → γ}
    {h : β → δ} (hf : ∀ x, f' (g x) = h <$> f x) (xs : List α) :
    (xs.map g).mapM f' = List.map h <$> xs.mapM f := by
  induction xs with
  | nil => simp
  | cons x xs ih =>
    rw [List.map_cons, List.mapM_cons, List.mapM_cons, hf, ih]
    simp

theorem exprs_ofInt (es : List Expr) :
    exprs (V.map Quantity.ofInt : VariableSpace ν) (es.map (.map Quantity.ofInt)) =
      List.map (.map Quantity.ofInt) <$> exprs V es :=
  mapM_map_eq (expr_ofInt V) es

theorem gate_ofInt (g : Gate Expr) :
    gate (V.map Quantity.ofInt : VariableSpace ν) (g.map (.map Quantity.ofInt)) =
      Gate.map (.map Quantity.ofInt) <$> gate V g := by
  simp [gate, Gate.map, exprs_ofInt]

theorem argument_ofInt (a : Argument Expr) :
    argument (V.map Quantity.ofInt : VariableSpace ν) (a.map (.map Quantity.ofInt)) =
      Argument.map (.map Quantity.ofInt) <$> argument V a := by
  simp [argument, Argument.map, exprs_ofInt]

/-- The lowered parts with their quantities changed. -/
def Parts.map {μ μ' : Type} (f : μ → μ') (parts : Parts μ) : Parts μ' :=
  ⟨parts.gates.map (.map (.map f)), parts.lookups.map (.map (.map f)),
    parts.shuffles.map (.map (.map f))⟩

end Lowering

/-! ## Circuits -/

namespace Circuit

/-- The circuit with its quantities changed. -/
def map {μ μ' : Type} (f : μ → μ') (c : Circuit μ) : Circuit μ' where
  fixedCount := f c.fixedCount
  instCount := f c.instCount
  advicePhases := c.advicePhases.map f
  challengePhases := c.challengePhases.map f
  adviceQueries := c.adviceQueries.map (.map f)
  fixedQueries := c.fixedQueries.map (.map f)
  instQueries := c.instQueries.map (.map f)
  permutation := c.permutation.map (.map f)
  gates := c.gates.map (.map (.map f))
  lookups := c.lookups.map (.map (.map f))
  shuffles := c.shuffles.map (.map (.map f))
  declaredDegree := c.declaredDegree.map f

variable (c : Circuit)

theorem ofCircuit_map {μ : Type} (f : Int → μ) :
    VariableSpace.ofCircuit (c.map f) = (VariableSpace.ofCircuit c).map f := by
  simp [VariableSpace.ofCircuit, VariableSpace.map, map]

/-! ### Degrees -/

theorem degree_map {μ μ' : Type} (f : μ → μ') (e : Expr μ) : (e.map f).degree = e.degree := by
  induction e with
  | leaf l => cases l <;> simp [Expr.map, Leaf.map, Leaf.degree]
  | neg e ih => simp [Expr.map, ih]
  | sum a b iha ihb => simp [Expr.map, iha, ihb]
  | product a b iha ihb => simp [Expr.map, iha, ihb]

theorem computedDegree_ofInt : (c.map Quantity.ofInt : Circuit ν).computedDegree =
    c.computedDegree := by
  have hdegrees (es : List Expr) :
      (es.map (Expr.map (Quantity.ofInt : Int → ν))).map Expr.degree = es.map Expr.degree := by
    rw [List.map_map]
    exact List.map_congr_left fun e _ => degree_map _ e
  simp only [computedDegree, map, List.map_map, Function.comp_def, gateDegree, lookupDegree,
    shuffleDegree, maxDegree, Gate.map, Argument.map, hdegrees]
  rfl

theorem degree_ofInt : (c.map Quantity.ofInt : Circuit ν).degree = Quantity.ofInt c.degree := by
  rw [degree, degree, computedDegree_ofInt]
  cases h : c.declaredDegree <;> simp [map, h]

theorem maxQueries_ofInt [DecidableEq ν] :
    (c.map Quantity.ofInt : Circuit ν).maxQueries = c.maxQueries := by
  have hcount (index : Int) :
      (c.map Quantity.ofInt : Circuit ν).adviceQueryCount (Quantity.ofInt index) =
        c.adviceQueryCount index := by
    simp only [adviceQueryCount, map, List.countP_map, Function.comp_def, Query.map, Column.map,
      Quantity.canonical_ofInt, Quantity.ofInt_injective.eq_iff, Quantity.canonical_int]
  simp only [maxQueries, map, List.map_map, Function.comp_def, Query.map, Column.map] at hcount ⊢
  simp only [hcount]

end Circuit

namespace Lowering

theorem circuit_ofInt [DecidableEq ν] (c : Circuit) :
    circuit (c.map Quantity.ofInt : Circuit ν) = Parts.map Quantity.ofInt <$> circuit c := by
  have hgates := mapM_map_eq (gate_ofInt (ν := ν) (.ofCircuit c)) c.gates
  have harguments := mapM_map_eq (argument_ofInt (ν := ν) (.ofCircuit c))
  simp only [circuit, Circuit.ofCircuit_map, VariableSpace.check_ofInt, VariableSpace.check_int]
  simp [Circuit.map, hgates, harguments, Parts.map]

end Lowering

/-! ## Outlines -/

namespace Outline

variable (k : Int) (c : Circuit) (key : VerifyingKey)

theorem checkByte_ofInt (what : Text) (value : Int) :
    checkByte what (Quantity.ofInt value : ν) = checkByte what value := by
  unfold checkByte
  simp only [Quantity.within?, Quantity.toJson_ofInt, Quantity.toJson_int]

theorem checkBytes_ofInt (what : Text) (values : List Int) :
    (values.map (Quantity.ofInt : Int → ν)).forM (checkByte what) =
      values.forM (checkByte what) := by
  induction values with
  | nil => rfl
  | cons value values ih =>
    simp only [List.map_cons, List.forM_eq_forM, List.forM_cons, checkByte_ofInt] at ih ⊢
    rw [ih]

variable [DecidableEq ν]

theorem ofParts_ofInt (parts : Lowering.Parts) (t : ConstantTable) :
    ofParts k (c.map Quantity.ofInt : Circuit ν) key (parts.map Quantity.ofInt) t =
      (ofParts k c key parts t).map Quantity.ofInt := by
  simp only [ofParts, Circuit.degree_ofInt, Circuit.maxQueries_ofInt, map, Quantity.ofInt_int]
  rfl

/-- A circuit whose quantities are integers is laid out as the circuit of these integers is. -/
theorem ofCircuit_ofInt :
    ofCircuit k (c.map Quantity.ofInt : Circuit ν) key =
      (ofCircuit k c key).map (map Quantity.ofInt) := by
  have hphases : ((c.map (Quantity.ofInt : Int → ν)).advicePhases ++
      (c.map (Quantity.ofInt : Int → ν)).challengePhases).forM (checkByte "phase") =
        (c.advicePhases ++ c.challengePhases).forM (checkByte "phase") := by
    rw [← checkBytes_ofInt (ν := ν), List.map_append]
    rfl
  have hrun : (Lowering.circuit (c.map (Quantity.ofInt : Int → ν))).run {} =
      (((Lowering.circuit c).run {}).1.map (.map Quantity.ofInt),
        ((Lowering.circuit c).run {}).2) := by
    rw [Lowering.circuit_ofInt]
    exact Lowering.runAt_map _ _ _
  unfold ofCircuit
  rw [hphases, hrun]
  cases checkByte "k" k with
  | error e => rfl
  | ok _ =>
    cases (c.advicePhases ++ c.challengePhases).forM (checkByte "phase") with
    | error e => rfl
    | ok _ =>
      simp only [bind, Except.bind]
      split
      · rfl
      · generalize (Lowering.circuit c).run {} = outcome
        obtain ⟨result, t⟩ := outcome
        cases result with
        | error e => rfl
        | ok parts => exact congrArg Except.ok (ofParts_ofInt k c key parts t)

end Outline

end Plonkish
