import Plonkish.Proofs.Ir
import Plonkish.Proofs.Lowering.Meaning

/-!
# The structure of lowered expressions

A lowered expression has the form of the raw one, apart from products with a literal operand. Those
become scaled expressions, and which operand is the literal is read off the raw expression.

* `Lowering.Lowers`: lowering by rules, one for each form of an expression.
* `Lowering.runAt_expr_eq_ok_iff`: an expression is lowered as the rules say.
* `Lowering.lowered_by_structure`: and in the result scaled expressions stand for products with a
  literal operand, and no product has a constant operand.
-/

namespace Plonkish.Lowering

variable {ν : Type}

theorem product_const_right {x : Ir ν} {i : Int} (hx : x.isConst = false) :
    product x (.const i) = .scaled x i := by
  cases x with
  | const j => cases hx
  | _ => rfl

theorem product_of_not_isConst {x y : Ir ν} (hx : x.isConst = false) (hy : y.isConst = false) :
    product x y = .product x y := by
  cases x with
  | const i => cases hx
  | _ =>
    cases y with
    | const j => cases hy
    | _ => rfl

variable [Quantity ν] [DecidableEq ν]

/-- Lowering by rules. The table is threaded from left to right: `Lowers V t e ir t'` leads from the
table `t` to the table `t'`. -/
inductive Lowers (V : VariableSpace ν) :
    ConstantTable → Expr ν → Ir ν → ConstantTable → Prop
  /-- A literal is named by the position that the table gives it. -/
  | constant {t t' v} {i : Nat} :
    t.intern v = (.ok i, t') → Lowers V t (.leaf (.constant v)) (.const i) t'
  /-- A query is a variable of the class of its column, at its first position there. -/
  | query {t q i} :
    V.indexOf (.ofKind q.column.kind) q.column q.rotation = .ok i →
      Lowers V t (.leaf (.query q)) (.var (.ofKind q.column.kind) (Quantity.ofInt i)) t
  /-- A challenge is the variable that its index names. -/
  | challenge {t index phase i} :
    V.challengeIndex index = .ok i →
      Lowers V t (.leaf (.challenge index phase)) (.var .challenge i) t
  | neg {t t' e x} : Lowers V t e x t' → Lowers V t (.neg e) (.neg x) t'
  | sum {t t₁ t' a b x y} :
    Lowers V t a x t₁ → Lowers V t₁ b y t' → Lowers V t (.sum a b) (.sum x y) t'
  /-- A literal on the left scales the right operand, whatever that is. -/
  | scaledLeft {t t₁ t' v b y} {i : Nat} :
    t.intern v = (.ok i, t₁) → Lowers V t₁ b y t' →
      Lowers V t (.product (.leaf (.constant v)) b) (.scaled y i) t'
  /-- A literal on the right scales a left operand that is no literal. -/
  | scaledRight {t t₁ t' v a x} {i : Nat} :
    a.isConstant = false → Lowers V t a x t₁ → t₁.intern v = (.ok i, t') →
      Lowers V t (.product a (.leaf (.constant v))) (.scaled x i) t'
  /-- A product without a literal operand stays a product. -/
  | product {t t₁ t' a b x y} :
    a.isConstant = false → b.isConstant = false → Lowers V t a x t₁ → Lowers V t₁ b y t' →
      Lowers V t (.product a b) (.product x y) t'

variable {V : VariableSpace ν} {t t' t'' : ConstantTable} {e : Expr ν} {ir : Ir ν}

/-- Only a literal is lowered to a constant. -/
theorem Lowers.isConst_eq (h : Lowers V t e ir t') : ir.isConst = e.isConstant := by
  cases h <;> rfl

/-! ## Runs and rules -/

theorem lowers_leaf {l : Leaf ν} (h : (leaf V l).runAt t = (.ok ir, t')) :
    Lowers V t (.leaf l) ir t' := by
  cases l with
  | constant v =>
    obtain ⟨i, hi, rfl⟩ := runAt_map_eq_ok_iff.1 h
    exact .constant hi
  | query q =>
    obtain ⟨i, hi, rfl⟩ := runAt_map_eq_ok_iff.1 h
    obtain rfl : t = t' := (Prod.mk.inj hi).2
    exact .query (Prod.mk.inj hi).1
  | challenge index phase =>
    obtain ⟨i, hi, rfl⟩ := runAt_map_eq_ok_iff.1 h
    obtain rfl : t = t' := (Prod.mk.inj hi).2
    exact .challenge (Prod.mk.inj hi).1
  | selector index => cases h

/-- Which rule a product follows is decided by the results for its operands: they are constants
exactly if the operands are literals. -/
theorem lowers_product {a b : Expr ν} {x y : Ir ν} {t₁ : ConstantTable}
    (ha : Lowers V t a x t₁) (hb : Lowers V t₁ b y t') :
    Lowers V t (.product a b) (product x y) t' := by
  cases hleft : a.isConstant with
  | true =>
    cases ha with
    | constant hi => exact .scaledLeft hi hb
    | _ => cases hleft
  | false =>
    have hx : x.isConst = false := ha.isConst_eq.trans hleft
    cases hright : b.isConstant with
    | true =>
      cases hb with
      | constant hi =>
        rw [product_const_right hx]
        exact .scaledRight hleft ha hi
      | _ => cases hright
    | false =>
      rw [product_of_not_isConst hx (hb.isConst_eq.trans hright)]
      exact .product hleft hright ha hb

theorem lowers_of_runAt (h : (expr V e).runAt t = (.ok ir, t')) : Lowers V t e ir t' := by
  induction e generalizing t t' ir with
  | leaf l =>
    rw [expr_leaf] at h
    exact lowers_leaf h
  | neg e ih =>
    rw [expr_neg] at h
    obtain ⟨x, hx, rfl⟩ := runAt_map_eq_ok_iff.1 h
    exact .neg (ih hx)
  | sum a b iha ihb =>
    rw [expr_sum] at h
    obtain ⟨x, y, t₁, hx, hy, rfl⟩ := runAt_pair_eq_ok_iff.1 h
    exact .sum (iha hx) (ihb hy)
  | product a b iha ihb =>
    rw [expr_product] at h
    obtain ⟨x, y, t₁, hx, hy, rfl⟩ := runAt_pair_eq_ok_iff.1 h
    exact lowers_product (iha hx) (ihb hy)

theorem runAt_of_lowers (h : Lowers V t e ir t') : (expr V e).runAt t = (.ok ir, t') := by
  induction h with
  | constant hi =>
    rw [expr_leaf]
    exact runAt_map_eq_ok_iff.2 ⟨_, hi, rfl⟩
  | query hi =>
    rw [expr_leaf]
    exact runAt_map_eq_ok_iff.2 ⟨_, Prod.ext hi rfl, rfl⟩
  | challenge hi =>
    rw [expr_leaf]
    exact runAt_map_eq_ok_iff.2 ⟨_, Prod.ext hi rfl, rfl⟩
  | neg _ ih =>
    rw [expr_neg]
    exact runAt_map_eq_ok_iff.2 ⟨_, ih, rfl⟩
  | sum _ _ iha ihb =>
    rw [expr_sum]
    exact runAt_pair_eq_ok_iff.2 ⟨_, _, _, iha, ihb, rfl⟩
  | @scaledLeft t t₁ t' v b y i hi _ ih =>
    have hconstant : (expr V (.leaf (.constant v))).runAt t = (.ok (.const i), t₁) := by
      rw [expr_leaf]
      exact runAt_map_eq_ok_iff.2 ⟨_, hi, rfl⟩
    rw [expr_product]
    exact runAt_pair_eq_ok_iff.2 ⟨_, _, _, hconstant, ih, rfl⟩
  | @scaledRight t t₁ t' v a x i hleft ha hi ih =>
    have hconstant : (expr V (.leaf (.constant v))).runAt t₁ = (.ok (.const i), t') := by
      rw [expr_leaf]
      exact runAt_map_eq_ok_iff.2 ⟨_, hi, rfl⟩
    have hx : x.isConst = false := ha.isConst_eq.trans hleft
    rw [expr_product]
    exact runAt_pair_eq_ok_iff.2 ⟨_, _, _, ih, hconstant, product_const_right hx⟩
  | @product t t₁ t' a b x y hleft hright ha hb iha ihb =>
    have hx : x.isConst = false := ha.isConst_eq.trans hleft
    have hy : y.isConst = false := hb.isConst_eq.trans hright
    rw [expr_product]
    exact runAt_pair_eq_ok_iff.2 ⟨_, _, _, iha, ihb, product_of_not_isConst hx hy⟩

/-- An expression is lowered as the rules say. -/
theorem runAt_expr_eq_ok_iff : (expr V e).runAt t = (.ok ir, t') ↔ Lowers V t e ir t' :=
  ⟨lowers_of_runAt, runAt_of_lowers⟩

theorem Lowers.reaches (h : Lowers V t e ir t') : t.Reaches t' :=
  (expr_stable V e).grows.reaches (runAt_of_lowers h)

/-- What was lowered is lowered to the same at every later table, and leaves it as it is. -/
theorem Lowers.again (h : Lowers V t e ir t') (hlater : t'.Reaches t'') : Lowers V t'' e ir t'' :=
  lowers_of_runAt ((expr_stable V e).again (runAt_of_lowers h) hlater)

/-! ## Products and scaled expressions -/

/-- No product in a result has a constant operand. -/
theorem Lowers.operands_of_product (h : Lowers V t e ir t') {x y : Ir ν}
    (hmem : .product x y ∈ ir.subtrees) : x.isConst = false ∧ y.isConst = false := by
  induction h with
  | constant | query | challenge => simp [Ir.subtrees] at hmem
  | neg _ ih | scaledLeft _ _ ih | scaledRight _ _ _ ih =>
    rcases List.mem_cons.1 hmem with heq | hmem
    · cases heq
    · exact ih hmem
  | sum _ _ iha ihb =>
    rcases List.mem_cons.1 hmem with heq | hmem
    · cases heq
    · exact (List.mem_append.1 hmem).elim iha ihb
  | product hleft hright ha hb iha ihb =>
    rcases List.mem_cons.1 hmem with heq | hmem
    · cases heq
      exact ⟨ha.isConst_eq.trans hleft, hb.isConst_eq.trans hright⟩
    · exact (List.mem_append.1 hmem).elim iha ihb

/-- The scaled expressions of a result are, in the same order, what the products with a literal
operand are lowered to, at every later table. -/
theorem Lowers.forall₂_scalings (h : Lowers V t e ir t') (hlater : t'.Reaches t'') :
    List.Forall₂ (fun p s => Lowers V t'' p s t'') e.scalings ir.scalings := by
  induction h with
  | constant | query | challenge => exact .nil
  | neg _ ih => exact ih hlater
  | sum _ hb iha ihb =>
    rw [Expr.scalings_sum, Ir.scalings_sum]
    exact List.rel_append (iha (hb.reaches.trans hlater)) (ihb hlater)
  | scaledLeft hi hb ih =>
    rw [Expr.scalings_product, Ir.scalings_scaled]
    exact .cons ((Lowers.scaledLeft hi hb).again hlater) (ih hlater)
  | @scaledRight t t₁ t' v a x i hleft ha hi ih =>
    have hmore : t₁.Reaches t'' := (Lowers.constant (V := V) hi).reaches.trans hlater
    rw [Expr.scalings_product, Ir.scalings_scaled, Expr.scalings_leaf, List.append_nil]
    simp only [Expr.isConstant, Bool.or_true, if_true]
    exact .cons ((Lowers.scaledRight hleft ha hi).again hlater) (ih hmore)
  | product hleft hright _ hb iha ihb =>
    rw [Expr.scalings_product, Ir.scalings_product, hleft, hright]
    exact List.rel_append (iha (hb.reaches.trans hlater)) (ihb hlater)

/-- An expression is lowered by its structure: as the rules say, and in no other way. No product in
the result has a constant operand, and the scaled expressions in it are, one by one and in the same
order, what the products with a literal operand are lowered to. -/
theorem lowered_by_structure (V : VariableSpace ν) (t t' : ConstantTable) (e : Expr ν) (ir : Ir ν) :
    ((expr V e).runAt t = (.ok ir, t') ↔ Lowers V t e ir t') ∧
      ((expr V e).runAt t = (.ok ir, t') →
        (∀ x y, .product x y ∈ ir.subtrees → x.isConst = false ∧ y.isConst = false) ∧
          List.Forall₂ (fun p s => (expr V p).runAt t' = (.ok s, t')) e.scalings ir.scalings) := by
  refine ⟨runAt_expr_eq_ok_iff, fun h => ⟨?_, ?_⟩⟩
  · exact fun x y => (lowers_of_runAt h).operands_of_product
  · exact ((lowers_of_runAt h).forall₂_scalings (.refl t')).imp fun _ _ => runAt_of_lowers

/-- Two literals are multiplied on the left, and a query by one of them on the right. -/
def nested : Expr :=
  .product (.product (.constant 3) (.constant 5)) (.product (.query default) (.constant 3))

theorem runAt_expr_nested :
    (expr oneQuery nested).runAt {} =
      (.ok (.product (.scaled (.const 1) 0) (.scaled (.var .advice 0) 0)),
        ⟨[3, 5].map Scalar.toBytes, false⟩) := by
  rw [expr_eq_fold]
  rfl

theorem lowered_by_structure_nested :
    Lowers oneQuery {} nested (.product (.scaled (.const 1) 0) (.scaled (.var .advice 0) 0))
        ⟨[3, 5].map Scalar.toBytes, false⟩ ∧
      (∀ x y : Ir, .product x y ∈ [Ir.product (.scaled (.const 1) 0) (.scaled (.var .advice 0) 0),
          .scaled (.const 1) 0, .const 1, .scaled (.var .advice 0) 0, .var .advice 0] →
        x.isConst = false ∧ y.isConst = false) ∧
      List.Forall₂
        (fun p s => (expr oneQuery p).runAt ⟨[3, 5].map Scalar.toBytes, false⟩ =
          (.ok s, ⟨[3, 5].map Scalar.toBytes, false⟩))
        [.product (.constant 3) (.constant 5), .product (.query default) (.constant 3)]
        [.scaled (.const 1) 0, .scaled (.var .advice 0) 0] := by
  obtain ⟨hrules, hparts⟩ := lowered_by_structure oneQuery {} _ nested _
  exact ⟨hrules.1 runAt_expr_nested, hparts runAt_expr_nested⟩

end Plonkish.Lowering
