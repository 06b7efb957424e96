import Plonkish.Proofs.Lowering.Constants
import Plonkish.Proofs.Lowering.Structure

/-!
# Lowered expressions with their constants inline

The positions of constants depend on what the table had before, and so on everything that was
lowered earlier. With the constants themselves in place of their positions, a lowered expression
depends on the raw one alone.

* `Ir.inline?`: a laid-out expression with the entries of a table in place of their positions.
* `Inlined.expr`: lowering without a table.
* `Lowering.expr_follows`: lowering with a table that takes new constants agrees with it.
* `Lowering.lowered_alike`: what was lowered earlier makes no difference, nor does the side on which
  a product has its literal.
-/

namespace Plonkish

variable {ν : Type}

/-- A laid-out expression with constants in place of their positions. -/
inductive Inlined (ν : Type := Int)
  | const (bytes : Bytes)
  | var (cls : VariableClass) (index : ν)
  | neg (e : Inlined ν)
  | sum (lhs rhs : Inlined ν)
  | product (lhs rhs : Inlined ν)
  | scaled (e : Inlined ν) (bytes : Bytes)
  deriving DecidableEq

/-- The expression with its constants read, if all positions of constants in it have one. -/
def Ir.inline? (constant : Int → Option Bytes) : Ir ν → Option (Inlined ν)
  | .const i => (constant i).map .const
  | .var cls i => some (.var cls i)
  | .neg e => do
    let x ← e.inline? constant
    return .neg x
  | .sum a b => do
    let x ← a.inline? constant
    let y ← b.inline? constant
    return .sum x y
  | .product a b => do
    let x ← a.inline? constant
    let y ← b.inline? constant
    return .product x y
  | .scaled e i => do
    let x ← e.inline? constant
    let c ← constant i
    return .scaled x c

namespace Inlined

open Outcome

/-- Whether an expression is a constant. -/
def isConst : Inlined ν → Bool
  | .const _ => true
  | _ => false

/-- The product of two expressions: scaled if one is a constant. -/
def mul : Inlined ν → Inlined ν → Inlined ν
  | .const c, b => .scaled b c
  | a, .const c => .scaled a c
  | a, b => .product a b

section Product

variable {x y : Inlined ν}

theorem mul_const_right {c : Bytes} (hx : x.isConst = false) : x.mul (.const c) = .scaled x c := by
  cases x with
  | const c => cases hx
  | _ => rfl

theorem mul_of_not_isConst (hx : x.isConst = false) (hy : y.isConst = false) :
    x.mul y = .product x y := by
  cases x with
  | const c => cases hx
  | _ =>
    cases y with
    | const c => cases hy
    | _ => rfl

theorem isConst_mul (x y : Inlined ν) : (x.mul y).isConst = false := by
  unfold mul
  split <;> rfl

end Product

/-! ## Lowering without a table -/

variable [Quantity ν] [DecidableEq ν]

/-- Lowers a leaf, literals in place. -/
def leaf (V : VariableSpace ν) : Leaf ν → Except SchemaError (Inlined ν)
  | .constant v => .ok (.const v.toBytes)
  | .query q => do
    let cls := VariableClass.ofKind q.column.kind
    let i ← V.indexOf cls q.column q.rotation
    return .var cls (Quantity.ofInt i)
  | .challenge index _ => do
    let i ← V.challengeIndex index
    return .var .challenge i
  | .selector index => .error (.selector (Quantity.toJson index))

/-- Lowers an expression, literals in place. -/
def expr (V : VariableSpace ν) : Expr ν → Except SchemaError (Inlined ν) :=
  Algebra.fold { leaf := leaf V, neg := .neg, sum := .sum, product := mul }

variable {V : VariableSpace ν} {e : Expr ν} {x : Inlined ν}

/-- Only a literal is lowered to a constant. -/
theorem isConst_of_expr (h : expr V e = .ok x) : x.isConst = e.isConstant := by
  cases e with
  | leaf l =>
    cases l with
    | constant v =>
      cases h
      rfl
    | query q =>
      obtain ⟨i, -, hx⟩ := bind_eq_ok_iff.1 h
      cases hx
      rfl
    | challenge index phase =>
      obtain ⟨i, -, hx⟩ := bind_eq_ok_iff.1 h
      cases hx
      rfl
    | selector index => cases h
  | neg e =>
    obtain ⟨y, -, hx⟩ := bind_eq_ok_iff.1 h
    cases hx
    rfl
  | sum a b =>
    obtain ⟨y, -, h⟩ := bind_eq_ok_iff.1 h
    obtain ⟨z, -, hx⟩ := bind_eq_ok_iff.1 h
    cases hx
    rfl
  | product a b =>
    obtain ⟨y, -, h⟩ := bind_eq_ok_iff.1 h
    obtain ⟨z, -, hx⟩ := bind_eq_ok_iff.1 h
    cases hx
    exact isConst_mul y z

/-- Without a table, it makes no difference on which side a literal stands. -/
theorem expr_product_constant (c : Scalar) (he : e.isConstant = false) :
    expr V (.product (.constant c) e) = expr V (.product e (.constant c)) := by
  show (do let y ← expr V e; return mul (.const c.toBytes) y) =
    (do let x ← expr V e; return mul x (.const c.toBytes))
  cases h : expr V e with
  | error err => rfl
  | ok x => exact congrArg Except.ok (mul_const_right ((isConst_of_expr h).trans he)).symm

end Inlined

namespace Lowering

open ConstantTable

/-! ## Lowering with a table -/

section Follows

/-- What an outcome says up to positions: its error, or the expression with its constants inline.
They are read through the table that was left, or any later one. -/
inductive Denotes :
    Except SchemaError (Ir ν) × ConstantTable → Except SchemaError (Inlined ν) → Prop
  | ok {ir t x} :
    (∀ t', t.Reaches t' → ir.inline? t'.entryAt? = some x) → Denotes (.ok ir, t) (.ok x)
  | error {e t} : Denotes (.error e, t) (.error e)

/-- At every table that takes new constants, a computation gives the same up to positions, and the
table that it leaves takes new constants again. -/
def Follows (m : Lowering (Ir ν)) (r : Except SchemaError (Inlined ν)) : Prop :=
  ∀ t : ConstantTable, t.frozen = false → (m.runAt t).2.frozen = false ∧ Denotes (m.runAt t) r

variable {m n : Lowering (Ir ν)} {r s : Except SchemaError (Inlined ν)}

theorem Follows.map (hm : Follows m r) {f : Ir ν → Ir ν} {g : Inlined ν → Inlined ν}
    (h : ∀ constant a x, a.inline? constant = some x → (f a).inline? constant = some (g x)) :
    Follows (do let a ← m; return f a) (do let x ← r; return g x) := by
  intro t hfrozen
  obtain ⟨hfrozen, hm⟩ := hm t hfrozen
  rw [runAt_bind]
  generalize m.runAt t = outcome at hfrozen hm ⊢
  cases hm with
  | ok hread => exact ⟨hfrozen, .ok fun t' hlater => h _ _ _ (hread t' hlater)⟩
  | error => exact ⟨hfrozen, .error⟩

/-- The constants of the first operand are still there after the second one was lowered. -/
theorem Follows.map₂ (hm : Follows m r) (hn : Follows n s) (hgrows : Grows n)
    {f : Ir ν → Ir ν → Ir ν} {g : Inlined ν → Inlined ν → Inlined ν}
    (h : ∀ constant a b x y, a.inline? constant = some x → b.inline? constant = some y →
      (f a b).inline? constant = some (g x y)) :
    Follows (do let a ← m; let b ← n; return f a b) (do let x ← r; let y ← s; return g x y) := by
  intro t hfrozen
  obtain ⟨hfrozen, hm⟩ := hm t hfrozen
  rw [runAt_bind]
  generalize m.runAt t = outcome at hfrozen hm ⊢
  cases hm with
  | error => exact ⟨hfrozen, .error⟩
  | @ok a t₁ x hleft =>
    obtain ⟨hfrozen, hn⟩ := hn t₁ hfrozen
    have hmore := hgrows t₁
    simp only [runAt_bind]
    generalize n.runAt t₁ = outcome at hfrozen hn hmore ⊢
    cases hn with
    | error => exact ⟨hfrozen, .error⟩
    | ok hright =>
      exact ⟨hfrozen, .ok fun t' hlater =>
        h _ _ _ _ _ (hleft t' (hmore.trans hlater)) (hright t' hlater)⟩

end Follows

theorem isConst_of_inline? {constant : Int → Option Bytes} {a : Ir ν} {x : Inlined ν}
    (h : a.inline? constant = some x) : x.isConst = a.isConst := by
  cases a with
  | const i =>
    obtain ⟨c, -, rfl⟩ := Option.map_eq_some_iff.1 h
    rfl
  | var cls i =>
    cases h
    rfl
  | neg e =>
    obtain ⟨y, -, hx⟩ := Option.bind_eq_some_iff.1 h
    cases hx
    rfl
  | _ =>
    obtain ⟨y, -, h⟩ := Option.bind_eq_some_iff.1 h
    obtain ⟨z, -, hx⟩ := Option.bind_eq_some_iff.1 h
    cases hx
    rfl

theorem inline?_product (constant : Int → Option Bytes) (a b : Ir ν) (x y : Inlined ν)
    (ha : a.inline? constant = some x) (hb : b.inline? constant = some y) :
    (product a b).inline? constant = some (x.mul y) := by
  cases hleft : a.isConst with
  | true =>
    cases a with
    | const i =>
      obtain ⟨c, hc, rfl⟩ := Option.map_eq_some_iff.1 ha
      rw [product, Ir.inline?, hb, hc]
      rfl
    | _ => cases hleft
  | false =>
    have hx : x.isConst = false := (isConst_of_inline? ha).trans hleft
    cases hright : b.isConst with
    | true =>
      cases b with
      | const i =>
        obtain ⟨c, hc, rfl⟩ := Option.map_eq_some_iff.1 hb
        rw [product_const_right hleft, Inlined.mul_const_right hx, Ir.inline?, ha, hc]
        rfl
      | _ => cases hright
    | false =>
      have hy : y.isConst = false := (isConst_of_inline? hb).trans hright
      rw [product_of_not_isConst hleft hright, Inlined.mul_of_not_isConst hx hy, Ir.inline?, ha, hb]
      rfl

variable [Quantity ν] [DecidableEq ν] (V : VariableSpace ν)

theorem leaf_follows (l : Leaf ν) : Follows (leaf V l) (Inlined.leaf V l) := by
  intro t hfrozen
  cases l with
  | constant v =>
    obtain ⟨i, hi⟩ := exists_intern_eq_ok (t := t) (v := v) fun h => by simp [hfrozen] at h
    have hrun : (leaf V (.constant v)).runAt t = (.ok (.const i), t.followedBy [v]) :=
      runAt_map_eq_ok_iff.2 ⟨i, hi, rfl⟩
    rw [hrun]
    refine ⟨hfrozen, .ok fun t' hlater => ?_⟩
    rw [Ir.inline?, entryAt?_of_position? (hlater.position?_eq (position?_of_intern hi))]
    rfl
  | query q =>
    rw [leaf, Inlined.leaf]
    cases V.indexOf (.ofKind q.column.kind) q.column q.rotation with
    | ok i => exact ⟨hfrozen, .ok fun t' _ => rfl⟩
    | error e => exact ⟨hfrozen, .error⟩
  | challenge index phase =>
    rw [leaf, Inlined.leaf]
    cases V.challengeIndex index with
    | ok i => exact ⟨hfrozen, .ok fun t' _ => rfl⟩
    | error e => exact ⟨hfrozen, .error⟩
  | selector index => exact ⟨hfrozen, .error⟩

/-- Lowering with a table that takes new constants agrees with lowering without a table. -/
theorem expr_follows (e : Expr ν) : Follows (expr V e) (Inlined.expr V e) := by
  induction e with
  | leaf l =>
    rw [expr_leaf]
    exact leaf_follows V l
  | neg e ih =>
    rw [expr_neg]
    exact ih.map fun constant a x ha => by rw [Ir.inline?, ha]; rfl
  | sum a b iha ihb =>
    rw [expr_sum]
    exact iha.map₂ ihb (expr_stable V b).grows fun constant a b x y ha hb => by
      rw [Ir.inline?, ha, hb]; rfl
  | product a b iha ihb =>
    rw [expr_product]
    exact iha.map₂ ihb (expr_stable V b).grows inline?_product

/-! ## Tables that have the constants -/

section Keeps

variable {α β : Type} {t : ConstantTable}

/-- A computation leaves a table as it is, whether it succeeds or not. -/
def Keeps (t : ConstantTable) (m : Lowering α) : Prop := (m.runAt t).2 = t

theorem Keeps.bind {m : Lowering α} {f : α → Lowering β} (hm : Keeps t m)
    (hf : ∀ a, Keeps t (f a)) : Keeps t (m >>= f) := by
  rcases hrun : m.runAt t with ⟨r, t'⟩
  obtain rfl : t' = t := (congrArg Prod.snd hrun).symm.trans hm
  rw [Keeps, runAt_bind, hrun]
  cases r with
  | ok a => exact hf a
  | error e => rfl

theorem runAt_intern_of_mem {v : Scalar} (h : v.toBytes ∈ t.entries) :
    ∃ i, (intern v).runAt t = (.ok i, t) := by
  obtain ⟨i, hi⟩ := exists_intern_eq_ok fun _ => h
  rw [followedBy_cons_of_mem h, followedBy_nil] at hi
  exact ⟨i, hi⟩

theorem leaf_keeps {l : Leaf ν} (h : ∀ v ∈ l.constant?, v.toBytes ∈ t.entries) :
    Keeps t (leaf V l) := by
  cases l with
  | constant v =>
    obtain ⟨i, hi⟩ := runAt_intern_of_mem (h v rfl)
    exact Keeps.bind (congrArg Prod.snd hi) fun _ => rfl
  | query q => exact Keeps.bind rfl fun _ => rfl
  | challenge index phase => exact Keeps.bind rfl fun _ => rfl
  | selector index => rfl

/-- A table that has the literals of an expression stays as it is. -/
theorem expr_keeps {e : Expr ν} (h : ∀ v ∈ e.literals, v.toBytes ∈ t.entries) :
    Keeps t (expr V e) :=
  expr_of_leaves V (P := Keeps t) (fun _ => rfl) Keeps.bind fun l hl =>
    leaf_keeps V fun v hv => h v (List.mem_filterMap.2 ⟨l, hl, hv⟩)

/-- At a table that has all constants, it makes no difference on which side a literal stands, not
even to the positions. -/
theorem runAt_product_constant {c : Scalar} {e : Expr ν} (he : e.isConstant = false)
    (h : ∀ v ∈ c :: e.literals, v.toBytes ∈ t.entries) :
    (expr V (.product (.constant c) e)).runAt t = (expr V (.product e (.constant c))).runAt t := by
  obtain ⟨hc, hliterals⟩ := List.forall_mem_cons.1 h
  obtain ⟨i, hi⟩ := runAt_intern_of_mem hc
  have hconstant : (expr V (.constant c)).runAt t = (.ok (.const i), t) := by
    rw [Expr.constant, expr_leaf]
    exact runAt_map_eq_ok_iff.2 ⟨i, hi, rfl⟩
  have hkeeps : Keeps t (expr V e) := expr_keeps V hliterals
  rw [expr_product, expr_product, runAt_bind, hconstant, runAt_bind]
  rcases hrun : (expr V e).runAt t with ⟨r, t'⟩
  obtain rfl : t' = t := (congrArg Prod.snd hrun).symm.trans hkeeps
  cases r with
  | error err => simp only [runAt_bind, hrun]
  | ok x =>
    have hx : x.isConst = false := (lowers_of_runAt hrun).isConst_eq.trans he
    simp only [runAt_bind, hrun, hconstant, product_const_right hx]
    rfl

end Keeps

/-! ## Two runs -/

/-- Two outcomes are the same up to positions. -/
def Alike (o o' : Except SchemaError (Ir ν) × ConstantTable) : Prop :=
  ∃ r, Denotes o r ∧ Denotes o' r

/-- What was lowered earlier makes no difference to an expression up to positions. Nor does it
matter on which side a product has its only literal; and if the table has all constants, it does not
matter to the positions either. -/
theorem lowered_alike (V : VariableSpace ν) :
    (∀ (e : Expr ν) (t t' : ConstantTable), t.frozen = false → t'.frozen = false →
      Alike ((expr V e).runAt t) ((expr V e).runAt t')) ∧
      ∀ (c : Scalar) (e : Expr ν), e.isConstant = false →
        (∀ t t' : ConstantTable, t.frozen = false → t'.frozen = false →
          Alike ((expr V (.product (.constant c) e)).runAt t)
            ((expr V (.product e (.constant c))).runAt t')) ∧
          ∀ t : ConstantTable, (∀ v ∈ c :: e.literals, v.toBytes ∈ t.entries) →
            (expr V (.product (.constant c) e)).runAt t =
              (expr V (.product e (.constant c))).runAt t := by
  refine ⟨fun e t t' ht ht' => ?_, fun c e he => ⟨fun t t' ht ht' => ?_, fun t => ?_⟩⟩
  · exact ⟨_, (expr_follows V e t ht).2, (expr_follows V e t' ht').2⟩
  · have hright := (expr_follows V (.product e (.constant c)) t' ht').2
    rw [← Inlined.expr_product_constant c he] at hright
    exact ⟨_, (expr_follows V _ t ht).2, hright⟩
  · exact runAt_product_constant V he

/-- A query with a literal added on the left. -/
def shifted : Expr := .sum (.constant 3) (.query default)

/-- The literals of a product get other positions if they change sides. -/
theorem lowered_alike_shifted :
    Alike (ν := Int)
        (.ok (.sum (.const 0) (.var .advice 0)), ⟨[3].map Scalar.toBytes, false⟩)
        (.ok (.sum (.const 1) (.var .advice 0)), ⟨[9, 3].map Scalar.toBytes, false⟩) ∧
      Alike (ν := Int)
        (.ok (.scaled (.sum (.const 1) (.var .advice 0)) 0), ⟨[2, 3].map Scalar.toBytes, false⟩)
        (.ok (.scaled (.sum (.const 0) (.var .advice 0)) 1), ⟨[3, 2].map Scalar.toBytes, false⟩) ∧
      (expr oneQuery (.product (.constant 2) shifted)).runAt ⟨[3, 2].map Scalar.toBytes, true⟩ =
        (expr oneQuery (.product shifted (.constant 2))).runAt
          ⟨[3, 2].map Scalar.toBytes, true⟩ := by
  obtain ⟨hsame, hsides⟩ := lowered_alike oneQuery
  obtain ⟨hsides, hsaturated⟩ := hsides 2 shifted rfl
  have hearlier := hsame shifted {} ⟨[9].map Scalar.toBytes, false⟩ rfl rfl
  have hswapped := hsides {} {} rfl rfl
  simp only [expr_eq_fold] at hearlier hswapped
  refine ⟨hearlier, hswapped, hsaturated _ ?_⟩
  simp [shifted, Expr.literals, Expr.leaves, Expr.constant, Expr.query, Leaf.constant?]

end Lowering

end Plonkish
