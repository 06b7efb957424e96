import Plonkish.Ir
import Plonkish.Proofs.Expr
import Plonkish.Proofs.Lowering.Run
import Plonkish.Proofs.VariableSpace

/-!
# The meaning of lowered expressions

Lowering moves constants behind what they scale and names everything by position. Read back through
the table and the lists of queries, the lowered expression has the value of the raw one, then and
at any later time.

* `Ir.value?`: the value of a laid-out expression whose positions may be void.
* `Lowering.value?_of_reads`: lowering keeps values, however variables are read.
* `Lowering.value?_expr`: it does for variables that are read from the lists of queries.
-/

namespace Plonkish

/-- The value of an expression, if all positions in it have one. -/
def Ir.value? {ν : Type} (constant : (index : Int) → Option Scalar)
    (var : VariableClass → (index : ν) → Option Scalar) : Ir ν → Option Scalar
  | .const i => constant i
  | .var cls i => var cls i
  | .neg e => do
    let x ← e.value? constant var
    return -x
  | .sum a b => do
    let x ← a.value? constant var
    let y ← b.value? constant var
    return x + y
  | .product a b => do
    let x ← a.value? constant var
    let y ← b.value? constant var
    return x * y
  | .scaled e i => do
    let x ← e.value? constant var
    let c ← constant i
    return x * c

/-- Where every position has a value, so has every expression. -/
theorem Ir.value?_eq_eval {ν : Type} (constant : Int → Scalar) (var : VariableClass → ν → Scalar)
    (e : Ir ν) :
    e.value? (fun i => some (constant i)) (fun cls i => some (var cls i)) =
      some (e.eval constant var) := by
  induction e with
  | const i => rfl
  | var cls i => rfl
  | neg e ih => rw [value?, ih]; rfl
  | sum a b iha ihb => rw [value?, iha, ihb]; rfl
  | product a b iha ihb => rw [value?, iha, ihb]; rfl
  | scaled e i ih => rw [value?, ih]; rfl

namespace Lowering

open VariableSpace

variable {constant : Int → Option Scalar} {var : VariableClass → Int → Option Scalar}

/-- A constant is moved behind what it scales. -/
theorem value?_product {a b : Ir} {x y : Scalar} (ha : a.value? constant var = some x)
    (hb : b.value? constant var = some y) :
    (product a b).value? constant var = some (x * y) := by
  unfold product
  split
  · rw [Ir.value?] at ha
    rw [Ir.value?, hb, ha, Fin.mul_comm]
    rfl
  · rw [Ir.value?] at hb
    rw [Ir.value?, ha, hb]
    rfl
  · rw [Ir.value?, ha, hb]
    rfl

variable {V : VariableSpace} {t t' t'' : ConstantTable} {ir : Ir} {a : Assignment}

theorem value?_leaf {l : Leaf} (hvar : V.Reads var a l) (h : (leaf V l).runAt t = (.ok ir, t'))
    (hlater : t'.Reaches t'') : ir.value? t''.value? var = some (l.eval a) := by
  cases l with
  | constant v =>
    obtain ⟨i, hi, rfl⟩ := runAt_map_eq_ok_iff.1 h
    exact hlater.value?_eq (ConstantTable.value?_of_intern hi)
  | query q =>
    obtain ⟨i, hi, rfl⟩ := runAt_map_eq_ok_iff.1 h
    exact hvar i (Prod.mk.inj hi).1
  | challenge i phase =>
    obtain ⟨j, hj, rfl⟩ := runAt_map_eq_ok_iff.1 h
    have hindex := (Prod.mk.inj hj).1
    obtain ⟨rfl, -, -⟩ := challengeIndex_eq_ok_iff.1 hindex
    exact hvar hindex
  | selector i => cases h

/-- Lowering keeps values, in every way of reading variables that agrees with an assignment, and
the table may be read at any later time. -/
theorem value?_of_reads {e : Expr} (hvar : ∀ l ∈ e.leaves, V.Reads var a l)
    (h : (expr V e).runAt t = (.ok ir, t')) (hlater : t'.Reaches t'') :
    ir.value? t''.value? var = some (e.eval a) := by
  induction e generalizing t t' ir with
  | leaf l =>
    rw [expr_leaf] at h
    exact value?_leaf (hvar l List.mem_cons_self) h hlater
  | neg e ih =>
    rw [expr_neg] at h
    obtain ⟨x, hx, rfl⟩ := runAt_map_eq_ok_iff.1 h
    rw [Ir.value?, ih hvar hx hlater]
    rfl
  | sum a b iha ihb =>
    obtain ⟨hleft, hright⟩ := List.forall_mem_append.1 hvar
    rw [expr_sum] at h
    obtain ⟨x, y, t₁, hx, hy, rfl⟩ := runAt_pair_eq_ok_iff.1 h
    -- The table of the right operand is a later one for the left operand.
    have hmore := (expr_stable V b).grows.reaches hy
    rw [Ir.value?, iha hleft hx (hmore.trans hlater), ihb hright hy hlater]
    rfl
  | product a b iha ihb =>
    obtain ⟨hleft, hright⟩ := List.forall_mem_append.1 hvar
    rw [expr_product] at h
    obtain ⟨x, y, t₁, hx, hy, rfl⟩ := runAt_pair_eq_ok_iff.1 h
    have hmore := (expr_stable V b).grows.reaches hy
    exact value?_product (iha hleft hx (hmore.trans hlater)) (ihb hright hy hlater)

/-- A lowered expression, read through the table at any later time and through the lists of
queries, has the value of the raw one. -/
theorem value?_expr {e : Expr} (a : Assignment) (h : (expr V e).runAt t = (.ok ir, t'))
    (hlater : t'.Reaches t'') : ir.value? t''.value? (V.value? a) = some (e.eval a) :=
  value?_of_reads (fun l _ => reads_value? V a l) h hlater

/-- A space of one query. -/
def oneQuery : VariableSpace := { advice := [default] }

theorem runAt_expr_oneQuery :
    (expr oneQuery (.product (.constant 2) (.query default))).runAt {} =
      (.ok (.scaled (.var .advice 0) 0), ⟨[Scalar.toBytes 2], false⟩) := by
  rw [expr_eq_fold]
  rfl

theorem value?_expr_doubled :
    ∃ ir t', (expr oneQuery (.product (.constant 2) (.query default))).runAt {} = (.ok ir, t') ∧
      ir.value? (t'.intern 3).2.value? (oneQuery.value? ⟨fun _ => 5, fun _ => 0, fun _ => 0⟩) =
        some 10 :=
  ⟨_, _, runAt_expr_oneQuery, value?_expr ⟨fun _ => 5, fun _ => 0, fun _ => 0⟩
    runAt_expr_oneQuery (ConstantTable.reaches_intern 3 _)⟩

end Lowering

end Plonkish
