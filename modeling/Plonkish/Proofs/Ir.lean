import Plonkish.Ir

/-!
# Parts of laid-out expressions

The positions of constants and of variables in an expression are those of its operands, and its
own.

* `Ir.constants`, `Ir.vars`: what an expression refers to, in pre-order.
* `Ir.subtrees`, `Ir.scalings`: the subtrees, and those that are scaled expressions.
-/

namespace Plonkish.Ir

variable {ν : Type}

/-- The variable that a node refers to. -/
def Node.var? : Node ν → Option (VariableClass × ν)
  | .var cls index => some (cls, index)
  | _ => none

/-- The variables that a tree refers to, in pre-order. -/
def vars (e : Ir ν) : List (VariableClass × ν) := e.preorder.filterMap Node.var?

/-- The subtrees of a tree in pre-order, itself included. -/
def subtrees : Ir ν → List (Ir ν)
  | .const i => [.const i]
  | .var cls i => [.var cls i]
  | .neg e => .neg e :: e.subtrees
  | .sum a b => .sum a b :: (a.subtrees ++ b.subtrees)
  | .product a b => .product a b :: (a.subtrees ++ b.subtrees)
  | .scaled e i => .scaled e i :: e.subtrees

/-- Whether an expression is a constant. -/
def isConst : Ir ν → Bool
  | .const _ => true
  | _ => false

/-- Whether an expression is scaled. -/
def isScaled : Ir ν → Bool
  | .scaled _ _ => true
  | _ => false

/-- The scaled expressions among the subtrees, in pre-order. -/
def scalings (e : Ir ν) : List (Ir ν) := e.subtrees.filter isScaled

variable (e a b : Ir ν) (cls : VariableClass) (index : ν) (i : Int)

/-! ## Constants -/

theorem constants_eq_nodes : e.constants = e.nodes.filterMap Node.constant? := by
  rw [constants, preorder_eq_nodes]

@[simp] theorem constants_const : (const i : Ir ν).constants = [i] := by
  simp [constants_eq_nodes, nodes, Node.constant?]

@[simp] theorem constants_var : (var cls index).constants = [] := by
  simp [constants_eq_nodes, nodes, List.filterMap_cons, Node.constant?]

@[simp] theorem constants_neg : (neg e).constants = e.constants := by
  simp [constants_eq_nodes, nodes, List.filterMap_cons, Node.constant?]

@[simp] theorem constants_sum : (sum a b).constants = a.constants ++ b.constants := by
  simp [constants_eq_nodes, nodes, List.filterMap_cons, Node.constant?]

@[simp] theorem constants_product : (product a b).constants = a.constants ++ b.constants := by
  simp [constants_eq_nodes, nodes, List.filterMap_cons, Node.constant?]

@[simp] theorem constants_scaled : (scaled e i).constants = i :: e.constants := by
  simp [constants_eq_nodes, nodes, Node.constant?]

/-! ## Variables -/

theorem vars_eq_nodes : e.vars = e.nodes.filterMap Node.var? := by
  rw [vars, preorder_eq_nodes]

@[simp] theorem vars_const : (const i : Ir ν).vars = [] := by
  simp [vars_eq_nodes, nodes, List.filterMap_cons, Node.var?]

@[simp] theorem vars_var : (var cls index).vars = [(cls, index)] := by
  simp [vars_eq_nodes, nodes, Node.var?]

@[simp] theorem vars_neg : (neg e).vars = e.vars := by
  simp [vars_eq_nodes, nodes, List.filterMap_cons, Node.var?]

@[simp] theorem vars_sum : (sum a b).vars = a.vars ++ b.vars := by
  simp [vars_eq_nodes, nodes, List.filterMap_cons, Node.var?]

@[simp] theorem vars_product : (product a b).vars = a.vars ++ b.vars := by
  simp [vars_eq_nodes, nodes, List.filterMap_cons, Node.var?]

@[simp] theorem vars_scaled : (scaled e i).vars = e.vars := by
  simp [vars_eq_nodes, nodes, List.filterMap_cons, Node.var?]

/-! ## Scaled expressions -/

@[simp] theorem scalings_const : (const i : Ir ν).scalings = [] := rfl

@[simp] theorem scalings_var : (var cls index).scalings = [] := rfl

@[simp] theorem scalings_neg : e.neg.scalings = e.scalings := rfl

@[simp] theorem scalings_sum : (sum a b).scalings = a.scalings ++ b.scalings :=
  List.filter_append ..

@[simp] theorem scalings_product : (product a b).scalings = a.scalings ++ b.scalings :=
  List.filter_append ..

@[simp] theorem scalings_scaled : (scaled e i).scalings = scaled e i :: e.scalings := rfl

end Plonkish.Ir
