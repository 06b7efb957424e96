import Plonkish.Ir.Text
import Plonkish.Proofs.List

/-!
# What nodes and descriptions tell

A tree is compared with another one by the list of its nodes, without its shape. Each node has its
number of operands, so no list of nodes is in front of another, and the list determines the tree.
A description is written with parentheses and commas. It ends where it does whatever follows, so it
determines the tree too.

* `Ir.eq_of_nodes_append`, `Ir.eq_of_nested_append`: trees are told apart, whatever follows them.
* `Ir.told_apart`: trees are equal if their nodes are listed alike, or their descriptions.
-/

namespace Plonkish.Ir

/-! ## Lists of nodes -/

section Nodes

variable {ν : Type} {a b : Ir ν} {s t : List (Node ν)}

/-- The nodes of a tree are told apart from what follows them. -/
theorem eq_of_nodes_append (h : a.nodes ++ s = b.nodes ++ t) : a = b ∧ s = t := by
  induction a generalizing b s t with
  | const i =>
    cases b with
    | const j => simpa [nodes] using h
    | _ => simp [nodes] at h
  | var cls i =>
    cases b with
    | var cls' j => simpa [nodes, and_assoc] using h
    | _ => simp [nodes] at h
  | neg a ih =>
    cases b with
    | neg b =>
      obtain ⟨rfl, hrest⟩ := ih (List.cons.inj h).2
      exact ⟨rfl, hrest⟩
    | _ => simp [nodes] at h
  | sum a a' iha iha' =>
    cases b with
    | sum b b' =>
      simp only [nodes, List.cons_append, List.append_assoc] at h
      obtain ⟨rfl, hright⟩ := iha (List.cons.inj h).2
      obtain ⟨rfl, hrest⟩ := iha' hright
      exact ⟨rfl, hrest⟩
    | _ => simp [nodes] at h
  | product a a' iha iha' =>
    cases b with
    | product b b' =>
      simp only [nodes, List.cons_append, List.append_assoc] at h
      obtain ⟨rfl, hright⟩ := iha (List.cons.inj h).2
      obtain ⟨rfl, hrest⟩ := iha' hright
      exact ⟨rfl, hrest⟩
    | _ => simp [nodes] at h
  | scaled a i ih =>
    cases b with
    | scaled b j =>
      obtain ⟨hnode, hoperand⟩ := List.cons.inj h
      obtain rfl := Node.scaled.inj hnode
      obtain ⟨rfl, hrest⟩ := ih hoperand
      exact ⟨rfl, hrest⟩
    | _ => simp [nodes] at h

theorem nodes_injective : Function.Injective (nodes : Ir ν → List (Node ν)) := fun a b h =>
  (eq_of_nodes_append (s := []) (t := []) (by rw [h])).1

theorem sameNodes_iff [DecidableEq ν] : a.sameNodes b = true ↔ a = b := by
  rw [sameNodes, beq_iff_eq, preorder_eq_nodes, preorder_eq_nodes]
  exact nodes_injective.eq_iff

end Nodes

/-! ## Descriptions -/

variable {a b : Ir} {s t : List Char}

/-- What stands in a description behind the first parenthesis. -/
def inside : Ir → List Char
  | .const i => (toString i).toList ++ [')']
  | .var cls i => ("VarClass." ++ cls.name).toList ++ ',' :: ' ' :: ((toString i).toList ++ [')'])
  | .neg e => e.nested.toList ++ [')']
  | .sum a b => a.nested.toList ++ ',' :: ' ' :: (b.nested.toList ++ [')'])
  | .product a b => a.nested.toList ++ ',' :: ' ' :: (b.nested.toList ++ [')'])
  | .scaled e i => e.nested.toList ++ ',' :: ' ' :: ((toString i).toList ++ [')'])

theorem toList_nested (e : Ir) : e.nested.toList = e.head.name.toList ++ '(' :: e.inside := by
  cases e <;> simp [nested, inside, head, Node.name, Json.spelled]

theorem Node.paren_notMem_name (n : Node) : '(' ∉ n.name.toList := by
  cases n <;> simp [name]

/-- A description tells the type of the outermost node, and what stands behind the parenthesis. -/
theorem inside_of_nested_append (h : a.nested.toList ++ s = b.nested.toList ++ t) :
    a.head.name = b.head.name ∧ a.inside ++ s = b.inside ++ t := by
  rw [toList_nested, toList_nested, List.append_assoc, List.append_assoc] at h
  obtain ⟨hname, hinside⟩ := eq_of_append_cons (Node.paren_notMem_name _) (Node.paren_notMem_name _) h
  exact ⟨String.toList_inj.1 hname, hinside⟩

/-- The name of a class is told apart from what follows the comma behind it. -/
theorem eq_of_className_append {c d : VariableClass}
    (h : ("VarClass." ++ c.name).toList ++ ',' :: s = ("VarClass." ++ d.name).toList ++ ',' :: t) :
    c = d ∧ s = t := by
  have hcomma (c : VariableClass) : ',' ∉ ("VarClass." ++ c.name).toList := by
    cases c <;> decide
  have hinj : Function.Injective fun c : VariableClass => ("VarClass." ++ c.name).toList := by
    intro c d
    cases c <;> cases d <;> decide
  obtain ⟨hname, hrest⟩ := eq_of_append_cons (hcomma c) (hcomma d) h
  exact ⟨hinj hname, hrest⟩

/-- A description is told apart from what follows it. -/
theorem eq_of_nested_append (h : a.nested.toList ++ s = b.nested.toList ++ t) : a = b ∧ s = t := by
  induction a generalizing b s t with
  | const i =>
    obtain ⟨hname, hinside⟩ := inside_of_nested_append h
    cases b with
    | const j =>
      simp only [inside, List.append_assoc, List.cons_append, List.nil_append] at hinside
      obtain ⟨rfl, hrest⟩ := eq_of_number_append (by decide) (by decide) hinside
      exact ⟨rfl, hrest⟩
    | _ => simp [head, Node.name] at hname
  | var cls i =>
    obtain ⟨hname, hinside⟩ := inside_of_nested_append h
    cases b with
    | var cls' j =>
      simp only [inside, List.append_assoc, List.cons_append, List.nil_append] at hinside
      obtain ⟨rfl, hindex⟩ := eq_of_className_append hinside
      obtain ⟨rfl, hrest⟩ := eq_of_number_append (by decide) (by decide) (List.cons.inj hindex).2
      exact ⟨rfl, hrest⟩
    | _ => simp [head, Node.name] at hname
  | neg a ih =>
    obtain ⟨hname, hinside⟩ := inside_of_nested_append h
    cases b with
    | neg b =>
      simp only [inside, List.append_assoc] at hinside
      obtain ⟨rfl, hclosed⟩ := ih hinside
      exact ⟨rfl, (List.cons.inj hclosed).2⟩
    | _ => simp [head, Node.name] at hname
  | sum a a' iha iha' =>
    obtain ⟨hname, hinside⟩ := inside_of_nested_append h
    cases b with
    | sum b b' =>
      simp only [inside, List.append_assoc, List.cons_append] at hinside
      obtain ⟨rfl, hright⟩ := iha hinside
      obtain ⟨rfl, hclosed⟩ := iha' (List.cons.inj (List.cons.inj hright).2).2
      exact ⟨rfl, (List.cons.inj hclosed).2⟩
    | _ => simp [head, Node.name] at hname
  | product a a' iha iha' =>
    obtain ⟨hname, hinside⟩ := inside_of_nested_append h
    cases b with
    | product b b' =>
      simp only [inside, List.append_assoc, List.cons_append] at hinside
      obtain ⟨rfl, hright⟩ := iha hinside
      obtain ⟨rfl, hclosed⟩ := iha' (List.cons.inj (List.cons.inj hright).2).2
      exact ⟨rfl, (List.cons.inj hclosed).2⟩
    | _ => simp [head, Node.name] at hname
  | scaled a i ih =>
    obtain ⟨hname, hinside⟩ := inside_of_nested_append h
    cases b with
    | scaled b j =>
      simp only [inside, List.append_assoc, List.cons_append, List.nil_append] at hinside
      obtain ⟨rfl, hindex⟩ := ih hinside
      obtain ⟨rfl, hrest⟩ :=
        eq_of_number_append (by decide) (by decide) (List.cons.inj (List.cons.inj hindex).2).2
      exact ⟨rfl, hrest⟩
    | _ => simp [head, Node.name] at hname

theorem nested_injective : Function.Injective (nested : Ir → String) := fun a b h =>
  (eq_of_nested_append (s := []) (t := []) (by rw [h])).1

/-- Comparing trees by their nodes listed in pre-order, or by their descriptions, is comparing
them. -/
theorem told_apart (a b : Ir) :
    (a.sameNodes b = true ↔ a = b) ∧ (a.description = b.description ↔ a = b) := by
  rw [description_eq_nested, description_eq_nested]
  exact ⟨sameNodes_iff, nested_injective.eq_iff⟩

end Plonkish.Ir
