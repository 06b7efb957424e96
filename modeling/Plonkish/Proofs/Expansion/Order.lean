import Plonkish.Proofs.Expansion
import Plonkish.Proofs.Lowering.Refusal
import Plonkish.Proofs.Outline

/-!
# The order of expansion

Lowering visits the arguments of a circuit one by one, each with its inputs in front of its targets.
Expansion visits the inputs of all lookups in front of their targets, and then those of all
shuffles. Both stop at the first leaf that they cannot look up, but the inputs of a later argument
may overtake the targets of an earlier one.

* `Circuit.Overtakes`: an unknown input comes in front of an unknown target that lowering visits
  first.
* `Circuit.firstUnknown?_of_overtakes`, `Circuit.firstUnknownByRole?_of_not_overtakes`: the first
  unknown leaf in both orders.
* `Expansion.verdict_circuit`: expansion fails as the first leaf does that is not found, in its
  order.
* `Outline.refusal_of_expansion`: both refuse a circuit for the same leaf, unless one is overtaken.
-/

namespace Plonkish

open Outcome

/-- The expressions of a circuit in the order in which they are expanded. -/
def Circuit.exprsByRole {ν : Type} (c : Circuit ν) : List (Expr ν) :=
  c.gates.flatMap Gate.polys ++
    (c.lookups.flatMap Argument.inputs ++ c.lookups.flatMap Argument.targets) ++
      (c.shuffles.flatMap Argument.inputs ++ c.shuffles.flatMap Argument.targets)

/-! ## The first unknown leaf -/

namespace VariableSpace

variable {V : VariableSpace} {es fs : List Expr} {args : List (Argument Expr)} {l l' : Leaf}

/-- The first leaf of some expressions that is not found. -/
def firstUnknown? (V : VariableSpace) (es : List Expr) : Option Leaf :=
  (es.flatMap Expr.leaves).find? fun l => ¬V.Finds l

theorem firstUnknown?_append :
    V.firstUnknown? (es ++ fs) = (V.firstUnknown? es).or (V.firstUnknown? fs) := by
  rw [firstUnknown?, List.flatMap_append, List.find?_append]
  rfl

theorem checkLeaf_of_not_finds (h : ¬V.Finds l) : V.checkLeaf l = .error l.refusal := by
  cases l with
  | constant v => exact absurd trivial h
  | query q =>
    have hindex := indexOf_of_not_mem (queryClass_ne_challenge q) h
    rw [checkLeaf, hindex]
    rfl
  | challenge i phase =>
    rw [checkLeaf, challengeIndex_of_not_lt h]
    rfl
  | selector i => rfl

/-- Looking up the leaves of some expressions fails for the first that is not found. -/
theorem forM_checkLeaf (V : VariableSpace) (es : List Expr) :
    forM (es.flatMap Expr.leaves) V.checkLeaf =
      match V.firstUnknown? es with
      | some l => .error l.refusal
      | none => .ok () := by
  rw [firstUnknown?]
  induction es.flatMap Expr.leaves with
  | nil => rfl
  | cons l ls ih =>
    rw [List.forM_cons]
    by_cases h : V.Finds l
    · rw [checkLeaf_eq_ok_iff.2 h, List.find?_cons_of_neg (by simpa using h)]
      exact ih
    · rw [checkLeaf_of_not_finds h, List.find?_cons_of_pos (by simpa using h)]
      rfl

/-! ## Arguments -/

/-- Among some arguments, the first that has an unknown leaf has it in its targets and not in its
inputs, and there is one in the inputs of a later argument. -/
def Overtakes (V : VariableSpace) (args : List (Argument Expr)) (l' l : Leaf) : Prop :=
  ∃ front a rest, args = front ++ a :: rest ∧
    V.firstUnknown? (front.flatMap Argument.exprs) = none ∧
      V.firstUnknown? a.inputs = none ∧ V.firstUnknown? a.targets = some l ∧
        V.firstUnknown? (rest.flatMap Argument.inputs) = some l'

/-- Arguments have the same unknown leaves, visited one by one or by their roles. -/
theorem firstUnknown?_eq_none_iff :
    V.firstUnknown? (args.flatMap Argument.exprs) = none ↔
      V.firstUnknown? (args.flatMap Argument.inputs) = none ∧
        V.firstUnknown? (args.flatMap Argument.targets) = none := by
  induction args with
  | nil => exact (and_self_iff).symm
  | cons a args ih =>
    simp only [List.flatMap_cons, Argument.exprs, firstUnknown?_append, Option.or_eq_none_iff]
      at ih ⊢
    rw [ih]
    tauto

/-- The first unknown leaf is the overtaken target one by one, and the overtaking input by roles. -/
theorem firstUnknown?_eq_of_overtakes (h : V.Overtakes args l' l) :
    V.firstUnknown? (args.flatMap Argument.exprs) = some l ∧
      V.firstUnknown? (args.flatMap Argument.inputs ++ args.flatMap Argument.targets) =
        some l' := by
  obtain ⟨front, a, rest, rfl, hfront, hinputs, htargets, hrest⟩ := h
  obtain ⟨hfrontInputs, -⟩ := firstUnknown?_eq_none_iff.1 hfront
  simp only [List.flatMap_append, List.flatMap_cons, Argument.exprs, firstUnknown?_append]
    at hfront hfrontInputs ⊢
  constructor
  · rw [hfront, hinputs, htargets]
    rfl
  · rw [hfrontInputs, hinputs, hrest]
    rfl

/-- If nothing overtakes, the first unknown leaf is the same in both orders. -/
theorem firstUnknown?_eq_of_not_overtakes (h : ∀ l l', ¬V.Overtakes args l' l) :
    V.firstUnknown? (args.flatMap Argument.inputs ++ args.flatMap Argument.targets) =
      V.firstUnknown? (args.flatMap Argument.exprs) := by
  induction args with
  | nil => rfl
  | cons a args ih =>
    simp only [List.flatMap_cons, Argument.exprs, firstUnknown?_append] at ih ⊢
    cases hinputs : V.firstUnknown? a.inputs with
    | some l => rfl
    | none =>
      cases htargets : V.firstUnknown? a.targets with
      | some l =>
        -- The inputs of the other arguments come next, so they must not have an unknown leaf.
        have hrest : V.firstUnknown? (args.flatMap Argument.inputs) = none := by
          refine Option.eq_none_iff_forall_ne_some.2 fun l' hl' => h l l' ?_
          exact ⟨[], a, args, rfl, rfl, hinputs, htargets, hl'⟩
        rw [hrest]
        rfl
      | none =>
        refine ih fun l l' hover => h l l' ?_
        obtain ⟨front, b, rest, rfl, hfront, hb⟩ := hover
        refine ⟨a :: front, b, rest, rfl, ?_, hb⟩
        simp only [List.flatMap_cons, Argument.exprs, firstUnknown?_append] at hfront ⊢
        rw [hinputs, htargets, hfront]
        rfl

end VariableSpace

namespace Circuit

variable {c : Circuit} {l l' : Leaf}

/-- An input of a lookup or shuffle overtakes a target of an earlier one, and no leaf in front of
these is unknown. -/
def Overtakes (c : Circuit) (l' l : Leaf) : Prop :=
  let V := VariableSpace.ofCircuit c
  V.firstUnknown? (c.gates.flatMap Gate.polys) = none ∧
    (V.Overtakes c.lookups l' l ∨
      V.firstUnknown? (c.lookups.flatMap Argument.exprs) = none ∧ V.Overtakes c.shuffles l' l)

/-- The first leaf of the circuit that is not found when its arguments are visited one by one. -/
def firstUnknown? (c : Circuit) : Option Leaf := (VariableSpace.ofCircuit c).firstUnknown? c.exprs

/-- The first leaf of the circuit that is not found when its arguments are visited by their
roles. -/
def firstUnknownByRole? (c : Circuit) : Option Leaf :=
  (VariableSpace.ofCircuit c).firstUnknown? c.exprsByRole

theorem firstUnknown?_exprs (V : VariableSpace) (c : Circuit) :
    V.firstUnknown? c.exprs =
      ((V.firstUnknown? (c.gates.flatMap Gate.polys)).or
        (V.firstUnknown? (c.lookups.flatMap Argument.exprs))).or
          (V.firstUnknown? (c.shuffles.flatMap Argument.exprs)) := by
  rw [exprs, exprsOf, VariableSpace.firstUnknown?_append, VariableSpace.firstUnknown?_append]

theorem firstUnknown?_exprsByRole (V : VariableSpace) (c : Circuit) :
    V.firstUnknown? c.exprsByRole =
      ((V.firstUnknown? (c.gates.flatMap Gate.polys)).or
        (V.firstUnknown? (c.lookups.flatMap Argument.inputs ++
          c.lookups.flatMap Argument.targets))).or
            (V.firstUnknown? (c.shuffles.flatMap Argument.inputs ++
              c.shuffles.flatMap Argument.targets)) := by
  rw [exprsByRole, VariableSpace.firstUnknown?_append, VariableSpace.firstUnknown?_append]

/-- The first unknown leaf is the overtaken target one by one, and the overtaking input by roles. -/
theorem firstUnknown?_of_overtakes (h : c.Overtakes l' l) :
    c.firstUnknown? = some l ∧ c.firstUnknownByRole? = some l' := by
  rw [firstUnknown?, firstUnknownByRole?, firstUnknown?_exprs, firstUnknown?_exprsByRole]
  obtain ⟨hgates, hover | ⟨hlookups, hover⟩⟩ := h
  · obtain ⟨hone, hroles⟩ := VariableSpace.firstUnknown?_eq_of_overtakes hover
    simp only [hgates, hone, hroles, Option.none_or, Option.some_or, and_self]
  · obtain ⟨hone, hroles⟩ := VariableSpace.firstUnknown?_eq_of_overtakes hover
    obtain ⟨hinputs, htargets⟩ := VariableSpace.firstUnknown?_eq_none_iff.1 hlookups
    have hlookupRoles : (VariableSpace.ofCircuit c).firstUnknown?
        (c.lookups.flatMap Argument.inputs ++ c.lookups.flatMap Argument.targets) = none := by
      rw [VariableSpace.firstUnknown?_append, hinputs, htargets, Option.or_none]
    simp only [hgates, hlookups, hlookupRoles, hone, hroles, Option.none_or, and_self]

/-- If nothing overtakes, the first unknown leaf is the same in both orders. -/
theorem firstUnknownByRole?_of_not_overtakes (h : ∀ l l', ¬c.Overtakes l' l) :
    c.firstUnknownByRole? = c.firstUnknown? := by
  rw [firstUnknown?, firstUnknownByRole?, firstUnknown?_exprs, firstUnknown?_exprsByRole]
  cases hgates : (VariableSpace.ofCircuit c).firstUnknown? (c.gates.flatMap Gate.polys) with
  | some l => rfl
  | none =>
    rw [VariableSpace.firstUnknown?_eq_of_not_overtakes fun l l' hover =>
      h l l' ⟨hgates, .inl hover⟩]
    cases hlookups :
        (VariableSpace.ofCircuit c).firstUnknown? (c.lookups.flatMap Argument.exprs) with
    | some l => rfl
    | none =>
      rw [VariableSpace.firstUnknown?_eq_of_not_overtakes fun l l' hover =>
        h l l' ⟨hgates, .inr ⟨hlookups, hover⟩⟩]

end Circuit

/-! ## Failures -/

namespace Expansion

variable {V : VariableSpace}

theorem verdict_exprs (hchallenges : 0 ≤ V.challenges) (es : List Expr) :
    verdict (exprs (ι := Nat) V es) =
      (forM (es.flatMap Expr.leaves) V.checkLeaf).mapError .schema := by
  rw [exprs, verdict_mapM, forM_flatMap, ← forM_mapError]
  exact congrArg _ (funext fun e => verdict_expr hchallenges e)

/-- Expanding parts of a circuit fails as the first leaf does that cannot be looked up. -/
theorem verdict_parts {α : Type} (hchallenges : 0 ≤ V.challenges) (part : α → List Expr)
    (xs : List α) :
    verdict (xs.mapM fun x => exprs (ι := Nat) V (part x)) =
      (forM ((xs.flatMap part).flatMap Expr.leaves) V.checkLeaf).mapError .schema := by
  rw [verdict_mapM, List.flatMap_assoc, forM_flatMap, ← forM_mapError]
  exact congrArg _ (funext fun x => verdict_exprs hchallenges (part x))

/-- A circuit is expanded, or expansion fails as the first leaf does that cannot be looked up, with
the arguments visited by their roles. -/
theorem verdict_circuit (c : Circuit) :
    verdict (circuit (ι := Nat) c) =
      (forM (c.exprsByRole.flatMap Expr.leaves) (VariableSpace.ofCircuit c).checkLeaf).mapError
        .schema := by
  have hchallenges : 0 ≤ (VariableSpace.ofCircuit c).challenges := Int.natCast_nonneg _
  rw [← forM_mapError]
  simp only [Circuit.exprsByRole, List.flatMap_append, List.forM_append, bind_assoc]
  rw [circuit, VariableSpace.check_int]
  simp only [forM_mapError, ← verdict_parts hchallenges]
  exact verdict_bind fun _ => verdict_bind fun _ => verdict_bind fun _ => verdict_bind fun _ =>
    verdict_bind fun _ => verdict_bind_pure

end Expansion

namespace Circuit

variable {c : Circuit} {l l' : Leaf}

/-- Expansion is refused for the first leaf that is not found, with the arguments visited by their
roles. -/
theorem expansion_eq_error (h : c.firstUnknownByRole? = some l') :
    Expansion.circuit (ι := Nat) c = .error (.schema l'.refusal) := by
  have hverdict := Expansion.verdict_circuit c
  rw [VariableSpace.forM_checkLeaf, ← firstUnknownByRole?, h] at hverdict
  exact verdict_eq_error_iff.1 hverdict

end Circuit

namespace Outline

open Lowering

variable {k : Int} {c : Circuit} {key : VerifyingKey} {e : SchemaError}

/-- A circuit has no outline because of the first leaf of its expressions that is not found, with
the arguments visited one by one. -/
theorem exists_firstUnknown_of_schema (h : ofCircuit k c key = .error (.schema e)) :
    ∃ l, c.firstUnknown? = some l ∧ e = l.refusal := by
  obtain ⟨-, ⟨⟩⟩ | ⟨-, ⟨⟩⟩ | ⟨_, ⟨⟩, hrun⟩ := ofCircuit_eq_error h
  have hverdict := (circuit_checks c {} rfl).1
  rw [hrun, VariableSpace.forM_checkLeaf, ← Circuit.firstUnknown?] at hverdict
  cases hfirst : c.firstUnknown? with
  | none =>
    rw [hfirst] at hverdict
    cases hverdict
  | some l =>
    rw [hfirst] at hverdict
    cases hverdict
    exact ⟨l, rfl, rfl⟩

/-- If a circuit has no outline because of one of its leaves, then it is not expanded either, and
for the same leaf unless another one overtakes it. Where an input of a lookup or shuffle overtakes
a target of an earlier one, expansion is refused for the input. -/
theorem refusal_of_expansion (h : ofCircuit k c key = .error (.schema e)) :
    (∀ l l', c.Overtakes l' l →
        e = l.refusal ∧ Expansion.circuit (ι := Nat) c = .error (.schema l'.refusal)) ∧
      ((∀ l l', ¬c.Overtakes l' l) →
        Expansion.circuit (ι := Nat) c = .error (.schema e)) := by
  obtain ⟨l₀, hfirst, rfl⟩ := exists_firstUnknown_of_schema h
  constructor
  · intro l l' hover
    obtain ⟨hone, hroles⟩ := Circuit.firstUnknown?_of_overtakes hover
    obtain rfl := Option.some.inj (hfirst.symm.trans hone)
    exact ⟨rfl, Circuit.expansion_eq_error hroles⟩
  · intro hnone
    rw [← Circuit.firstUnknownByRole?_of_not_overtakes hnone] at hfirst
    exact Circuit.expansion_eq_error hfirst

/-- Two lookups: the table of the first one has a selector that is still there, and so have the
inputs of the second one. -/
def crossed : Circuit where
  fixedCount := 0
  instCount := 0
  lookups :=
    [⟨.null, [.constant 1], [.leaf (.selector 0)]⟩, ⟨.null, [.leaf (.selector 1)], [.constant 1]⟩]

theorem overtakes_crossed : crossed.Overtakes (.selector 1) (.selector 0) :=
  ⟨rfl, .inl ⟨[], _, _, rfl, rfl, rfl, rfl, rfl⟩⟩

theorem ofCircuit_crossed :
    ofCircuit 4 crossed default = .error (.schema (.selector (.int 0))) := by
  decide +kernel

theorem refusal_of_expansion_crossed :
    ofCircuit 4 crossed default = .error (.schema (.selector (.int 0))) ∧
      Expansion.circuit (ι := Nat) crossed = .error (.schema (.selector (.int 1))) :=
  ⟨ofCircuit_crossed, ((refusal_of_expansion ofCircuit_crossed).1 _ _ overtakes_crossed).2⟩

/-- Expansion need not be refused for the leaf because of which a circuit has no outline. -/
theorem refusal_not_always_of_expansion :
    ¬∀ (k : Int) (c : Circuit) (key : VerifyingKey) (e : SchemaError),
      ofCircuit k c key = .error (.schema e) →
        Expansion.circuit (ι := Nat) c = .error (.schema e) := by
  intro hall
  obtain ⟨-, hroles⟩ := Circuit.firstUnknown?_of_overtakes overtakes_crossed
  have hexpansion := Circuit.expansion_eq_error hroles
  rw [hall 4 crossed default _ ofCircuit_crossed] at hexpansion
  cases hexpansion

end Outline

end Plonkish
