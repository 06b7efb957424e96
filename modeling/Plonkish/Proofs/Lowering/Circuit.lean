import Plonkish.Proofs.Lowering.Run

/-!
# Lowering circuits

A circuit is lowered expression by expression, in one order that its nested lists determine.

* `Circuit.exprs`: the expressions of a circuit, in that order.
* `Lowering.circuit_stable`: what a circuit is lowered to stays the same at later tables.
* `Lowering.runAt_circuit`: a circuit is lowered as the list of its expressions is.
-/

namespace Plonkish

variable {ν ε : Type}

/-- The expressions of an argument, its inputs first. -/
def Argument.exprs (a : Argument ε) : List ε := a.inputs ++ a.targets

/-- The expressions of gates and arguments: first the gates, then the lookups, then the
shuffles. -/
def exprsOf (gates : List (Gate ε)) (lookups shuffles : List (Argument ε)) : List ε :=
  gates.flatMap Gate.polys ++ lookups.flatMap Argument.exprs ++ shuffles.flatMap Argument.exprs

/-- The expressions of a circuit. -/
def Circuit.exprs (c : Circuit ν) : List (Expr ν) := exprsOf c.gates c.lookups c.shuffles

/-- Traversals that do the same with each item do the same. -/
theorem mapM_congr {m : Type → Type} [Monad m] [LawfulMonad m] {α β : Type} {f g : α → m β}
    {xs : List α} (h : ∀ x ∈ xs, f x = g x) : xs.mapM f = xs.mapM g := by
  induction xs with
  | nil => simp
  | cons x xs ih =>
    obtain ⟨hx, hxs⟩ := List.forall_mem_cons.1 h
    rw [List.mapM_cons, List.mapM_cons, hx, ih hxs]

/-- Visiting items by the parts that each has is visiting all parts. -/
theorem flatMap_mapM {m : Type → Type} [Monad m] [LawfulMonad m] {α β γ δ : Type} {f : α → m β}
    {g : γ → m δ} {parts : α → List γ} {results : β → List δ}
    (h : ∀ x, results <$> f x = (parts x).mapM g) (xs : List α) :
    List.flatMap results <$> xs.mapM f = (xs.flatMap parts).mapM g := by
  induction xs with
  | nil => simp
  | cons x xs ih =>
    rw [List.flatMap_cons, List.mapM_append, ← h, ← ih, List.mapM_cons]
    simp

namespace Lowering

/-- The lowered expressions. -/
def Parts.exprs (p : Parts ν) : List (Ir ν) := exprsOf p.gates p.lookups p.shuffles

variable [Quantity ν] [DecidableEq ν] (V : VariableSpace ν)

theorem polys_gate (g : Gate (Expr ν)) : Gate.polys <$> gate V g = exprs V g.polys := by
  simp [gate]

theorem exprs_argument (a : Argument (Expr ν)) :
    Argument.exprs <$> argument V a = exprs V a.exprs := by
  simp [argument, exprs, Argument.exprs]

theorem exprs_circuit (c : Circuit ν) :
    Parts.exprs <$> circuit c = (do
      ofExcept (VariableSpace.ofCircuit c).check
      exprs (.ofCircuit c) c.exprs) := by
  have hgates := flatMap_mapM (polys_gate (.ofCircuit c)) c.gates
  have harguments := flatMap_mapM (exprs_argument (.ofCircuit c))
  simp [circuit, exprs, Circuit.exprs, exprsOf, ← hgates, ← harguments, Parts.exprs]

theorem gate_stable (g : Gate (Expr ν)) : Stable (gate V g) :=
  (exprs_stable V g.polys).bind fun _ => stable_pure _

theorem argument_stable (a : Argument (Expr ν)) : Stable (argument V a) :=
  (exprs_stable V a.inputs).bind fun _ => (exprs_stable V a.targets).bind fun _ => stable_pure _

theorem circuit_stable (c : Circuit ν) : Stable (circuit c) :=
  (stable_ofExcept _).bind fun _ =>
    (Stable.mapM (gate_stable _) c.gates).bind fun _ =>
      (Stable.mapM (argument_stable _) c.lookups).bind fun _ =>
        (Stable.mapM (argument_stable _) c.shuffles).bind fun _ => stable_pure _

/-- A circuit is lowered as the list of its expressions is. -/
theorem runAt_circuit {c : Circuit ν} {t t' : ConstantTable} {parts : Parts ν}
    (h : (circuit c).runAt t = (.ok parts, t')) :
    (exprs (.ofCircuit c) c.exprs).runAt t = (.ok parts.exprs, t') := by
  have hexprs : (Parts.exprs <$> circuit c).runAt t = (.ok parts.exprs, t') := by
    rw [runAt_map, h]
    rfl
  rw [exprs_circuit, runAt_bind_eq_ok_iff] at hexprs
  obtain ⟨⟨⟩, t₁, hcheck, hexprs⟩ := hexprs
  obtain rfl : t₁ = t := (congrArg Prod.snd hcheck).symm
  exact hexprs

end Lowering

end Plonkish
