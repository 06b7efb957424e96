import Plonkish.Proofs.Circuit.Written

/-!
# Extended circuits

More calls may follow those by which a circuit was written. Queries and challenges keep their places
in the longer lists, and gates are lowered in front of everything else, so the gates that were there
are lowered as before, on a table that grows behind them.

* `Circuit.extends_afterAll`: a run of calls keeps what is registered, in its place.
* `Lowering.expr_of_extends`: what can be lowered is lowered in the same way in a larger space.
* `Outline.gates_of_extension`: the gates of an outline, and their constants, do not change when the
  circuit is extended.
-/

namespace Plonkish

namespace Circuit

variable {c c' c'' : Circuit}

theorem Extends.trans (h : c'.Extends c) (h' : c''.Extends c') : c''.Extends c where
  columnCount kind := (h.columnCount kind).trans (h'.columnCount kind)
  advicePhases := h.advicePhases.trans h'.advicePhases
  challengePhases := h.challengePhases.trans h'.challengePhases
  queriesOf kind := (h.queriesOf kind).trans (h'.queriesOf kind)
  permutation := h.permutation.trans h'.permutation
  gates := h.gates.trans h'.gates
  lookups := h.lookups.trans h'.lookups
  shuffles := h.shuffles.trans h'.shuffles

/-- The circuit after some calls. -/
def afterAll (c : Circuit) (calls : List Call) : Circuit := calls.foldl after c

/-- A run of calls keeps what is registered, in its place. -/
theorem extends_afterAll (c : Circuit) (calls : List Call) : (c.afterAll calls).Extends c := by
  induction calls generalizing c with
  | nil => exact Extends.refl c
  | cons call calls ih => exact (c.extends_after call).trans (ih (c.after call))

end Circuit

/-! ## Larger spaces -/

namespace Lowering

open VariableSpace

variable {V V' : VariableSpace}

theorem leaf_of_extends (h : V'.Extends V) {l : Leaf} (hl : V.Finds l) : leaf V' l = leaf V l := by
  cases l with
  | constant v => rfl
  | query q =>
    obtain ⟨i, hi⟩ := (exists_indexOf_iff (queryClass_ne_challenge q)).2 hl
    have hi : V.indexOf (.ofKind q.column.kind) q.column q.rotation = .ok i := hi
    rw [leaf, leaf, hi, h.indexOf_eq hi]
  | challenge i phase =>
    obtain ⟨j, hj⟩ := exists_challengeIndex_iff.2 hl
    rw [leaf, leaf, hj, h.challengeIndex_eq hj]
  | selector i => rfl

/-- An expression whose leaves are found is lowered in the same way in a larger space. -/
theorem expr_of_extends (h : V'.Extends V) {e : Expr} (he : ∀ l ∈ e.leaves, V.Finds l) :
    expr V' e = expr V e := by
  induction e with
  | leaf l =>
    rw [expr_leaf, expr_leaf]
    exact leaf_of_extends h (he l List.mem_cons_self)
  | neg e ih => rw [expr_neg, expr_neg, ih he]
  | sum a b iha ihb =>
    obtain ⟨ha, hb⟩ := List.forall_mem_append.1 he
    rw [expr_sum, expr_sum, iha ha, ihb hb]
  | product a b iha ihb =>
    obtain ⟨ha, hb⟩ := List.forall_mem_append.1 he
    rw [expr_product, expr_product, iha ha, ihb hb]

theorem gate_of_extends (h : V'.Extends V) {g : Gate Expr}
    (hg : ∀ e ∈ g.polys, ∀ l ∈ e.leaves, V.Finds l) : gate V' g = gate V g := by
  have hpolys : exprs V' g.polys = exprs V g.polys :=
    mapM_congr fun e he => expr_of_extends h (hg e he)
  rw [gate, gate, hpolys]

theorem length_of_runAt_mapM {α β : Type} {f : α → Lowering β} {xs : List α} {ys : List β}
    {t t' : ConstantTable} (h : (xs.mapM f).runAt t = (.ok ys, t')) : ys.length = xs.length := by
  induction xs generalizing t ys with
  | nil =>
    cases h
    rfl
  | cons x xs ih =>
    rw [List.mapM_cons] at h
    obtain ⟨y, ys, t₁, -, hys, rfl⟩ := runAt_pair_eq_ok_iff.1 h
    rw [List.length_cons, List.length_cons, ih hys]

end Lowering

/-! ## Gates -/

/-- The literals of the gates of a circuit, in the order in which they are lowered. -/
def Circuit.gateLiterals (c : Circuit) : List Scalar :=
  (c.gates.flatMap Gate.polys).flatMap Expr.literals

/-- When the gates are lowered, the table has their literals. -/
theorem Lowering.entries_of_runAt_gates {c : Circuit} {V : VariableSpace} {gates : List (Gate Ir)}
    {t : ConstantTable} (h : (c.gates.mapM (gate V)).runAt {} = (.ok gates, t)) :
    t.entries = c.gateLiterals.eraseDups.map Scalar.toBytes := by
  have hpolys : (exprs V (c.gates.flatMap Gate.polys)).runAt {} =
      (.ok (gates.flatMap Gate.polys), t) := by
    rw [exprs, ← flatMap_mapM (polys_gate V), runAt_map, h]
    rfl
  exact (exprs_enters V _ ConstantTable.holds_empty hpolys).1.entries

namespace Outline

open Lowering

variable {k k' : Int} {c : Circuit} {key key' : VerifyingKey} {o o' : Outline}

/-- The gates are lowered first, and what follows only adds to the table. -/
theorem exists_runAt_gates (h : ofCircuit k c key = .ok o) :
    ∃ t, (c.gates.mapM (gate (.ofCircuit c))).runAt {} = (.ok o.gates, t) ∧
      t.entries <+: o.constants := by
  obtain ⟨-, -, -, parts, t', hrun, rfl⟩ := ofCircuit_eq_ok_iff.1 h
  obtain ⟨⟨⟩, t₀, hcheck, hrun⟩ := runAt_bind_eq_ok_iff.1 hrun
  obtain rfl : t₀ = {} := (congrArg Prod.snd hcheck).symm
  obtain ⟨gates, t, hgates, hrest⟩ := runAt_bind_eq_ok_iff.1 hrun
  obtain ⟨lookups, shuffles, t₁, hlookups, hshuffles, rfl⟩ := runAt_pair_eq_ok_iff.1 hrest
  have hfirst := (Stable.mapM (argument_stable _) c.lookups).grows.reaches hlookups
  have hsecond := (Stable.mapM (argument_stable _) c.shuffles).grows.reaches hshuffles
  exact ⟨t, hgates, (hfirst.trans hsecond).prefix_entries⟩

/-- The gates of an outline are the first ones of the outline of an extended circuit, and the
constants that are first met in them are the first ones of both tables. -/
theorem gates_of_extension {calls : List Call} (h : ofCircuit k c key = .ok o)
    (h' : ofCircuit k' (c.afterAll calls) key' = .ok o') :
    (o.gates.length = c.gates.length ∧ o.gates <+: o'.gates) ∧
      c.gateLiterals.eraseDups.map Scalar.toBytes <+: o.constants ∧
        c.gateLiterals.eraseDups.map Scalar.toBytes <+: o'.constants := by
  have hextends := c.extends_afterAll calls
  have hfinds : ∀ e ∈ c.exprs, ∀ l ∈ e.leaves, (VariableSpace.ofCircuit c).Finds l :=
    (exists_ofCircuit_iff.1 ⟨o, h⟩).2.2.2
  obtain ⟨t, hgates, hprefix⟩ := exists_runAt_gates h
  obtain ⟨t', hgates', hprefix'⟩ := exists_runAt_gates h'
  obtain ⟨more, hmore⟩ := hextends.gates
  -- The extended circuit begins with the same gates, which are lowered in its own space.
  rw [← hmore, List.mapM_append] at hgates'
  obtain ⟨gates, rest, t₁, hfirst, hrest, hsplit⟩ := runAt_pair_eq_ok_iff.1 hgates'
  have hsame : c.gates.mapM (gate (.ofCircuit (c.afterAll calls))) =
      c.gates.mapM (gate (.ofCircuit c)) := by
    refine mapM_congr fun g hg => gate_of_extends hextends.space fun e he => hfinds e ?_
    exact List.mem_append_left _ (List.mem_append_left _ (List.mem_flatMap_of_mem hg he))
  rw [hsame, hgates] at hfirst
  obtain ⟨⟨⟩, rfl⟩ := Prod.mk.inj hfirst
  have hgrows := (Stable.mapM (gate_stable _) more).grows.reaches hrest
  rw [← entries_of_runAt_gates hgates]
  exact ⟨⟨length_of_runAt_mapM hgates, rest, hsplit⟩, hprefix,
    hgrows.prefix_entries.trans hprefix'⟩

/-- Another query, a challenge and a gate with a constant of its own, which comes to stand in front
of the lookup. -/
def challenged : List Call :=
  [.query default ⟨1, true⟩, .allocChallenge 0,
    .addGate .null [.product (.constant 7) (.leaf (.challenge 0 0))]]

theorem gates_of_extension_challenged :
    ∃ o', ofCircuit 4 affine default = .ok affineOutline ∧
      ofCircuit 5 (affine.afterAll challenged) default = .ok o' ∧
        affineOutline.gates <+: o'.gates ∧ [2, 3].map Scalar.toBytes <+: o'.constants := by
  obtain ⟨o', ho'⟩ : ∃ o', ofCircuit 5 (affine.afterAll challenged) default = .ok o' :=
    Outcome.exists_of_isSome_toOption (by decide +kernel)
  obtain ⟨⟨-, hgates⟩, -, hconstants⟩ := gates_of_extension ofCircuit_affine ho'
  have hliterals : affine.gateLiterals.eraseDups = [2, 3] := by decide +kernel
  rw [hliterals] at hconstants
  exact ⟨o', ofCircuit_affine, ho', hgates, hconstants⟩

end Outline

end Plonkish
