import Mathlib.Data.List.Forall2

/-!
# Outcomes of computations that may fail

How sequences and traversals in `Except` end, for use with `simp`: a `do` block that succeeds is
the chain of its successful steps.

* `Outcome.bind_eq_ok_iff`: the first step succeeds, and the second with what it gave.
* `Outcome.mapM_eq_ok_iff`: a traversal succeeds exactly if every item does.
-/

namespace Plonkish.Outcome

variable {ε α β γ : Type}

theorem bind_eq_ok_iff {x : Except ε α} {f : α → Except ε β} {b : β} :
    (x >>= f) = .ok b ↔ ∃ a, x = .ok a ∧ f a = .ok b := by
  cases x <;> simp [bind, Except.bind]

theorem exists_of_isSome_toOption {x : Except ε α} (h : x.toOption.isSome) : ∃ a, x = .ok a := by
  cases x with
  | ok a => exact ⟨a, rfl⟩
  | error e => cases h

theorem bind_eq_error_iff {x : Except ε α} {f : α → Except ε β} {e : ε} :
    (x >>= f) = .error e ↔ x = .error e ∨ ∃ a, x = .ok a ∧ f a = .error e := by
  cases x <;> simp [bind, Except.bind]

theorem pure_eq_ok_iff {a b : α} : (pure a : Except ε α) = .ok b ↔ a = b := by
  simp [pure, Except.pure]

theorem pure_ne_error {a : α} {e : ε} : (pure a : Except ε α) ≠ .error e := by
  simp [pure, Except.pure]

theorem mapError_eq_ok_iff {ε' : Type} {g : ε → ε'} {x : Except ε α} {a : α} :
    x.mapError g = .ok a ↔ x = .ok a := by
  cases x <;> simp [Except.mapError]

theorem mapError_eq_error_iff {ε' : Type} {g : ε → ε'} {x : Except ε α} {e : ε'} :
    x.mapError g = .error e ↔ ∃ d, x = .error d ∧ g d = e := by
  cases x <;> simp [Except.mapError]

/-- If the second step succeeds whatever the first one gave, or never, both are independent. -/
theorem exists_bind_iff {x : Except ε α} {f : α → Except ε β} {P : Prop}
    (hf : ∀ a, (∃ b, f a = .ok b) ↔ P) :
    (∃ b, (x >>= f) = .ok b) ↔ (∃ a, x = .ok a) ∧ P := by
  simp only [bind_eq_ok_iff]
  constructor
  · rintro ⟨b, a, ha, hb⟩
    exact ⟨⟨a, ha⟩, (hf a).1 ⟨b, hb⟩⟩
  · rintro ⟨⟨a, ha⟩, hP⟩
    obtain ⟨b, hb⟩ := (hf a).2 hP
    exact ⟨b, a, ha, hb⟩

theorem exists_bind_pure_iff {x : Except ε α} {f : α → β} :
    (∃ b, (do let a ← x; return f a) = .ok b) ↔ ∃ a, x = .ok a :=
  (exists_bind_iff fun a => iff_true_intro ⟨f a, rfl⟩).trans (and_iff_left trivial)

/-- A traversal gives item by item what the step gives. -/
theorem mapM_eq_ok_iff {f : α → Except ε β} {xs : List α} {ys : List β} :
    xs.mapM f = .ok ys ↔ List.Forall₂ (fun x y => f x = .ok y) xs ys := by
  induction xs generalizing ys with
  | nil => cases ys <;> simp [pure, Except.pure]
  | cons x xs ih =>
    rw [List.mapM_cons]
    simp only [bind_eq_ok_iff, pure_eq_ok_iff]
    constructor
    · rintro ⟨y, hy, ys', hys, rfl⟩
      exact .cons hy (ih.1 hys)
    · rintro (_ | ⟨hy, hys⟩)
      exact ⟨_, hy, _, ih.2 hys, rfl⟩

/-- A traversal fails with the error of some item. -/
theorem exists_of_mapM_eq_error {f : α → Except ε β} {xs : List α} {e : ε}
    (h : xs.mapM f = .error e) : ∃ x ∈ xs, f x = .error e := by
  induction xs with
  | nil => exact absurd h pure_ne_error
  | cons x xs ih =>
    rw [List.mapM_cons, bind_eq_error_iff] at h
    rcases h with h | ⟨y, -, h⟩
    · exact ⟨x, List.mem_cons_self, h⟩
    · rw [bind_eq_error_iff] at h
      rcases h with h | ⟨ys, -, h⟩
      · obtain ⟨z, hz, he⟩ := ih h
        exact ⟨z, List.mem_cons_of_mem x hz, he⟩
      · exact absurd h pure_ne_error

/-- A traversal succeeds exactly if every item does. -/
theorem exists_mapM_eq_ok_iff {f : α → Except ε β} {xs : List α} :
    (∃ ys, xs.mapM f = .ok ys) ↔ ∀ x ∈ xs, ∃ y, f x = .ok y := by
  induction xs with
  | nil => simp [pure, Except.pure]
  | cons x xs ih =>
    simp only [List.mapM_cons, bind_eq_ok_iff, pure_eq_ok_iff, List.forall_mem_cons, ← ih]
    constructor
    · rintro ⟨_, y, hy, ys, hys, rfl⟩
      exact ⟨⟨y, hy⟩, ys, hys⟩
    · rintro ⟨⟨y, hy⟩, ys, hys⟩
      exact ⟨y :: ys, y, hy, ys, hys, rfl⟩

theorem length_of_mapM {f : α → Except ε β} {xs : List α} {ys : List β} (h : xs.mapM f = .ok ys) :
    xs.length = ys.length :=
  (mapM_eq_ok_iff.1 h).length_eq

/-- What a traversal gives comes from some item. -/
theorem exists_of_mem_of_mapM {f : α → Except ε β} {xs : List α} {ys : List β}
    (h : xs.mapM f = .ok ys) {y : β} (hy : y ∈ ys) : ∃ x ∈ xs, f x = .ok y := by
  have hall := mapM_eq_ok_iff.1 h
  clear h
  induction hall with
  | nil => cases hy
  | cons hx _ ih =>
    rcases List.mem_cons.1 hy with rfl | hy
    · exact ⟨_, List.mem_cons_self, hx⟩
    · obtain ⟨x, hx, hfx⟩ := ih hy
      exact ⟨x, List.mem_cons_of_mem _ hx, hfx⟩

/-- Two traversals of one list give results for the same items. -/
theorem forall₂_of_mapM {f : α → Except ε β} {g : α → Except ε γ} {R : β → γ → Prop}
    {xs : List α} {ys : List β} {zs : List γ} (hf : xs.mapM f = .ok ys) (hg : xs.mapM g = .ok zs)
    (h : ∀ x ∈ xs, ∀ y z, f x = .ok y → g x = .ok z → R y z) : List.Forall₂ R ys zs := by
  have hys := mapM_eq_ok_iff.1 hf
  have hzs := mapM_eq_ok_iff.1 hg
  clear hf hg
  induction hys generalizing zs with
  | nil =>
    cases hzs
    exact .nil
  | cons hx _ ih =>
    obtain ⟨hhead, htail⟩ := List.forall_mem_cons.1 h
    cases hzs with
    | cons hz hzs => exact .cons (hhead _ _ hx hz) (ih htail hzs)

/-- Two traversals that undo each other item by item undo each other. -/
theorem mapM_eq_ok_iff_mapM {ε' : Type} {f : α → Except ε β} {g : β → Except ε' α}
    {P : α → Prop} (h : ∀ x y, g y = .ok x ↔ f x = .ok y ∧ P x) {xs : List α} {ys : List β} :
    ys.mapM g = .ok xs ↔ xs.mapM f = .ok ys ∧ ∀ x ∈ xs, P x := by
  have hswap : List.Forall₂ (fun y x => f x = .ok y ∧ P x) ys xs ↔
      List.Forall₂ (fun x y => P x ∧ f x = .ok y) xs ys :=
    ⟨fun hs => .flip (hs.imp fun _ _ hxy => hxy.symm),
      fun hs => .flip (hs.imp fun _ _ hxy => hxy.symm)⟩
  rw [mapM_eq_ok_iff, mapM_eq_ok_iff]
  simp only [h]
  rw [hswap, List.forall₂_and_left, and_comm]

/-- A traversal for pairs is two traversals. -/
theorem mapM_pair_eq_ok_iff {f : α → Except ε β} {g : α → Except ε γ} {xs : List α}
    {ys : List (β × γ)} :
    (xs.mapM fun x => do
        let y ← f x
        let z ← g x
        return (y, z)) = .ok ys ↔
      xs.mapM f = .ok (ys.map Prod.fst) ∧ xs.mapM g = .ok (ys.map Prod.snd) := by
  simp only [mapM_eq_ok_iff, List.forall₂_map_right_iff, bind_eq_ok_iff, pure_eq_ok_iff]
  constructor
  · intro h
    refine ⟨h.imp ?_, h.imp ?_⟩
    · rintro x _ ⟨y, hy, z, -, rfl⟩
      exact hy
    · rintro x _ ⟨y, -, z, hz, rfl⟩
      exact hz
  · rintro ⟨hf, hg⟩
    induction hf with
    | nil => exact .nil
    | cons hy _ ih =>
      cases hg with
      | cons hz hg => exact .cons ⟨_, hy, _, hz, rfl⟩ (ih hg)

/-! ## Verdicts -/

/-- Whether a computation succeeds, and its error if not. -/
def verdict (x : Except ε α) : Except ε Unit := x.map fun _ => ()

theorem verdict_eq_ok_iff {x : Except ε α} : verdict x = .ok () ↔ ∃ y, x = .ok y := by
  cases x <;> simp [verdict, Except.map]

theorem verdict_eq_error_iff {x : Except ε α} {e : ε} : verdict x = .error e ↔ x = .error e := by
  cases x <;> simp [verdict, Except.map]

theorem verdict_map (x : Except ε α) (f : α → β) : verdict (x.map f) = verdict x := by
  cases x <;> rfl

/-- If the verdict on the second step does not depend on what the first one gave, both are judged
one after the other. -/
theorem verdict_bind {x : Except ε α} {f : α → Except ε β} {r : Except ε Unit}
    (h : ∀ a, verdict (f a) = r) : verdict (x >>= f) = (do verdict x; r) := by
  cases x with
  | ok a => exact h a
  | error e => rfl

theorem verdict_bind_pure {x : Except ε α} {f : α → β} :
    verdict (do let a ← x; return f a) = verdict x := by
  cases x <;> rfl

/-- A traversal is judged item by item. -/
theorem verdict_mapM (f : α → Except ε β) (xs : List α) :
    verdict (xs.mapM f) = forM xs fun x => verdict (f x) := by
  induction xs with
  | nil => rfl
  | cons x xs ih =>
    rw [List.mapM_cons, List.forM_cons]
    refine verdict_bind fun y => ?_
    rw [← ih]
    exact verdict_bind_pure

theorem forM_flatMap (f : β → Except ε Unit) (parts : α → List β) (xs : List α) :
    forM (xs.flatMap parts) f = forM xs fun x => forM (parts x) f := by
  induction xs with
  | nil => rfl
  | cons x xs ih => rw [List.flatMap_cons, List.forM_append, List.forM_cons, ih]

/-- A traversal for its verdict finds the first item that fails, whatever its error is called. -/
theorem forM_mapError {ε' : Type} (g : ε → ε') (f : α → Except ε Unit) (xs : List α) :
    (forM xs fun x => (f x).mapError g) = (forM xs f).mapError g := by
  induction xs with
  | nil => rfl
  | cons x xs ih =>
    rw [List.forM_cons, List.forM_cons, ih]
    cases f x <;> rfl

theorem forM_eq_ok_iff {f : α → Except ε Unit} {xs : List α} :
    forM xs f = .ok () ↔ ∀ x ∈ xs, f x = .ok () := by
  induction xs with
  | nil => simp [pure, Except.pure]
  | cons x xs ih =>
    rw [List.forM_cons, bind_eq_ok_iff, List.forall_mem_cons, ← ih]
    exact ⟨fun ⟨(), hx, hxs⟩ => ⟨hx, hxs⟩, fun ⟨hx, hxs⟩ => ⟨(), hx, hxs⟩⟩

/-- A traversal for its verdict fails with the error of some item. -/
theorem exists_of_forM_eq_error {f : α → Except ε Unit} {xs : List α} {e : ε}
    (h : forM xs f = .error e) : ∃ x ∈ xs, f x = .error e := by
  induction xs with
  | nil => exact absurd h pure_ne_error
  | cons x xs ih =>
    rw [List.forM_cons, bind_eq_error_iff] at h
    rcases h with h | ⟨-, -, h⟩
    · exact ⟨x, List.mem_cons_self, h⟩
    · obtain ⟨y, hy, he⟩ := ih h
      exact ⟨y, List.mem_cons_of_mem x hy, he⟩

/-! ## Failures -/

/-- All failures of an outcome have a property. -/
def FailsOnly (P : ε → Prop) (x : Except ε α) : Prop := ∀ e, x = .error e → P e

variable {P : ε → Prop}

/-- An outcome is a result, or an error that has the property. -/
theorem FailsOnly.cases {x : Except ε α} (h : FailsOnly P x) :
    (∃ y, x = .ok y) ∨ ∃ e, x = .error e ∧ P e := by
  cases x with
  | ok y => exact .inl ⟨y, rfl⟩
  | error e => exact .inr ⟨e, rfl, h e rfl⟩

theorem failsOnly_ok {x : α} : FailsOnly P (.ok x : Except ε α) := by
  rintro e ⟨⟩

theorem failsOnly_pure {x : α} : FailsOnly P (pure x : Except ε α) := failsOnly_ok

theorem failsOnly_error {e : ε} (h : P e) : FailsOnly P (.error e : Except ε α) := by
  rintro e ⟨⟩
  exact h

theorem FailsOnly.bind {x : Except ε α} {f : α → Except ε β} (hx : FailsOnly P x)
    (hf : ∀ y, FailsOnly P (f y)) : FailsOnly P (x >>= f) := by
  intro e h
  rcases bind_eq_error_iff.1 h with h | ⟨y, -, h⟩
  · exact hx e h
  · exact hf y e h

theorem FailsOnly.mapM {f : α → Except ε β} (hf : ∀ x, FailsOnly P (f x)) (xs : List α) :
    FailsOnly P (xs.mapM f) := by
  intro e h
  obtain ⟨x, -, hx⟩ := exists_of_mapM_eq_error h
  exact hf x e hx

theorem FailsOnly.mapError {ε' : Type} {P : ε' → Prop} {f : ε → ε'} {x : Except ε α}
    (hf : ∀ e, P (f e)) : FailsOnly P (x.mapError f) := by
  intro e h
  obtain ⟨e', -, rfl⟩ := mapError_eq_error_iff.1 h
  exact hf e'

/-! ## Failures and results -/

/-- All failures of an outcome have one property, and its result has another. -/
def Yields (P : ε → Prop) (Q : α → Prop) : Except ε α → Prop
  | .ok x => Q x
  | .error e => P e

variable {Q : α → Prop} {R : β → Prop}

theorem Yields.bind {x : Except ε α} {f : α → Except ε β} (hx : Yields P Q x)
    (hf : ∀ y, Q y → Yields P R (f y)) : Yields P R (x >>= f) := by
  cases x with
  | ok y => exact hf y hx
  | error e => exact hx

theorem Yields.imp {x : Except ε α} {Q' : α → Prop} (hx : Yields P Q x) (h : ∀ y, Q y → Q' y) :
    Yields P Q' x := by
  cases x with
  | ok y => exact h y hx
  | error e => exact hx

theorem FailsOnly.yields {x : Except ε α} (h : FailsOnly P x) : Yields P (fun _ => True) x := by
  cases x with
  | ok y => trivial
  | error e => exact h e rfl

theorem Yields.failsOnly {x : Except ε α} (h : Yields P Q x) : FailsOnly P x := by
  rintro e rfl
  exact h

/-- A traversal yields what each item does. -/
theorem Yields.mapM {f : α → Except ε β} {xs : List α} (h : ∀ x ∈ xs, Yields P R (f x)) :
    Yields P (fun ys => ∀ y ∈ ys, R y) (xs.mapM f) := by
  induction xs with
  | nil => exact List.forall_mem_nil R
  | cons x xs ih =>
    obtain ⟨hx, hxs⟩ := List.forall_mem_cons.1 h
    rw [List.mapM_cons]
    exact hx.bind fun y hy => (ih hxs).bind fun ys hys => List.forall_mem_cons.2 ⟨hy, hys⟩

end Plonkish.Outcome
