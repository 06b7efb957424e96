import Mathlib.NumberTheory.LucasPrimality
import Mathlib.Tactic.NormNum.Prime
import Plonkish.Scalar

/-!
# The modulus is prime

Lucas's test, with the large factors of one less than the modulus tested in the same way before it.

* `Scalar.LucasTest`: the test of a number whose predecessor is factored.
* `Scalar.LucasTest.prime_of_passes`: a number that passes is prime.
* `Scalar.prime_modulus`: the modulus passes.
-/

namespace Plonkish.Scalar

/-- A power modulo `m`, by repeated squaring, of an exponent with at most `digits` binary digits. -/
def powMod (m : Nat) : (digits x n : Nat) → Nat
  | 0, _, _ => 1 % m
  | digits + 1, x, n =>
    let y := powMod m digits (x * x % m) (n / 2)
    if n % 2 = 0 then y else y * x % m

theorem powMod_eq {m digits x n : Nat} (h : n < 2 ^ digits) : powMod m digits x n = x ^ n % m := by
  induction digits generalizing x n with
  | zero =>
    obtain rfl := Nat.lt_one_iff.1 h
    rw [powMod, pow_zero]
  | succ digits ih =>
    rw [pow_succ] at h
    have hhalf : powMod m digits (x * x % m) (n / 2) = x ^ (2 * (n / 2)) % m := by
      rw [ih (by omega), ← Nat.pow_mod, pow_mul, pow_two]
    rw [powMod, hhalf]
    split
    · rw [show 2 * (n / 2) = n by omega]
    · rw [Nat.mod_mul_mod, ← pow_succ, show 2 * (n / 2) + 1 = n by omega]

/-- A number, a base whose powers show that it is prime, and the factors of its predecessor with
their exponents. -/
structure LucasTest where
  number : Nat
  base : Nat
  factors : List (Nat × Nat)

namespace LucasTest

variable {known : List Nat} {l : LucasTest} {n : Nat}

/-- A power of the base modulo the number. -/
def power (l : LucasTest) (n : Nat) : Nat := powMod l.number (l.number.log2 + 1) l.base n

theorem power_eq_one_iff (hone : 1 < l.number) (hn : n < l.number) :
    l.power n = 1 ↔ (l.base : ZMod l.number) ^ n = 1 := by
  have hdigits : n < 2 ^ (l.number.log2 + 1) := Nat.lt_trans hn Nat.lt_log2_self
  have hcast := ZMod.natCast_eq_natCast_iff' (l.base ^ n) 1 l.number
  rw [Nat.mod_eq_of_lt hone, Nat.cast_pow, Nat.cast_one] at hcast
  rw [power, powMod_eq hdigits, hcast]

/-- The factors are known to be primes and have the predecessor of the number as their product, and
the base is of that order. -/
def Passes (known : List Nat) (l : LucasTest) : Prop :=
  1 < l.number ∧ (∀ f ∈ l.factors, f.1 ∈ known) ∧
    (l.factors.map fun f => f.1 ^ f.2).prod = l.number - 1 ∧
    l.power (l.number - 1) = 1 ∧ ∀ f ∈ l.factors, l.power ((l.number - 1) / f.1) ≠ 1

instance : Decidable (l.Passes known) := inferInstanceAs (Decidable (_ ∧ _ ∧ _ ∧ _ ∧ _))

theorem prime_of_passes (hknown : ∀ q ∈ known, q.Prime) (h : l.Passes known) :
    l.number.Prime := by
  obtain ⟨hlt, hfactors, hprod, horder, hne⟩ := h
  refine lucas_primality l.number l.base ?_ fun q hq hdvd => ?_
  · exact (power_eq_one_iff hlt (by omega)).1 horder
  · rw [← hprod] at hdvd
    obtain ⟨x, hx, hdvd⟩ := (Prime.dvd_prod_iff hq.prime).1 hdvd
    obtain ⟨f, hf, rfl⟩ := List.mem_map.1 hx
    have hfactor := hknown f.1 (hfactors f hf)
    rw [(Nat.prime_dvd_prime_iff_eq hq hfactor).1 (hq.dvd_of_dvd_pow hdvd)]
    have hquotient : (l.number - 1) / f.1 < l.number :=
      Nat.lt_of_le_of_lt (Nat.div_le_self _ _) (by omega)
    exact fun hpow => hne f hf ((power_eq_one_iff hlt hquotient).2 hpow)

/-- Each test passes where the numbers of the earlier ones are known to be prime. -/
def AllPass : (known : List Nat) → List LucasTest → Prop
  | _, [] => True
  | known, l :: tests => l.Passes known ∧ AllPass (l.number :: known) tests

instance : ∀ (known : List Nat) (tests : List LucasTest), Decidable (AllPass known tests)
  | _, [] => inferInstanceAs (Decidable True)
  | known, l :: tests =>
    let := instDecidableAllPass (l.number :: known) tests
    inferInstanceAs (Decidable (_ ∧ _))

theorem prime_of_allPass {tests : List LucasTest} (hknown : ∀ q ∈ known, q.Prime)
    (h : AllPass known tests) : ∀ l ∈ tests, l.number.Prime := by
  induction tests generalizing known with
  | nil => simp
  | cons l tests ih =>
    obtain ⟨hpasses, hrest⟩ := h
    have hprime := prime_of_passes hknown hpasses
    exact List.forall_mem_cons.2 ⟨hprime, ih (List.forall_mem_cons.2 ⟨hprime, hknown⟩) hrest⟩

end LucasTest

/-! ## The modulus -/

/-- The small primes below. -/
def smallPrimes : List Nat :=
  [2, 3, 5, 7, 11, 13, 29, 83, 107, 229, 379, 661, 823, 853, 983, 1637, 3691, 4999, 11003, 93001,
    237073, 1593227]

theorem prime_of_mem_smallPrimes : ∀ q ∈ smallPrimes, q.Prime := by
  simp only [smallPrimes, List.forall_mem_cons, List.not_mem_nil, false_implies, implies_true,
    and_true]
  norm_num

/-- The tests of the modulus and of all large primes that it rests on. -/
def modulusTests : List LucasTest := [
  ⟨405928799, 22, [(2, 1), (11, 1), (3691, 1), (4999, 1)]⟩,
  ⟨639533339, 2, [(2, 1), (229, 1), (853, 1), (1637, 1)]⟩,
  ⟨12048837557, 2, [(2, 2), (7, 2), (661, 1), (93001, 1)]⟩,
  ⟨5156902474397, 2, [(2, 2), (107, 1), (12048837557, 1)]⟩,
  ⟨1670836401704629, 2, [(2, 2), (3, 4), (5156902474397, 1)]⟩,
  ⟨65865678001877903, 5, [(2, 1), (83, 1), (379, 1), (1637, 1), (639533339, 1)]⟩,
  ⟨13818364434197438864469338081, 3,
    [(2, 5), (5, 1), (823, 1), (1593227, 1), (65865678001877903, 1)]⟩,
  ⟨modulus, 5, [(2, 28), (3, 2), (13, 1), (29, 1), (983, 1), (11003, 1), (237073, 1),
    (405928799, 1), (1670836401704629, 1), (13818364434197438864469338081, 1)]⟩]

theorem prime_modulus : modulus.Prime := by
  have hpass : LucasTest.AllPass smallPrimes modulusTests := by decide +kernel
  have hlast : modulusTests.getLast (List.cons_ne_nil _ _) ∈ modulusTests := List.getLast_mem _
  exact LucasTest.prime_of_allPass prime_of_mem_smallPrimes hpass _ hlast

end Plonkish.Scalar
