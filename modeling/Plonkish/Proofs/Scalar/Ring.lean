import Mathlib.Data.ZMod.Defs
import Mathlib.Tactic.Ring
import Plonkish.Proofs.Scalar.Prime

/-!
# The ring of scalars

* `Scalar.pow_eq`: repeated squaring computes powers.
* `Scalar.mul_ne_zero`: a product of scalars other than zero is not zero.
-/

namespace Plonkish.Scalar

open Fin.CommRing in
instance : CommRing Scalar := inferInstanceAs (CommRing (Fin modulus))

/-- Repeated squaring computes powers. -/
theorem pow_eq (x : Scalar) (n : Nat) : pow x n = x ^ n := by
  fun_induction pow x n with
  | case1 x => rw [pow_zero]
  | case2 x n _ y heven ih =>
    rw [show y = (x * x) ^ (n / 2) from ih, ← pow_two, ← pow_mul]
    congr 1
    omega
  | case3 x n _ y hodd ih =>
    rw [show y = (x * x) ^ (n / 2) from ih, ← pow_two, ← pow_mul, ← pow_succ']
    congr 1
    omega

/-- A product of scalars other than zero is not zero: the modulus is prime. -/
theorem mul_ne_zero {x y : Scalar} (hx : x ≠ 0) (hy : y ≠ 0) : x * y ≠ 0 := by
  have hpos : ∀ {z : Scalar}, z ≠ 0 → ¬modulus ∣ z.val := by
    intro z hz hdvd
    exact hz (Fin.ext (Nat.eq_zero_of_dvd_of_lt hdvd z.isLt))
  intro h
  have hdvd : modulus ∣ x.val * y.val := Nat.dvd_of_mod_eq_zero (congrArg Fin.val h)
  rcases prime_modulus.dvd_mul.1 hdvd with hdvd | hdvd
  · exact hpos hx hdvd
  · exact hpos hy hdvd

end Plonkish.Scalar
