import Plonkish.Proofs.Monomial.Exponent
import Plonkish.Proofs.Poly.Value

/-!
# Polynomials that are built

A polynomial is built by the checked constructors and the operations, applied any number of times
in any order. Each of them keeps polynomials well-formed, so every polynomial that is built is.

* `Poly.Built`: the polynomials that are built.
* `Poly.Built.wellFormed`: they are well-formed.
* `Poly.isNormal_of_built`: they pass the test of normal forms, and can be evaluated.
-/

namespace Plonkish

open Outcome

namespace Monomial

/-- A monomial is built from signed factors, and from others by multiplication. -/
inductive Built : Monomial → Prop
  | ofSigned {m : Monomial} {factors : List (Int × Int)} (h : ofSigned factors = .ok m) : Built m
  | mul {m n : Monomial} (hm : Built m) (hn : Built n) : Built (m.mul n)

theorem Built.isNormal {m : Monomial} (h : m.Built) : m.IsNormal := by
  induction h with
  | ofSigned h => exact isNormal_ofSigned h
  | mul _ _ ihm ihn => exact isNormal_mul ihm ihn

end Monomial

namespace Poly

/-- A polynomial is built by the constructors, where they do not fail, and from others by the
operations. The scalar of a multiple may be any residue. -/
inductive Built : Poly → Prop
  | ofTerms {p : Poly} {n : Int} {terms : List Term} (hmonomials : ∀ t ∈ terms, t.2.Built)
    (h : ofTerms n terms = .ok p) : Built p
  | zero (n : Int) : Built (zero n)
  | ofConstant {p : Poly} {n : Int} {v : Scalar} (h : ofConstant n v = .ok p) : Built p
  | ofSigned {p : Poly} {n i : Int} (h : ofSigned n i = .ok p) : Built p
  | add {p q : Poly} (hp : Built p) (hq : Built q) : Built (p.add q)
  | neg {p : Poly} (hp : Built p) : Built p.neg
  | sub {p q : Poly} (hp : Built p) (hq : Built q) : Built (p.sub q)
  | scale {p : Poly} (hp : Built p) (s : Scalar) : Built (p.scale s)
  | mul {p q : Poly} (hp : Built p) (hq : Built q) : Built (p.mul q)

variable {p q : Poly}

theorem wellFormed_ofConstant {n : Int} {v : Scalar} (h : ofConstant n v = .ok p) :
    p.WellFormed := by
  rw [eq_literal_of_ofConstant h]
  exact wellFormed_literal n v

theorem wellFormed_ofSigned {n i : Int} (h : ofSigned n i = .ok p) : p.WellFormed := by
  obtain ⟨m, hm, h⟩ := bind_eq_ok_iff.1 h
  exact wellFormed_ofTerms (List.forall_mem_singleton.2 (Monomial.isNormal_ofSigned hm)) h

/-- Polynomials that are built are well-formed. -/
theorem Built.wellFormed (h : p.Built) : p.WellFormed := by
  induction h with
  | ofTerms hmonomials h => exact wellFormed_ofTerms (fun t ht => (hmonomials t ht).isNormal) h
  | zero n => exact wellFormed_zero n
  | ofConstant h => exact wellFormed_ofConstant h
  | ofSigned h => exact wellFormed_ofSigned h
  | add _ _ ihp ihq => exact ihp.add ihq
  | neg _ ih => exact ih.neg
  | sub _ _ ihp ihq => exact ihp.add ihq.neg
  | scale _ s ih => exact ih.scale s
  | mul _ _ ihp ihq => exact ihp.mul ihq

/-- Polynomials that are built are in normal form, with normal monomials in variables below their
numbers of variables. So they pass the test, and have a value at every point that is long
enough. -/
theorem isNormal_of_built (h : p.Built) :
    p.WellFormed ∧ isNormalized p.terms = true ∧
      ∀ point : List Scalar, p.numVars ≤ point.length → ∃ y, p.eval point = .ok y :=
  ⟨h.wellFormed, isNormalized_iff.2 h.wellFormed.normal, fun _ hsize =>
    ⟨_, eval_eq_getD h.wellFormed hsize⟩⟩

/-- The product of the sum and the difference of two variables. Two of its terms cancel. -/
def squares : Poly :=
  ((indeterminate 2 0).add (indeterminate 2 1)).mul ((indeterminate 2 0).sub (indeterminate 2 1))

theorem built_indeterminate {n : Int} {i : Nat} (h : (i : Int) < n) : (indeterminate n i).Built :=
  .ofSigned ((ofSigned_natCast n i).trans (ofVariable_eq h))

theorem built_squares : squares.Built := by
  have hx : (indeterminate 2 0).Built := built_indeterminate (by decide)
  have hy : (indeterminate 2 1).Built := built_indeterminate (by decide)
  exact (hx.add hy).mul (hx.sub hy)

theorem isNormal_squares :
    squares.Built ∧ squares.WellFormed ∧ ∃ y, squares.eval [5, 3] = .ok y := by
  obtain ⟨hwf, -, heval⟩ := isNormal_of_built built_squares
  exact ⟨built_squares, hwf, heval [5, 3] (by decide +kernel)⟩

end Poly

end Plonkish
