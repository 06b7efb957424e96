import Plonkish.Monomial

/-!
# Sparse polynomials

A polynomial is a list of terms, a coefficient with a monomial each. In normal form the monomials
strictly increase and no coefficient is zero. The constructors and operations give normal forms;
a term list can also be taken as it stands.

* `Poly.coeff`: the view of a polynomial as a function from monomials to coefficients.
* `Poly.IsNormal`: the normal form, decided by `Poly.isNormalized`.
* `Poly.ofConstant_eq`, `Poly.ofVariable_eq`: the checked literals and variables.
-/

namespace Plonkish

/-- A polynomial in variables numbered from zero, below `numVars`. -/
structure Poly (ι : Type := Nat) where
  numVars : Int
  terms : List (Scalar × Monomial ι)
  deriving DecidableEq, Repr, Inhabited

namespace Poly

variable {ι : Type}

/-- The coefficient of a monomial: the sum over its terms. -/
def coeff [DecidableEq ι] (p : Poly ι) (m : Monomial ι) : Scalar :=
  (p.terms.filter fun t => t.2 = m).foldr (fun t c => t.1 + c) 0

variable [VariableNumber ι]

/-- Monomials strictly increase and no coefficient is zero. -/
def IsNormal (terms : List (Scalar × Monomial ι)) : Prop :=
  terms.Pairwise (fun s t => s.2.before t.2 = true) ∧ ∀ t ∈ terms, t.1 ≠ 0

/-! ## Normal form -/

/-- Puts a term in front of terms with distinct monomials, adding the coefficients if the first of
them, whose monomial is kept, has the same. -/
def consTerm (t : Scalar × Monomial ι) : List (Scalar × Monomial ι) → List (Scalar × Monomial ι)
  | [] => [t]
  | u :: terms => if t.2.sameAs u.2 then (t.1 + u.1, u.2) :: terms else t :: u :: terms

/-- Sorts terms by monomial, adds up the coefficients of equal monomials and drops zeros. -/
def normalize (terms : List (Scalar × Monomial ι)) : List (Scalar × Monomial ι) :=
  ((terms.mergeSort fun s t => s.2.notAfter t.2).foldr consTerm []).filter fun t => t.1 ≠ 0

/-- Whether a term list is in normal form. -/
def isNormalized : List (Scalar × Monomial ι) → Bool
  | [] => true
  | [t] => t.1 ≠ 0
  | t :: u :: terms => t.1 ≠ 0 && t.2.before u.2 && isNormalized (u :: terms)

/-! ## Constructors -/

/-- The polynomial of terms in any order. A variable that is not below `numVars` is refused. -/
def ofTerms (numVars : Int) (terms : List (Scalar × Monomial ι)) : Except PolyError (Poly ι) :=
  let terms := normalize terms
  match terms.find? fun t => !t.2.isAmong numVars with
  | some t => t.2.text.bind fun text => .error (.outside text numVars)
  | none => .ok ⟨numVars, terms⟩

/-- The zero polynomial. -/
def zero (numVars : Int) : Poly ι := ⟨numVars, []⟩

/-- A literal. -/
def literal (numVars : Int) (v : Scalar) : Poly ι :=
  ⟨numVars, if v = 0 then [] else [(v, .one)]⟩

/-- A variable. -/
def indeterminate (numVars : Int) (i : ι) : Poly ι :=
  ⟨numVars, [(1, .ofVariable i)]⟩

/-- A literal with its variables checked. -/
def ofConstant (numVars : Int) (v : Scalar) : Except PolyError (Poly ι) :=
  ofTerms numVars [(v, .one)]

/-- A variable, checked. -/
def ofVariable (numVars : Int) (i : ι) : Except PolyError (Poly ι) :=
  ofTerms numVars [(1, .ofVariable i)]

/-- A variable given by a signed number, checked. -/
def ofSigned (numVars : Int) (i : Int) : Except PolyError Poly := do
  let m ← Monomial.ofSigned [(i, 1)]
  ofTerms numVars [(1, m)]

theorem normalize_singleton (v : Scalar) (m : Monomial ι) :
    normalize [(v, m)] = if v = 0 then [] else [(v, m)] := by
  by_cases h : v = 0 <;> simp [normalize, consTerm, h]

theorem ofConstant_eq {numVars : Int} (h : 0 ≤ numVars) (v : Scalar) :
    ofConstant numVars v = .ok (literal (ι := ι) numVars v) := by
  have hone : (Monomial.one : Monomial ι).isAmong numVars = true := by
    simpa [Monomial.isAmong, Monomial.lastVariable?, Monomial.one] using h
  by_cases hv : v = 0 <;> simp [ofConstant, ofTerms, normalize_singleton, literal, hv, hone]

theorem ofVariable_eq {numVars : Int} {i : Nat} (h : i < numVars) :
    ofVariable numVars i = .ok (indeterminate numVars i) := by
  have hi : (Monomial.ofVariable i).isAmong numVars = true := by
    simpa [Monomial.isAmong, Monomial.lastVariable?, Monomial.ofVariable] using h
  have h1 : (1 : Scalar) ≠ 0 := by decide
  simp only [ofVariable, ofTerms, normalize_singleton, if_neg h1]
  simp [hi, indeterminate]

theorem ofSigned_natCast (numVars : Int) (i : Nat) : ofSigned numVars i = ofVariable numVars i := by
  have hm : Monomial.ofSigned [((i : Int), 1)] = .ok (Monomial.ofVariable i) := by
    simp [Monomial.ofSigned, Monomial.ofFactors, Monomial.insert, Monomial.ofVariable]
  simp only [ofSigned, hm, bind, Except.bind, ofVariable]

/-! ## Inspection -/

/-- Whether the polynomial has no terms. -/
def isZero (p : Poly ι) : Bool := p.terms.isEmpty

/-- The largest degree of a term; zero for the zero polynomial. -/
def degree (p : Poly ι) : Nat :=
  (p.terms.map (·.2.degree)).foldl max 0

/-- Whether two polynomials have the same terms, whatever their numbers of variables. -/
def sameTerms (p q : Poly) : Bool := p.terms == q.terms

/-- The value at a point with a coordinate for each variable. -/
def eval (point : List Scalar) (p : Poly ι) : Except PolyError Scalar :=
  if (point.length : Int) < p.numVars then .error (.pointSize point.length p.numVars)
  else
    p.terms.foldlM
      (fun acc (c, m) => do
        let x ← m.eval point
        return acc + c * x)
      0

/-- The text of a term. A literal has no monomial. -/
def termText (t : Scalar × Monomial ι) : Except PolyError String := do
  if t.2.isOne then return toString t.1.val
  else return s!"{t.1.val}*" ++ (← t.2.text)

/-- The text of a polynomial: its terms joined by plus signs. -/
def text (p : Poly ι) : Except PolyError String := do
  let terms ← p.terms.mapM termText
  return "SparsePolynomial(" ++ (if p.isZero then "0" else " + ".intercalate terms) ++ ")"

/-! ## Arithmetic -/

/-- Merges two sorted term lists, adding the coefficients of shared monomials and dropping those
that become zero. -/
def mergeTerms : List (Scalar × Monomial ι) → List (Scalar × Monomial ι) →
    List (Scalar × Monomial ι)
  | [], b => b
  | a, [] => a
  | s :: a, t :: b =>
    if s.2.before t.2 then s :: mergeTerms a (t :: b)
    else if t.2.before s.2 then t :: mergeTerms (s :: a) b
    else if s.1 + t.1 ≠ 0 then (s.1 + t.1, s.2) :: mergeTerms a b
    else mergeTerms a b
termination_by a b => a.length + b.length

/-- The sum. -/
def add (p q : Poly ι) : Poly ι :=
  ⟨max p.numVars q.numVars, mergeTerms p.terms q.terms⟩

/-- The negation. -/
def neg (p : Poly ι) : Poly ι :=
  ⟨p.numVars, p.terms.map fun (c, m) => (-c, m)⟩

/-- The difference. -/
def sub (p q : Poly ι) : Poly ι := p.add q.neg

/-- The multiple by a scalar. -/
def scale (p : Poly ι) (s : Scalar) : Poly ι :=
  if s = 0 ∨ p.isZero then zero p.numVars
  else ⟨p.numVars, p.terms.map fun (c, m) => (c * s, m)⟩

/-- The product of every term of `a` with every term of `b`. -/
def crossTerms (a b : List (Scalar × Monomial ι)) : List (Scalar × Monomial ι) :=
  a.flatMap fun (c, m) => b.map fun (d, n) => (c * d, m.mul n)

/-- The product. -/
def mul (p q : Poly ι) : Poly ι :=
  let n := max p.numVars q.numVars
  if p.isZero ∨ q.isZero then zero n
  else ⟨n, normalize (crossTerms p.terms q.terms)⟩

/-- Whether all terms are literals. -/
def isLiteral (p : Poly ι) : Bool := p.terms.all (·.2.isOne)

/-- The coefficient of the first term, or zero: the value of a polynomial whose terms are all
literals. -/
def leadingCoeff (p : Poly ι) : Scalar :=
  match p.terms with
  | t :: _ => t.1
  | [] => 0

/-- The product, by scaling if one factor is a literal. -/
def mulByScaling (p q : Poly ι) : Poly ι :=
  if p.isLiteral then q.scale p.leadingCoeff
  else if q.isLiteral then p.scale q.leadingCoeff
  else p.mul q

end Poly

end Plonkish
