import Plonkish.Number.Literal
import Plonkish.Scalar
import Plonkish.VariableNumber

/-!
# Monomials

A monomial is a product of powers of numbered variables. Its factors are pairs of a variable and
an exponent; the operations keep the variables increasing and the exponents positive. Variables
are compared by the values of their numbers.

* `Monomial.IsNormal`: that form.
* `Monomial.exponent`: the view of a monomial as a function from variables to exponents.
* `Monomial.sameAs_iff`: for natural numbers, monomials of equal value are the same.
-/

namespace Plonkish

/-- What is wrong with a polynomial or a point. -/
inductive PolyError
  /-- A factor has a negative variable or exponent. -/
  | negativeFactor (index exponent : Int)
  /-- A term has a variable outside those of its polynomial. -/
  | outside (term : String) (numVars : Int)
  /-- A point has fewer coordinates than the polynomial has variables. -/
  | pointSize (size : Nat) (numVars : Int)
  /-- A point has no coordinate for a variable of a monomial. -/
  | noCoordinate (index : Nat)
  /-- The number of a variable is no position in a point. -/
  | noPosition (index : String)
  /-- A number has more digits than a text shows. -/
  | tooLong (limit : Nat)
  deriving DecidableEq, Repr

/-- The text of the error. -/
def PolyError.message : PolyError → String
  | .negativeFactor i e => s!"Invalid term factor x_{i}^{e}"
  | .outside term n => s!"Term {term} references a variable outside {n} indeterminates"
  | .pointSize size n => s!"Point has {size} coordinates, need {n}"
  | .noCoordinate i => s!"Point has no coordinate x_{i}"
  | .noPosition i => s!"Point has no coordinate x_{i}"
  | .tooLong limit =>
    s!"Exceeds the limit ({limit} digits) for integer string conversion; " ++
      "use sys.set_int_max_str_digits() to increase the limit"

/-- A monomial: the variables with their exponents. -/
structure Monomial (ι : Type := Nat) where
  factors : List (ι × Nat)
  deriving DecidableEq, Repr, Inhabited

namespace Monomial

/-! ## Products of factors -/

/-- Variables strictly increase and exponents are positive. -/
def IsNormal (m : Monomial) : Prop :=
  m.factors.Pairwise (fun f g => f.1 < g.1) ∧ ∀ f ∈ m.factors, 0 < f.2

/-- The exponent of a variable: the sum over its factors. -/
def exponent (m : Monomial) (i : Nat) : Nat :=
  (m.factors.filter fun f => f.1 = i).foldr (fun f e => f.2 + e) 0

/-- Multiplies sorted factors by the power `e` of the variable `i`. -/
def insert (i e : Nat) : List (Nat × Nat) → List (Nat × Nat)
  | [] => [(i, e)]
  | (j, f) :: rest =>
    if i < j then (i, e) :: (j, f) :: rest
    else if i = j then (j, f + e) :: rest
    else (j, f) :: insert i e rest

/-- The product of factors in any order. Powers with exponent zero are dropped. -/
def ofFactors (factors : List (Nat × Nat)) : Monomial :=
  ⟨factors.foldl (fun m (i, e) => if e = 0 then m else insert i e m) []⟩

/-- The product of signed factors. The first with a negative part is refused. -/
def ofSigned (factors : List (Int × Int)) : Except PolyError Monomial :=
  match factors.find? fun (i, e) => i < 0 ∨ e < 0 with
  | some (i, e) => .error (.negativeFactor i e)
  | none => .ok (ofFactors (factors.map fun (i, e) => (i.toNat, e.toNat)))

/-! ## Operations -/

variable {ι : Type}

/-- The empty product. -/
def one : Monomial ι := ⟨[]⟩

/-- A single variable. -/
def ofVariable (i : ι) : Monomial ι := ⟨[(i, 1)]⟩

/-- The sum of the exponents. -/
def degree (m : Monomial ι) : Nat :=
  m.factors.foldr (fun f d => f.2 + d) 0

/-- Whether the monomial is the empty product. -/
def isOne (m : Monomial ι) : Bool := m.factors.isEmpty

/-- The last variable. The empty product has none. -/
def lastVariable? (m : Monomial ι) : Option ι := m.factors.getLast?.map (·.1)

variable [VariableNumber ι]

/-- Whether the variables of a monomial are among the first `count`, which is no negative
number. -/
def isAmong (count : Int) (m : Monomial ι) : Bool :=
  match m.lastVariable? with
  | some i => VariableNumber.isAmong count i
  | none => 0 ≤ count

/-- Merges two sorted lists of factors, adding the exponents of shared variables. Of two numbers
of equal value that of the first list is kept. -/
def mergeFactors : List (ι × Nat) → List (ι × Nat) → List (ι × Nat)
  | [], b => b
  | a, [] => a
  | (i, e) :: a, (j, f) :: b =>
    match compare i j with
    | .lt => (i, e) :: mergeFactors a ((j, f) :: b)
    | .gt => (j, f) :: mergeFactors ((i, e) :: a) b
    | .eq => (i, e + f) :: mergeFactors a b
termination_by a b => a.length + b.length

/-- The product of two monomials. -/
def mul (m n : Monomial ι) : Monomial ι := ⟨mergeFactors m.factors n.factors⟩

/-- Lexicographic order on factors: by variable, then exponent, then what follows. A list comes
behind its beginnings. -/
def compareFactors : List (ι × Nat) → List (ι × Nat) → Ordering
  | [], [] => .eq
  | [], _ :: _ => .lt
  | _ :: _, [] => .gt
  | (i, e) :: a, (j, f) :: b =>
    match compare i j with
    | .eq =>
      match compare e f with
      | .eq => compareFactors a b
      | o => o
    | o => o

instance : Ord (Monomial ι) := ⟨fun m n => compareFactors m.factors n.factors⟩

/-- Whether a monomial comes before another. -/
def before (m n : Monomial ι) : Bool := compare m n == .lt

/-- Whether a monomial comes no later than another. -/
def notAfter (m n : Monomial ι) : Bool := compare m n != .gt

/-- Whether two monomials have equal exponents of variables with equal numbers. -/
def sameAs (m n : Monomial ι) : Bool := compare m n == .eq

theorem compareFactors_eq_iff {a b : List (Nat × Nat)} : compareFactors a b = .eq ↔ a = b := by
  induction a generalizing b with
  | nil => cases b <;> simp [compareFactors]
  | cons f a ih =>
    cases b with
    | nil => simp [compareFactors]
    | cons g b =>
      obtain ⟨i, e⟩ := f
      obtain ⟨j, f⟩ := g
      rw [compareFactors]
      rcases hij : compare i j with _ | _ | _
      · have := Nat.compare_eq_lt.1 hij
        simp
        omega
      · rcases hef : compare e f with _ | _ | _
        · have := Nat.compare_eq_lt.1 hef
          simp
          omega
        · simp [ih, Nat.compare_eq_eq.1 hij, Nat.compare_eq_eq.1 hef]
        · have := Nat.compare_eq_gt.1 hef
          simp
          omega
      · have := Nat.compare_eq_gt.1 hij
        simp
        omega

/-- Variables that are numbered by natural numbers are compared exactly. -/
theorem sameAs_iff {m n : Monomial} : m.sameAs n = true ↔ m = n := by
  obtain ⟨a⟩ := m
  obtain ⟨b⟩ := n
  rw [sameAs, beq_iff_eq, Monomial.mk.injEq]
  exact compareFactors_eq_iff

/-- The coordinate of a variable. -/
def coordinate (point : List Scalar) (i : ι) : Except PolyError Scalar :=
  match VariableNumber.position? i with
  | none => .error (.noPosition (VariableNumber.shown i))
  | some k => match point[k]? with
    | some x => .ok x
    | none => .error (.noCoordinate k)

/-- The value of a monomial at a point. -/
def eval (point : List Scalar) (m : Monomial ι) : Except PolyError Scalar :=
  m.factors.foldlM
    (fun acc (i, e) => do
      let x ← coordinate point i
      return acc * Scalar.pow x e)
    1

/-! ## Text -/

/-- The text of a power. An exponent of one is left out. -/
def powerText (f : ι × Nat) : String :=
  let (i, e) := f
  if e = 1 then s!"x_{VariableNumber.shown i}" else s!"x_{VariableNumber.shown i}^{e}"

/-- The text of a monomial: its powers joined by stars. There is none if an exponent has too many
digits. -/
def text (m : Monomial ι) : Except PolyError String :=
  if m.factors.any fun f => Literal.isTooLong f.2 then .error (.tooLong Literal.digitLimit)
  else .ok (if m.isOne then "1" else "*".intercalate (m.factors.map powerText))

end Monomial

end Plonkish
