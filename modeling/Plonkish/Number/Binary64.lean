/-!
# Binary floating point of 64 bits

Decimal literals with a fraction or an exponent denote the nearest number `m * 2 ^ e` with
`m < 2 ^ 53` and `-1074 ≤ e ≤ 971`, ties going to an even `m`. A sum is rounded in the same way.
All arithmetic here is exact, on natural numbers. The text of a number has the fewest digits that
read back as the same number.
-/

namespace Plonkish

/-- A number of the 64-bit binary format. -/
inductive Binary64
  /-- The number `mantissa * 2 ^ exponent`, negated if `negative`. -/
  | finite (negative : Bool) (mantissa : Nat) (exponent : Int)
  | infinite (negative : Bool)
  | nan
  deriving DecidableEq, Repr, Inhabited

namespace Binary64

/-- The product `n * 2 ^ q * 10 ^ p`, where a negative exponent counts as zero. -/
def scaleUp (n : Nat) (q p : Int) : Nat :=
  (n <<< q.toNat) * Nat.pow 10 p.toNat

/-- Whether `a * 2 ^ q ≤ b * 10 ^ p`. -/
def leDecimal (a : Nat) (q : Int) (b : Nat) (p : Int) : Bool :=
  scaleUp a q (-p) ≤ scaleUp b (-q) p

/-- Whether `b * 10 ^ p ≤ a * 2 ^ q`. -/
def decimalLe (b : Nat) (p : Int) (a : Nat) (q : Int) : Bool :=
  scaleUp b (-q) p ≤ scaleUp a q (-p)

/-- The integer nearest to `n / d`; of two, the even one. -/
def roundDiv (n d : Nat) : Nat :=
  let q := n / d
  let r := n % d
  if 2 * r < d ∨ (2 * r = d ∧ q % 2 = 0) then q else q + 1

/-- The least mantissa of 53 bits, `2 ^ 52`. -/
def leastNormal : Nat := 1 <<< 52

/-- The number nearest to `n / d`, for positive `n` and `d`. -/
def ofRatio (negative : Bool) (n d : Nat) : Binary64 :=
  let guess : Int := (n.log2 : Int) - d.log2
  -- The exponent of the leading bit: the guess is that or one more.
  let lead := if d <<< guess.toNat ≤ n <<< (-guess).toNat then guess else guess - 1
  let e := max (lead - 52) (-1074)
  let m := roundDiv (n <<< (-e).toNat) (d <<< e.toNat)
  let (m, e) := if m = 2 * leastNormal then (leastNormal, e + 1) else (m, e)
  if 971 < e then .infinite negative else .finite negative m e

/-- The number nearest to `digits * 10 ^ exponent`. Beyond the bounds tested first every literal
is infinite or zero, so huge powers are never computed. -/
def ofDecimal (negative : Bool) (digits : Nat) (exponent : Int) : Binary64 :=
  let size : Int := (Nat.toDigits 10 digits).length
  if digits = 0 ∨ size + exponent < -400 then .finite negative 0 0
  else if 400 < size + exponent then .infinite negative
  else ofRatio negative (scaleUp digits 0 exponent) (scaleUp 1 0 (-exponent))

/-- The integer part, toward zero, of a finite number. -/
def truncate? : Binary64 → Option Int
  | .finite negative m e =>
    let n : Int := ((m <<< e.toNat) >>> (-e).toNat : Nat)
    some (if negative then -n else n)
  | _ => none

/-! ## Comparison with integers -/

/-- The number `m * 2 ^ e`, negated if `negative`, as a numerator and a positive denominator. -/
def fraction (negative : Bool) (m : Nat) (e : Int) : Int × Nat :=
  let n : Int := (m <<< e.toNat : Nat)
  (if negative then -n else n, 1 <<< (-e).toNat)

/-- A finite number as a numerator and a positive denominator. -/
def ratio? : Binary64 → Option (Int × Nat)
  | .finite negative m e => some (fraction negative m e)
  | _ => none

/-- The integer that a number is, if it is one. -/
def integer? (x : Binary64) : Option Int :=
  match x.ratio? with
  | some (n, d) => if n % (d : Int) = 0 then some (n / (d : Int)) else none
  | none => none

/-- Whether a number is below zero. -/
def isNegative : Binary64 → Bool
  | .finite negative m _ => negative && m != 0
  | .infinite negative => negative
  | .nan => false

/-- Whether a number lies between zero and a limit, both included. -/
def within (limit : Int) (x : Binary64) : Bool :=
  match x.ratio? with
  | some (n, d) => 0 ≤ n ∧ n ≤ limit * (d : Int)
  | none => false

/-- Whether a number lies between zero and a bound, the bound excluded. -/
def below (bound : Int) (x : Binary64) : Bool :=
  match x.ratio? with
  | some (n, d) => 0 ≤ n ∧ n < bound * (d : Int)
  | none => false

/-- The number with the other sign. -/
def negated : Binary64 → Binary64
  | .finite negative m e => .finite (!negative) m e
  | .infinite negative => .infinite (!negative)
  | .nan => .nan

example : (ofDecimal false 2555 (-1)).within 255 = false ∧
    (ofDecimal false 2555 (-1)).below 256 = true ∧ (ofDecimal true 0 0).within 255 = true ∧
    (ofDecimal false 20 (-1)).integer? = some 2 := by decide

/-! ## Addition -/

/-- The number nearest to `n / d`, for positive `d`. -/
def ofFraction (n : Int) (d : Nat) : Binary64 :=
  if n = 0 then .finite false 0 0 else ofRatio (n < 0) n.natAbs d

/-- The number nearest to an integer. -/
def ofInt (n : Int) : Binary64 := ofFraction n 1

/-- The number nearest to the sum of two numbers. A sum of zeros is negative if both are. -/
def add : Binary64 → Binary64 → Binary64
  | .nan, _ => .nan
  | _, .nan => .nan
  | .infinite a, .infinite b => if a = b then .infinite a else .nan
  | .infinite a, _ => .infinite a
  | _, .infinite b => .infinite b
  | .finite a m e, .finite b n f =>
    let (x, c) := fraction a m e
    let (y, d) := fraction b n f
    let sum := x * d + y * c
    if sum = 0 then .finite (a && b && m = 0) 0 0 else ofFraction sum (c * d)

example : add (ofInt 1) (ofDecimal false 9999999999999999 (-16)) = ofInt 2 ∧
    add (ofInt 1) (ofDecimal false 5 (-1)) = ofDecimal false 15 (-1) ∧
    add (ofInt 0) (ofDecimal true 0 0) = ofInt 0 := by decide

/-! ## Text -/

/-- The exponent `k` with `10 ^ k ≤ m * 2 ^ q < 10 ^ (k + 1)`, for positive `m`. -/
def decimalLead (m : Nat) (q : Int) : Int :=
  let size (n : Nat) : Int := (Nat.toDigits 10 n).length
  let guess := size (m <<< q.toNat) - size (1 <<< (-q).toNat)
  if decimalLe 1 guess m q then guess else guess - 1

/-- Whether `c * 10 ^ p` reads back as `m * 2 ^ q`: it lies no further than half a unit away, the
ends of that interval included iff `m` is even. -/
def readsBack (m : Nat) (q : Int) (c : Nat) (p : Int) : Bool :=
  let low := if m = leastNormal ∧ -1074 < q then 4 * m - 1 else 4 * m - 2
  let high := 4 * m + 2
  if m % 2 = 0 then leDecimal low (q - 2) c p && decimalLe c p high (q - 2)
  else !decimalLe c p low (q - 2) && !leDecimal high (q - 2) c p

/-- The decimals with `n` digits next to `m * 2 ^ q` that read back as it, the nearer one first,
as a coefficient and a power of ten. -/
def candidates (m : Nat) (q : Int) (n : Nat) : List (Nat × Int) :=
  let p := decimalLead m q - n + 1
  let c := scaleUp m q (-p) / scaleUp 1 (-q) p
  let half := 2 * c + 1
  let upFirst := decimalLe half p (2 * m) q && !(leDecimal (2 * m) q half p && c % 2 = 0)
  (if upFirst then [c + 1, c] else [c, c + 1]).filterMap fun c =>
    if readsBack m q c p then some (c, p) else none

/-- The shortest decimal that reads back as `m * 2 ^ q`. Seventeen digits always suffice. -/
def shortest (m : Nat) (q : Int) : Nat × Int :=
  ((List.range 17).findSome? fun n => (candidates m q (n + 1)).head?).getD (0, 0)

/-- Digits with a decimal point in front of the last `-p` of them, for decimals whose point lies
at most sixteen digits from the left and four zeros in front; else scientific notation. -/
def layout (digits : List Char) (point : Int) : List Char :=
  if -4 < point ∧ point ≤ 16 then
    if point ≤ 0 then '0' :: '.' :: (List.replicate (-point).toNat '0' ++ digits)
    else if digits.length ≤ point.toNat then
      digits ++ List.replicate (point.toNat - digits.length) '0' ++ ['.', '0']
    else digits.take point.toNat ++ '.' :: digits.drop point.toNat
  else
    let e := point - 1
    let size := Nat.toDigits 10 e.natAbs
    let fraction := match digits.tail with
      | [] => []
      | ds => '.' :: ds
    digits.take 1 ++ fraction ++ 'e' :: (if e < 0 then '-' else '+') ::
      (if size.length < 2 then '0' :: size else size)

/-- The text of a number: the fewest digits that read back. -/
def toText : Binary64 → String
  | .nan => "nan"
  | .infinite negative => if negative then "-inf" else "inf"
  | .finite negative m q =>
    let body :=
      if m = 0 then ['0', '.', '0']
      else
        let (c, p) := shortest m q
        let all := Nat.toDigits 10 c
        let digits := (all.reverse.dropWhile (· = '0')).reverse
        layout digits (all.length + p)
    String.ofList (if negative then '-' :: body else body)

end Binary64

end Plonkish
