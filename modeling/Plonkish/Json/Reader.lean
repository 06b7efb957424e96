import Plonkish.Json

/-!
# Reading JSON text

The grammar of JSON, with the three further number words `NaN`, `Infinity` and `-Infinity`. Of
two fields of one object with the same key the later value counts, at the place of the earlier.
Half of a surrogate pair may be escaped alone. A reader may refuse integers of more than a given
number of digits. Every step returns what it leaves with a proof that this is shorter, so reading
ends.
-/

namespace Plonkish.Json

/-- A text shorter than `s`: what a step leaves of `s`. -/
abbrev After (s : List Char) := { r : List Char // r.length < s.length }

/-- Drops blanks in front. -/
def skipBlanks : List Char → List Char
  | [] => []
  | c :: cs => if c = ' ' ∨ c = '\t' ∨ c = '\n' ∨ c = '\r' then skipBlanks cs else c :: cs

theorem length_skipBlanks_le (s : List Char) : (skipBlanks s).length ≤ s.length := by
  induction s with
  | nil => simp [skipBlanks]
  | cons c cs ih =>
    rw [skipBlanks]
    split
    · exact Nat.le_succ_of_le ih
    · exact Nat.le_refl _

theorem length_lt_of_skipBlanks {s r : List Char} {c : Char} (h : skipBlanks s = c :: r) :
    r.length < s.length := by
  have := length_skipBlanks_le s
  rw [h] at this
  simp at this
  omega

/-- What is left behind a word, if the text starts with it. -/
def afterWord? : List Char → List Char → Option (List Char)
  | [], s => some s
  | w :: ws, c :: cs => if w = c then afterWord? ws cs else none
  | _ :: _, [] => none

theorem length_of_afterWord? {w s r : List Char} (h : afterWord? w s = some r) :
    r.length + w.length = s.length := by
  induction w generalizing s with
  | nil => simp [afterWord?] at h; simp [h]
  | cons c w ih =>
    cases s with
    | nil => simp [afterWord?] at h
    | cons d s =>
      rw [afterWord?] at h
      split at h
      · have := ih h; simp; omega
      · simp at h

/-! ## Numbers -/

/-- The value of a decimal digit of ASCII. -/
def digitValue? (c : Char) : Option Nat :=
  if '0' ≤ c ∧ c ≤ '9' then some (c.toNat - 48) else none

/-- Reads digits behind the value `acc`, of which `count` were read before. -/
def takeDigits (acc count : Nat) : List Char → Nat × Nat × List Char
  | [] => (acc, count, [])
  | c :: cs =>
    match digitValue? c with
    | some d => takeDigits (10 * acc + d) (count + 1) cs
    | none => (acc, count, c :: cs)

/-- At least one digit: the value they extend `acc` to, their number, and what follows. -/
def digits? (acc : Nat) (s : List Char) : Option (Nat × Nat × List Char) :=
  match takeDigits acc 0 s with
  | (_, 0, _) => none
  | (n, count + 1, r) => some (n, count + 1, r)

/-- A fraction: its digits behind the value `acc`, their number, and what follows. Without a point
and a digit behind it there is none. -/
def fraction? (acc : Nat) : List Char → Option (Nat × Nat × List Char)
  | '.' :: cs => digits? acc cs
  | _ => none

/-- Splits off a sign: whether it is a minus, and what follows. -/
def sign : List Char → Bool × List Char
  | '-' :: ds => (true, ds)
  | '+' :: ds => (false, ds)
  | ds => (false, ds)

/-- An exponent and what follows. -/
def exponent? : List Char → Option (Int × List Char)
  | e :: cs =>
    if e = 'e' ∨ e = 'E' then
      (digits? 0 (sign cs).2).map fun (n, _, r) => (if (sign cs).1 then -(n : Int) else n, r)
    else none
  | [] => none

/-- An integer part, without leading zeros: its value, the number of its digits, and what
follows. -/
def whole? : List Char → Option (Nat × Nat × List Char)
  | '0' :: cs => some (0, 1, cs)
  | cs => digits? 0 cs

/-- An integer of a number of digits, unless these are more than the limit. -/
def limited? (limit : Option Nat) (size : Nat) (n : Int) : Option Json :=
  if limit.all fun most => size ≤ most then some (.int n) else none

/-- An unsigned number and what follows. It is an integer unless a fraction or an exponent follows
its integer part. -/
def number? (limit : Option Nat) (negative : Bool) (s : List Char) : Option (Json × List Char) :=
  match whole? s with
  | none => none
  | some (n, size, r) =>
    match fraction? n r with
    | none =>
      match exponent? r with
      | none => (limited? limit size (if negative then -(n : Int) else n)).map fun j => (j, r)
      | some (e, t) => some (.real (Binary64.ofDecimal negative n e), t)
    | some (digits, places, t) =>
      match exponent? t with
      | none => some (.real (Binary64.ofDecimal negative digits (-places)), t)
      | some (e, u) => some (.real (Binary64.ofDecimal negative digits (e - places)), u)

/-- A number of either sign, negative infinity included, and what follows. -/
def signedNumber? (limit : Option Nat) : List Char → Option (Json × List Char)
  | '-' :: cs =>
    match afterWord? "Infinity".toList cs with
    | some r => some (.real (.infinite true), r)
    | none => number? limit true cs
  | cs => number? limit false cs

theorem length_takeDigits (acc count : Nat) (s : List Char) :
    (takeDigits acc count s).2.2.length + (takeDigits acc count s).2.1 = s.length + count := by
  induction s generalizing acc count with
  | nil => simp [takeDigits]
  | cons c cs ih =>
    rw [takeDigits]
    split
    · rw [ih]; simp; omega
    · simp

theorem length_of_digits? {acc n m : Nat} {s r : List Char} (h : digits? acc s = some (n, m, r)) :
    r.length < s.length := by
  have hlen := length_takeDigits acc 0 s
  unfold digits? at h
  split at h
  · simp at h
  · next hd =>
    rw [hd] at hlen
    simp at h hlen
    obtain ⟨_, _, rfl⟩ := h
    omega

theorem length_of_fraction? {acc n m : Nat} {s r : List Char}
    (h : fraction? acc s = some (n, m, r)) : r.length < s.length := by
  unfold fraction? at h
  split at h
  · have := length_of_digits? h; simp; omega
  · simp at h

theorem length_sign_le (s : List Char) : (sign s).2.length ≤ s.length := by
  unfold sign
  split <;> simp

theorem length_of_exponent? {e : Int} {s r : List Char} (h : exponent? s = some (e, r)) :
    r.length < s.length := by
  unfold exponent? at h
  split at h
  · next cs =>
    split at h
    · obtain ⟨⟨n, m, t⟩, hd, ht⟩ := Option.map_eq_some_iff.1 h
      have h1 := length_of_digits? hd
      have h2 := length_sign_le cs
      simp at ht
      simp [← ht.2]
      omega
    · simp at h
  · simp at h

theorem length_of_whole? {n m : Nat} {s r : List Char} (h : whole? s = some (n, m, r)) :
    r.length < s.length := by
  unfold whole? at h
  split at h
  · cases h; simp
  · exact length_of_digits? h

theorem length_of_number? {limit : Option Nat} {negative : Bool} {j : Json} {s r : List Char}
    (h : number? limit negative s = some (j, r)) : r.length < s.length := by
  unfold number? at h
  split at h
  · simp at h
  · next hw =>
    have h1 := length_of_whole? hw
    split at h
    · split at h
      · obtain ⟨_, _, hr⟩ := Option.map_eq_some_iff.1 h
        simp at hr
        simp [← hr.2]
        omega
      · next he => have := length_of_exponent? he; simp at h; simp [← h.2]; omega
    · next hf =>
      have h2 := length_of_fraction? hf
      split at h
      · simp at h; simp [← h.2]; omega
      · next he => have := length_of_exponent? he; simp at h; simp [← h.2]; omega

theorem length_of_signedNumber? {limit : Option Nat} {j : Json} {s r : List Char}
    (h : signedNumber? limit s = some (j, r)) : r.length < s.length := by
  unfold signedNumber? at h
  split at h
  · split at h
    · next hw => have := length_of_afterWord? hw; simp at h; simp [← h.2]; omega
    · have := length_of_number? h; simp; omega
  · exact length_of_number? h

/-! ## Texts -/

/-- The value of a hexadecimal digit. -/
def hexValue? (c : Char) : Option Nat :=
  if '0' ≤ c ∧ c ≤ '9' then some (c.toNat - 48)
  else if 'a' ≤ c ∧ c ≤ 'f' then some (c.toNat - 87)
  else if 'A' ≤ c ∧ c ≤ 'F' then some (c.toNat - 55)
  else none

/-- The code unit that four hexadecimal digits spell. -/
def unit? (a b c d : Char) : Option Nat := do
  let w ← hexValue? a
  let x ← hexValue? b
  let y ← hexValue? c
  let z ← hexValue? d
  return ((w * 16 + x) * 16 + y) * 16 + z

/-- Whether a code unit is the first half of a pair. -/
def isHighHalf (n : Nat) : Bool := 0xd800 ≤ n && n < 0xdc00

/-- Whether a code unit is the second half of a pair. -/
def isLowHalf (n : Nat) : Bool := 0xdc00 ≤ n && n < 0xe000

/-- The code point of a pair of code units, if they are the halves of one. -/
def pointOfPair? (high low : Nat) : Option CodePoint :=
  if isHighHalf high && isLowHalf low then
    some ⟨0x10000 + (high - 0xd800) * 0x400 + (low - 0xdc00)⟩
  else none

/-- The code point of the pair of code units that starts with `high`, if the second half is
escaped next; and what follows. -/
def pair? (high : Nat) : List Char → Option (CodePoint × List Char)
  | '\\' :: 'u' :: a :: b :: c :: d :: r =>
    ((unit? a b c d).bind (pointOfPair? high)).map fun p => (p, r)
  | _ => none

/-- The code point behind `\u`: that of a pair of code units if they make one, else that of one
unit; and what follows. -/
def unicodeEscape? : List Char → Option (CodePoint × List Char)
  | a :: b :: c :: d :: r =>
    match unit? a b c d with
    | none => none
    | some n => some ((pair? n r).getD (⟨n⟩, r))
  | _ => none

/-- The character that a letter behind a backslash stands for. -/
def escape? (c : Char) : Option Char :=
  if c = '"' ∨ c = '\\' ∨ c = '/' then some c
  else if c = 'b' then some '\x08'
  else if c = 'f' then some '\x0c'
  else if c = 'n' then some '\n'
  else if c = 'r' then some '\r'
  else if c = 't' then some '\t'
  else none

theorem length_of_pair? {n : Nat} {c : CodePoint} {s r : List Char} (h : pair? n s = some (c, r)) :
    r.length < s.length := by
  unfold pair? at h
  split at h
  · obtain ⟨_, _, hr⟩ := Option.map_eq_some_iff.1 h
    simp at hr
    simp [← hr.2]
    omega
  · simp at h

theorem length_of_unicodeEscape? {c : CodePoint} {s r : List Char}
    (h : unicodeEscape? s = some (c, r)) : r.length < s.length := by
  unfold unicodeEscape? at h
  split at h
  · split at h
    · simp at h
    · next n _ =>
      simp at h
      cases hp : pair? n (by assumption) with
      | none => rw [hp] at h; simp at h; simp [← h.2]; omega
      | some found =>
        rw [hp] at h
        simp at h
        subst h
        have := length_of_pair? hp
        simp
        omega
  · simp at h

/-- Reads the characters up to the closing quote, behind the code points `read` so far (the latest
first). Control characters must be escaped. -/
def text? (read : List CodePoint) (s : List Char) : Option (Text × List Char) :=
  match s with
  | [] => none
  | '"' :: r => some (⟨read.reverse⟩, r)
  | '\\' :: 'u' :: r =>
    match h : unicodeEscape? r with
    | some (c, t) =>
      have := length_of_unicodeEscape? h
      text? (c :: read) t
    | none => none
  | '\\' :: e :: r =>
    match escape? e with
    | some c => text? (.ofChar c :: read) r
    | none => none
  | c :: r => if c.toNat < 0x20 ∨ c = '\\' then none else text? (.ofChar c :: read) r
termination_by s.length
decreasing_by all_goals simp_all <;> omega

theorem length_of_text? {read : List CodePoint} {t : Text} {s r : List Char}
    (h : text? read s = some (t, r)) : r.length < s.length := by
  fun_induction text? read s with
  | case1 => simp at h
  | case2 => simp at h; simp [h]
  | case3 _ _ _ _ _ hlt ih => have := ih h; simp; omega
  | case4 => simp at h
  | case5 _ _ _ _ _ _ ih => have := ih h; simp; omega
  | case6 => simp at h
  | case7 => simp at h
  | case8 _ _ _ _ _ _ _ ih => have := ih h; simp; omega

/-! ## Values -/

/-- Sets a field: in place if the key is there, else at the end. -/
def setField (key : Text) (v : Json) : List (Text × Json) → List (Text × Json)
  | [] => [(key, v)]
  | (k, w) :: fields => if k = key then (k, v) :: fields else (k, w) :: setField key v fields

/-- The constants and the words for numbers. -/
def words : List (List Char × Json) :=
  [("null".toList, .null), ("true".toList, .bool true), ("false".toList, .bool false),
    ("NaN".toList, .real .nan), ("Infinity".toList, .real (.infinite false))]

/-- A word and what follows. -/
def word? (s : List Char) : List (List Char × Json) → Option (Json × List Char)
  | [] => none
  | (w, v) :: rest =>
    match afterWord? w s with
    | some r => some (v, r)
    | none => word? s rest

/-- A text, number or word, and what follows. -/
def scalar? (limit : Option Nat) : List Char → Option (Json × List Char)
  | '"' :: r => (text? [] r).map fun (t, r) => (.str t, r)
  | s => (word? s words).or (signedNumber? limit s)

theorem length_of_word? {v : Json} {s r : List Char} {ws : List (List Char × Json)}
    (hne : ∀ w ∈ ws, w.1 ≠ []) (h : word? s ws = some (v, r)) : r.length < s.length := by
  induction ws with
  | nil => simp [word?] at h
  | cons w ws ih =>
    obtain ⟨w, v'⟩ := w
    rw [word?] at h
    split at h
    · next hw =>
      have h1 := length_of_afterWord? hw
      have h2 : 0 < w.length := List.length_pos_iff.2 (hne (w, v') (by simp))
      simp at h
      simp [← h.2]
      omega
    · exact ih (fun u hu => hne u (by simp [hu])) h

theorem length_of_scalar? {limit : Option Nat} {v : Json} {s r : List Char}
    (h : scalar? limit s = some (v, r)) : r.length < s.length := by
  unfold scalar? at h
  split at h
  · obtain ⟨⟨t, u⟩, ht, hu⟩ := Option.map_eq_some_iff.1 h
    have := length_of_text? ht
    simp at hu
    simp [← hu.2]
    omega
  · rw [Option.or_eq_some_iff] at h
    rcases h with h | ⟨_, h⟩
    · exact length_of_word? (by simp [words]) h
    · exact length_of_signedNumber? h

mutual

/-- One value and what follows. -/
def readValue? (limit : Option Nat) (s : List Char) : Option (Json × After s) :=
  match h : skipBlanks s with
  | '[' :: t =>
    have : t.length < s.length := length_lt_of_skipBlanks h
    match h' : skipBlanks t with
    | ']' :: r => some (.arr [], ⟨r, by have := length_lt_of_skipBlanks h'; omega⟩)
    | _ =>
      match readItems? limit [] t with
      | some (j, r) => some (j, ⟨r.1, by have := r.2; omega⟩)
      | none => none
  | '\x7b' :: t =>
    have : t.length < s.length := length_lt_of_skipBlanks h
    match h' : skipBlanks t with
    | '\x7d' :: r => some (.obj [], ⟨r, by have := length_lt_of_skipBlanks h'; omega⟩)
    | _ =>
      match readFields? limit [] t with
      | some (j, r) => some (j, ⟨r.1, by have := r.2; omega⟩)
      | none => none
  | t =>
    match h' : scalar? limit t with
    | some (j, r) =>
      some (j, ⟨r, by
        have := length_of_scalar? h'
        have := length_skipBlanks_le s
        simp_all
        omega⟩)
    | none => none
termination_by 2 * s.length

/-- The items of an array behind those `read` so far (the latest first), to the closing bracket. -/
def readItems? (limit : Option Nat) (read : List Json) (s : List Char) :
    Option (Json × After s) :=
  match readValue? limit s with
  | none => none
  | some (v, ⟨r, _⟩) =>
    match h : skipBlanks r with
    | ']' :: t => some (.arr (v :: read).reverse, ⟨t, by have := length_lt_of_skipBlanks h; omega⟩)
    | ',' :: t =>
      have := length_lt_of_skipBlanks h
      match readItems? limit (v :: read) t with
      | some (j, u) => some (j, ⟨u.1, by have := u.2; omega⟩)
      | none => none
    | _ => none
termination_by 2 * s.length + 1

/-- The fields of an object behind those `read` so far, to the closing brace. -/
def readFields? (limit : Option Nat) (read : List (Text × Json)) (s : List Char) :
    Option (Json × After s) :=
  match h : skipBlanks s with
  | '"' :: t =>
    have : t.length < s.length := length_lt_of_skipBlanks h
    match ht : text? [] t with
    | none => none
    | some (key, r) =>
      have := length_of_text? ht
      match h' : skipBlanks r with
      | ':' :: r =>
        have := length_lt_of_skipBlanks h'
        match readValue? limit r with
        | none => none
        | some (v, ⟨r, _⟩) =>
          match h'' : skipBlanks r with
          | '\x7d' :: u =>
            some (.obj (setField key v read),
              ⟨u, by have := length_lt_of_skipBlanks h''; omega⟩)
          | ',' :: u =>
            have := length_lt_of_skipBlanks h''
            match readFields? limit (setField key v read) u with
            | some (j, w) => some (j, ⟨w.1, by have := w.2; omega⟩)
            | none => none
          | _ => none
      | _ => none
  | _ => none
termination_by 2 * s.length + 1

end

/-- The value that a text spells, blanks around it allowed, with integers of at most `limit`
digits. -/
def parse? (limit : Option Nat) (text : String) : Option Json :=
  match readValue? limit text.toList with
  | some (j, r) => if (skipBlanks r.1).isEmpty then some j else none
  | none => none

end Plonkish.Json
