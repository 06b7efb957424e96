import Mathlib.Data.List.Basic
import Plonkish.Number.Literal
import Plonkish.Proofs.Outcome

/-!
# Integers written as literals

What an integer is written as, in any base that has a prefix or in base ten, is read as the integer.

* `Literal.digits?_toDigits`: the digits of a number are read as the number.
* `Literal.written`: an integer in base ten, or in another base with its prefix.
* `Literal.parse_written`: what is written is read back, unless it is too long.
-/

namespace Plonkish.Literal

variable {base n d : Nat} {c : Char} {cs : List Char} {v : Int} {limit : Option Nat}

/-! ## Digits -/

/-- Induction on the digits of a number, the last one split off. -/
theorem induction_on_digits {motive : Nat → Prop} (hbase : 1 < base)
    (digit : ∀ d < base, motive d) (more : ∀ n, base ≤ n → motive (n / base) → motive n)
    (n : Nat) : motive n := by
  induction n using Nat.strongRecOn with
  | _ n ih =>
    rcases Nat.lt_or_ge n base with hlt | hle
    · exact digit n hlt
    · exact more n hle (ih (n / base) (Nat.div_lt_self (by omega) hbase))

/-- A number is written with digits of its base. -/
theorem exists_of_mem_toDigits (hbase : 1 < base) (h : c ∈ Nat.toDigits base n) :
    ∃ d < base, c = d.digitChar := by
  induction n using induction_on_digits hbase with
  | digit d hd =>
    rw [Nat.toDigits_of_lt_base hd] at h
    exact ⟨d, hd, List.mem_singleton.1 h⟩
  | more n hn ih =>
    rw [Nat.toDigits_of_base_le hbase hn] at h
    rcases List.mem_append.1 h with h | h
    · exact ih h
    · exact ⟨n % base, Nat.mod_lt n (by omega), List.mem_singleton.1 h⟩

/-- Only zero is written with a zero in front. -/
theorem eq_zero_of_head?_toDigits (hbase : 1 < base)
    (h : (Nat.toDigits base n).head? = some '0') : n = 0 := by
  induction n using induction_on_digits hbase with
  | digit d hd =>
    rw [Nat.toDigits_of_lt_base hd] at h
    exact Nat.digitChar_eq_zero.1 (Option.some.inj h)
  | more n hn ih =>
    rw [Nat.toDigits_of_base_le hbase hn, List.head?_append_of_ne_nil _ Nat.toDigits_ne_nil] at h
    have hpos : 0 < n / base := Nat.div_pos hn (by omega)
    exact absurd (ih h) (Nat.ne_of_gt hpos)

theorem digit?_digitChar (h : d < base) (hbase : base ≤ 16) :
    digit? base d.digitChar = some d := by
  have hsixteen : ∀ d < 16, digit? 16 (Nat.digitChar d) = some d := by decide
  have hvalue := hsixteen d (Nat.lt_of_lt_of_le h hbase)
  unfold digit? at hvalue ⊢
  obtain ⟨hsome, -⟩ := Option.filter_eq_some_iff.1 hvalue
  exact Option.filter_eq_some_iff.2 ⟨hsome, decide_eq_true h⟩

theorem digitChar_ne_underscore : d.digitChar ≠ '_' := Nat.digitChar_ne '_' rfl

theorem digits?_cons_digitChar (h : d < base) (hbase : base ≤ 16) (acc : Nat) (afterDigit : Bool) :
    digits? base acc afterDigit (d.digitChar :: cs) = digits? base (base * acc + d) true cs := by
  rw [digits?.eq_3 _ _ _ _ _ digitChar_ne_underscore, digit?_digitChar h hbase]

theorem digits?_toDigits_append (hbase : 1 < base) (hle : base ≤ 16) (n : Nat) (rest : List Char)
    (afterDigit : Bool) :
    digits? base 0 afterDigit (Nat.toDigits base n ++ rest) = digits? base n true rest := by
  induction n using induction_on_digits hbase generalizing rest with
  | digit d hd =>
    rw [Nat.toDigits_of_lt_base hd, List.singleton_append, digits?_cons_digitChar hd hle,
      Nat.mul_zero, Nat.zero_add]
  | more n hn ih =>
    have hlast : n % base < base := Nat.mod_lt n (by omega)
    rw [Nat.toDigits_of_base_le hbase hn, List.append_assoc, ih, List.singleton_append,
      digits?_cons_digitChar hlast hle, Nat.div_add_mod]

/-- The digits of a number are read as the number. -/
theorem digits?_toDigits (hbase : 1 < base) (hle : base ≤ 16) (n : Nat) :
    digits? base 0 false (Nat.toDigits base n) = some n := by
  have happend := digits?_toDigits_append hbase hle n [] false
  rwa [List.append_nil] at happend

theorem runLength?_cons_digitChar (h : d < 10) (count : Nat) (afterDigit : Bool) :
    runLength? count afterDigit (d.digitChar :: cs) = runLength? (count + 1) true cs := by
  rw [runLength?.eq_3 _ _ _ _ digitChar_ne_underscore, digit?_digitChar h (by decide)]

theorem runLength?_toDigits_append (n : Nat) (rest : List Char) (count : Nat) (afterDigit : Bool) :
    runLength? count afterDigit (Nat.toDigits 10 n ++ rest) =
      runLength? (count + (Nat.toDigits 10 n).length) true rest := by
  induction n using induction_on_digits (show 1 < 10 by decide) generalizing rest with
  | digit d hd =>
    rw [Nat.toDigits_of_lt_base hd]
    exact runLength?_cons_digitChar hd count afterDigit
  | more n hn ih =>
    have hlast : n % 10 < 10 := Nat.mod_lt n (by decide)
    rw [Nat.toDigits_of_base_le (by decide) hn, List.append_assoc, ih, List.singleton_append,
      runLength?_cons_digitChar hlast, List.length_append, List.length_singleton, Nat.add_assoc]

/-- A number in base ten is one run of digits. -/
theorem runLength?_toDigits (n : Nat) :
    runLength? 0 false (Nat.toDigits 10 n) = some (Nat.toDigits 10 n).length := by
  have happend := runLength?_toDigits_append n [] 0 false
  rwa [List.append_nil, Nat.zero_add] at happend

/-! ## Plain texts -/

/-- A character that stands for itself in a literal. -/
def IsPlain (c : Char) : Prop := c.toNat < 128 ∧ isBlank c = false

instance : Decidable (IsPlain c) := inferInstanceAs (Decidable (_ ∧ _))

theorem asciiChar_ofChar (h : IsPlain c) : asciiChar (.ofChar c) = c := by
  have hascii : (CodePoint.ofChar c).val < 128 := h.1
  rw [asciiChar, if_pos hascii]
  exact Char.ofNat_toNat c

theorem dropWhile_isBlank (h : ∀ c ∈ cs, IsPlain c) : cs.dropWhile isBlank = cs := by
  cases cs with
  | nil => rfl
  | cons c cs =>
    have hplain := (List.forall_mem_cons.1 h).1
    exact List.dropWhile_cons_of_neg (by simp [hplain.2])

/-- Nothing is trimmed from a text of plain characters. -/
theorem trimmed_ofList (h : ∀ c ∈ cs, IsPlain c) : trimmed (.ofString (.ofList cs)) = cs := by
  have hascii : (cs.map CodePoint.ofChar).map asciiChar = cs := by
    rw [List.map_map]
    exact List.map_congr_left (fun c hc => asciiChar_ofChar (h c hc)) |>.trans (List.map_id cs)
  have hreverse : ∀ c ∈ cs.reverse, IsPlain c := fun c hc => h c (List.mem_reverse.1 hc)
  rw [trimmed, Text.ofString, String.toList_ofList, hascii, dropWhile_isBlank h,
    dropWhile_isBlank hreverse, List.reverse_reverse]

theorem isPlain_of_mem_toDigits (hbase : 1 < base) (hle : base ≤ 16)
    (h : c ∈ Nat.toDigits base n) : IsPlain c := by
  have hsixteen : ∀ d < 16, IsPlain (Nat.digitChar d) := by decide
  obtain ⟨d, hd, rfl⟩ := exists_of_mem_toDigits hbase h
  exact hsixteen d (Nat.lt_of_lt_of_le hd hle)

/-! ## Written integers -/

/-- What stands in front of the digits of a base. Base ten has no mark. -/
def baseMark : (base : Nat) → List Char
  | 16 => ['0', 'x']
  | 8 => ['0', 'o']
  | 2 => ['0', 'b']
  | _ => []

/-- The bases of literals. -/
def bases : List Nat := [10, 16, 8, 2]

/-- The characters of a natural number in a base. -/
def unsignedChars (base n : Nat) : List Char := baseMark base ++ Nat.toDigits base n

/-- The characters of an integer in a base. -/
def signedChars (base : Nat) (v : Int) : List Char :=
  (if v < 0 then ['-'] else []) ++ unsignedChars base v.natAbs

/-- An integer written in a base: its sign if it is negative, what marks the base and the digits,
without leading zeros. -/
def written (base : Nat) (v : Int) : Text := .ofString (.ofList (signedChars base v))

/-- In base ten an integer is written as usual. -/
theorem written_ten (v : Int) : written 10 v = .ofString (toString v) := by
  have hchars : (toString v).toList = signedChars 10 v := by
    rw [Int.toString_eq_repr, Int.repr_eq_if, signedChars]
    split
    · next h =>
      rw [if_neg (Int.not_lt.2 h), Nat.toList_repr]
      congr 2
      omega
    · next h =>
      rw [if_pos (Int.not_le.1 h), String.toList_append, Nat.toList_repr]
      congr 2
      omega
  rw [written, ← hchars, String.ofList_toList]

theorem isPlain_of_mem_baseMark (hbase : base ∈ bases) (h : c ∈ baseMark base) : IsPlain c := by
  have hall : ∀ base ∈ bases, (baseMark base).all (IsPlain ·) = true := by decide
  exact of_decide_eq_true (List.all_eq_true.1 (hall base hbase) c h)

theorem isPlain_of_mem_signedChars (hbase : base ∈ bases) :
    ∀ c ∈ signedChars base v, IsPlain c := by
  have hbounds : ∀ base ∈ bases, 1 < base ∧ base ≤ 16 := by decide
  obtain ⟨hone, hle⟩ := hbounds base hbase
  simp only [signedChars, unsignedChars, List.forall_mem_append]
  refine ⟨?_, fun c hc => isPlain_of_mem_baseMark hbase hc,
    fun c hc => isPlain_of_mem_toDigits hone hle hc⟩
  split
  · exact List.forall_mem_singleton.2 (by decide)
  · exact List.forall_mem_nil _

/-- A number in base ten has no mark of another base in front. -/
theorem prefixBase?_toDigits (n : Nat) : prefixBase? (Nat.toDigits 10 n) = none := by
  unfold prefixBase?
  split
  · next p cs h =>
    have hhead : (Nat.toDigits 10 n).head? = some '0' := by rw [h]; rfl
    have hzero : n = 0 := eq_zero_of_head?_toDigits (by decide) hhead
    subst hzero
    cases h
  · rfl

theorem plain?_toDigits (n : Nat) : plain? (Nat.toDigits 10 n) = some n := by
  unfold plain?
  rw [digits?_toDigits (by decide) (by decide)]
  split
  · next hhead hsome =>
    have hzero := eq_zero_of_head?_toDigits (by decide) hhead
    cases hzero.symm.trans (Option.some.inj hsome)
  · rfl

theorem prefixed?_toDigits (hbase : 1 < base) (hle : base ≤ 16) (n : Nat) :
    prefixed? base (Nat.toDigits base n) = some n := by
  rw [prefixed?.eq_2, digits?_toDigits hbase hle]
  intro cs h
  obtain ⟨d, -, hd⟩ := exists_of_mem_toDigits hbase (h ▸ List.mem_cons_self : '_' ∈ _)
  exact digitChar_ne_underscore hd.symm

/-- What is written without a sign is read back. -/
theorem unsigned?_unsignedChars (hbase : base ∈ bases) (n : Nat) :
    unsigned? (unsignedChars base n) = some n := by
  simp only [bases, List.mem_cons, List.not_mem_nil, or_false] at hbase
  rcases hbase with rfl | rfl | rfl | rfl
  · have hten : unsignedChars 10 n = Nat.toDigits 10 n := rfl
    rw [hten, unsigned?, prefixBase?_toDigits, plain?_toDigits]
  all_goals exact prefixed?_toDigits (by decide) (by decide) n

/-- Without a sign, a digit comes first. -/
theorem exists_head_unsignedChars (hbase : base ∈ bases) (n : Nat) :
    ∃ d cs, unsignedChars base n = Nat.digitChar d :: cs := by
  simp only [bases, List.mem_cons, List.not_mem_nil, or_false] at hbase
  rcases hbase with rfl | rfl | rfl | rfl
  · obtain ⟨c, cs, hcs⟩ := List.exists_cons_of_ne_nil (Nat.toDigits_ne_nil (n := n) (b := 10))
    obtain ⟨d, -, rfl⟩ := exists_of_mem_toDigits (by decide) (hcs ▸ List.mem_cons_self : c ∈ _)
    exact ⟨d, cs, hcs⟩
  all_goals exact ⟨0, _, rfl⟩

/-- What is written is read back. -/
theorem signed?_signedChars (hbase : base ∈ bases) (v : Int) :
    signed? unsigned? (signedChars base v) = some v := by
  have hunsigned := unsigned?_unsignedChars hbase v.natAbs
  rw [signedChars]
  split
  · next hneg =>
    have habs : -(v.natAbs : Int) = v := by omega
    rw [List.singleton_append, signed?.eq_2, hunsigned]
    exact congrArg some habs
  · next hnonneg =>
    obtain ⟨d, cs, hcs⟩ := exists_head_unsignedChars hbase v.natAbs
    have hplus : d.digitChar ≠ '+' := Nat.digitChar_ne '+' rfl
    have hminus : d.digitChar ≠ '-' := Nat.digitChar_ne '-' rfl
    have habs : (v.natAbs : Int) = v := by omega
    rw [List.nil_append, signed?.eq_3, hunsigned]
    · exact congrArg some habs
    all_goals
      rw [hcs]
      simp [hplus, hminus]

theorem behindSign_signedChars (hbase : base ∈ bases) (v : Int) :
    behindSign (signedChars base v) = unsignedChars base v.natAbs := by
  rw [signedChars]
  split
  · rfl
  · obtain ⟨d, cs, hcs⟩ := exists_head_unsignedChars hbase v.natAbs
    have hplus : d.digitChar ≠ '+' := Nat.digitChar_ne '+' rfl
    have hminus : d.digitChar ≠ '-' := Nat.digitChar_ne '-' rfl
    rw [List.nil_append, behindSign.eq_3]
    all_goals
      rw [hcs]
      simp [hplus, hminus]

/-- In base ten an integer has no more digits than a limit. -/
def IsWithin (limit : Option Nat) (v : Int) : Prop :=
  ∀ most ∈ limit, (Nat.toDigits 10 v.natAbs).length ≤ most

theorem isWithin_none (v : Int) : IsWithin none v := nofun

theorem checkLength_toDigits (h : IsWithin limit v) :
    checkLength limit (Nat.toDigits 10 v.natAbs) = .ok () := by
  unfold checkLength
  rw [runLength?_toDigits]
  cases limit with
  | none => rfl
  | some most => exact if_pos (h most rfl)

/-- What an integer is written as is read as the integer, if it is within the limit. -/
theorem parse_written (hbase : base ∈ bases) (h : IsWithin limit v) :
    parse limit (written base v) = .ok v := by
  have hlength : checkLength (if (prefixBase? (unsignedChars base v.natAbs)).isSome then none
      else limit) (unsignedChars base v.natAbs) = .ok () := by
    have hcases := hbase
    simp only [bases, List.mem_cons, List.not_mem_nil, or_false] at hcases
    rcases hcases with rfl | rfl | rfl | rfl
    · have hten : unsignedChars 10 v.natAbs = Nat.toDigits 10 v.natAbs := rfl
      rw [hten, prefixBase?_toDigits]
      exact checkLength_toDigits h
    -- Only base ten is limited.
    all_goals rfl
  simp only [parse, written, trimmed_ofList (isPlain_of_mem_signedChars hbase),
    behindSign_signedChars hbase, hlength, signed?_signedChars hbase]
  rfl

end Plonkish.Literal
