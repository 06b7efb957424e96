import Plonkish.Ir.Text
import Plonkish.Proofs.Ir
import Plonkish.Proofs.List
import Plonkish.Proofs.Scalar.Ring

/-!
# What identifiers tell

An identifier is a sequence of tokens, and no token's text is in front of another's, so identifiers
are equal only if their tokens are. The value of an expression can be computed from its tokens from
left to right. So can the expression itself, unless a constant stands where the right operand of a
product begins: nothing tells such a product from a scaled expression inside a product.

* `Ir.Token.eq_of_chars_append`: tokens are told apart, whatever follows them.
* `Ir.toList_identifier`: an identifier is made of tokens.
* `Ir.foldl_reckon_tokens`: reckoning along the tokens gives the value.
* `Ir.foldl_build_tokens`: building along the tokens gives the expression, if it is plain.
* `Ir.identifier_unambiguous`: expressions with equal identifiers have equal values, and are equal
  if both are plain.
-/

namespace Plonkish

namespace Ir

/-! ## Tokens -/

/-- A mark in an identifier. -/
inductive Mark
  | opening
  | closing
  | minus
  | plus
  | times
  deriving DecidableEq

/-- The character of a mark. -/
def Mark.char : Mark → Char
  | .opening => '('
  | .closing => ')'
  | .minus => '-'
  | .plus => '+'
  | .times => '*'

theorem Mark.char_injective : Function.Injective Mark.char := by
  intro m n h
  cases m <;> cases n <;> simp_all [Mark.char]

/-- A part of an identifier: a mark, or what stands for a constant or for a variable. -/
inductive Token
  | mark (m : Mark)
  /-- The constant at a position, or the variable of a class at a position. -/
  | atom (cls? : Option VariableClass) (index : Int)

namespace Token

/-- What an atom is called. -/
def label : Option VariableClass → String
  | none => "constant_index"
  | some cls => cls.label

/-- The characters of a token. -/
def chars : Token → List Char
  | mark m => [m.char]
  | atom cls? index => (label cls?).toList ++ '[' :: ((toString index).toList ++ [']'])

/-- What atoms stand for: constants, and variables of each class. -/
def kinds : List (Option VariableClass) := none :: VariableClass.all.map some

theorem mem_kinds (cls? : Option VariableClass) : cls? ∈ kinds := by
  rcases cls? with _ | _ | _ | _ | _ <;> decide

theorem label_injective : Function.Injective label := by
  have h : ∀ c ∈ kinds, ∀ d ∈ kinds, label c = label d → c = d := by decide
  intro c d
  exact h c (mem_kinds c) d (mem_kinds d)

theorem bracket_notMem_label (cls? : Option VariableClass) : '[' ∉ (label cls?).toList := by
  have h : ∀ c ∈ kinds, '[' ∉ (label c).toList := by decide
  exact h cls? (mem_kinds cls?)

theorem mark_notMem_label (m : Mark) (cls? : Option VariableClass) :
    m.char ∉ (label cls?).toList := by
  have h : ∀ c ∈ kinds, m.char ∉ (label c).toList := by cases m <;> decide
  exact h cls? (mem_kinds cls?)

theorem chars_ne_nil (x : Token) : x.chars ≠ [] := by
  cases x <;> simp [chars]

/-- An atom does not begin with a mark. -/
theorem mark_cons_ne_chars_append (m : Mark) (cls? : Option VariableClass) (index : Int)
    (s t : List Char) : m.char :: s ≠ (atom cls? index).chars ++ t := by
  intro h
  rw [chars, List.append_assoc] at h
  cases hlabel : (label cls?).toList with
  | nil =>
    rw [hlabel] at h
    have hchar : m.char = '[' := (List.cons.inj h).1
    cases m <;> cases hchar
  | cons c cs =>
    rw [hlabel] at h
    have hchar : m.char = c := (List.cons.inj h).1
    have hmem : m.char ∈ (label cls?).toList := by rw [hlabel, hchar]; exact List.mem_cons_self
    exact mark_notMem_label m cls? hmem

/-- Tokens are told apart, whatever follows them. -/
theorem eq_of_chars_append (x y : Token) (s t : List Char) (h : x.chars ++ s = y.chars ++ t) :
    x = y ∧ s = t := by
  cases x with
  | mark m =>
    cases y with
    | mark n =>
      obtain ⟨hchar, hrest⟩ := List.cons.inj h
      exact ⟨congrArg mark (Mark.char_injective hchar), hrest⟩
    | atom d j => exact absurd h (mark_cons_ne_chars_append m d j s t)
  | atom c i =>
    cases y with
    | mark n => exact absurd h.symm (mark_cons_ne_chars_append n c i t s)
    | atom d j =>
      simp only [chars, List.append_assoc, List.cons_append, List.nil_append] at h
      obtain ⟨hlabel, h⟩ := eq_of_append_cons (bracket_notMem_label c) (bracket_notMem_label d) h
      obtain ⟨rfl, hrest⟩ := eq_of_number_append (by decide) (by decide) h
      obtain rfl := label_injective (String.toList_inj.1 hlabel)
      exact ⟨rfl, hrest⟩

end Token

/-- The tokens of an identifier. -/
def tokens : Ir → List Token
  | .const i => [.atom none i]
  | .var cls i => [.atom (some cls) i]
  | .neg e => .mark .opening :: .mark .minus :: (e.tokens ++ [.mark .closing])
  | .sum a b => .mark .opening :: (a.tokens ++ .mark .plus :: (b.tokens ++ [.mark .closing]))
  | .product a b => .mark .opening :: (a.tokens ++ .mark .times :: (b.tokens ++ [.mark .closing]))
  | .scaled e i => e.tokens ++ [.mark .times, .atom none i]

/-- The text of an atom has the characters of its token. -/
theorem toList_atom (cls? : Option VariableClass) (i : Int) :
    (Token.label cls? ++ "[" ++ toString i ++ "]").toList = (Token.atom cls? i).chars := by
  simp only [String.toList_append, List.append_assoc, Token.chars]
  rfl

theorem toList_constantText (i : Int) : (constantText i).toList = (Token.atom none i).chars := by
  have htext : constantText i = "constant_index[" ++ toString i ++ "]" := rfl
  have hbracket : "constant_index[" = Token.label none ++ "[" := by decide
  rw [htext, hbracket, toList_atom]

/-- A formula is made of tokens. -/
theorem toList_formula (e : Ir) : e.formula.toList = e.tokens.flatMap Token.chars := by
  induction e with
  | const i => rw [formula, toList_constantText, tokens, List.flatMap_singleton]
  | var cls i =>
    have htext : (var cls i).formula = Token.label (some cls) ++ "[" ++ toString i ++ "]" := rfl
    rw [htext, toList_atom, tokens, List.flatMap_singleton]
  | neg e ih =>
    simp only [formula, String.toList_append, ih, tokens, List.flatMap_cons, List.flatMap_append,
      List.flatMap_nil, List.append_assoc]
    rfl
  | sum a b iha ihb =>
    simp only [formula, String.toList_append, iha, ihb, tokens, List.flatMap_cons,
      List.flatMap_append, List.flatMap_nil, List.append_assoc]
    rfl
  | product a b iha ihb =>
    simp only [formula, String.toList_append, iha, ihb, tokens, List.flatMap_cons,
      List.flatMap_append, List.flatMap_nil, List.append_assoc]
    rfl
  | scaled e i ih =>
    simp only [formula, String.toList_append, ih, toList_constantText, tokens, List.flatMap_cons,
      List.flatMap_append, List.flatMap_nil, List.append_nil]
    rfl

/-- An identifier is made of tokens. -/
theorem toList_identifier (e : Ir) : e.identifier.toList = e.tokens.flatMap Token.chars := by
  rw [identifier_eq_formula, toList_formula]

/-- Equal identifiers have equal tokens. -/
theorem tokens_eq_of_identifier_eq {a b : Ir} (h : a.identifier = b.identifier) :
    a.tokens = b.tokens := by
  refine flatMap_injective Token.chars_ne_nil Token.eq_of_chars_append ?_
  show a.tokens.flatMap Token.chars = b.tokens.flatMap Token.chars
  rw [← toList_identifier, ← toList_identifier, h]

/-! ## Values along the tokens -/

/-- What has been reckoned since a parenthesis was opened: the sum of the finished operands, and the
product of the factors of the one that is not finished. -/
structure Group where
  sum : Scalar
  product : Scalar

/-- Reckons with one more token, the innermost group first. Multiplying from left to right needs no
mark between factors. -/
def reckon (constant : Int → Scalar) (var : VariableClass → Int → Scalar) :
    List Group → Token → List Group
  | g :: outer, .atom none i => ⟨g.sum, g.product * constant i⟩ :: outer
  | g :: outer, .atom (some cls) i => ⟨g.sum, g.product * var cls i⟩ :: outer
  | g :: outer, .mark .opening => ⟨0, 1⟩ :: g :: outer
  | g :: outer, .mark .minus => ⟨g.sum, -g.product⟩ :: outer
  | g :: outer, .mark .plus => ⟨g.sum + g.product, 1⟩ :: outer
  | g :: h :: outer, .mark .closing => ⟨h.sum, h.product * (g.sum + g.product)⟩ :: outer
  | groups, _ => groups

variable (constant : Int → Scalar) (var : VariableClass → Int → Scalar)

/-- Reckoning along the tokens of an expression multiplies the product so far by its value. -/
theorem foldl_reckon_tokens (e : Ir) (g : Group) (outer : List Group) :
    e.tokens.foldl (reckon constant var) (g :: outer) =
      ⟨g.sum, g.product * e.eval constant var⟩ :: outer := by
  induction e generalizing g outer with
  | const i => rfl
  | var cls i => rfl
  | neg e ih =>
    simp only [tokens, List.foldl_cons, List.foldl_append, List.foldl_nil, reckon, ih, eval]
    ring_nf
  | sum a b iha ihb =>
    simp only [tokens, List.foldl_cons, List.foldl_append, List.foldl_nil, reckon, iha, ihb, eval]
    ring_nf
  | product a b iha ihb =>
    simp only [tokens, List.foldl_cons, List.foldl_append, List.foldl_nil, reckon, iha, ihb, eval]
    ring_nf
  | scaled e i ih =>
    simp only [tokens, List.foldl_cons, List.foldl_append, List.foldl_nil, reckon, ih, eval]
    ring_nf

/-- Expressions with equal tokens have equal values. -/
theorem eval_eq_of_tokens_eq {a b : Ir} (h : a.tokens = b.tokens) :
    a.eval constant var = b.eval constant var := by
  have ha := foldl_reckon_tokens constant var a ⟨0, 1⟩ []
  have hb := foldl_reckon_tokens constant var b ⟨0, 1⟩ []
  rw [h, hb] at ha
  obtain ⟨-, hproduct⟩ := Group.mk.inj (List.cons.inj ha).1
  rw [one_mul, one_mul] at hproduct
  exact hproduct.symm

/-! ## Expressions along the tokens -/

/-- Whether an expression is a constant, scaled any number of times. -/
def isConstantMultiple : Ir → Bool
  | .const _ => true
  | .scaled e _ => e.isConstantMultiple
  | _ => false

/-- No product has a constant, scaled any number of times, for its right operand. -/
def IsPlain (e : Ir) : Prop := ∀ a b, product a b ∈ e.subtrees → b.isConstantMultiple = false

theorem IsPlain.mono {e e' : Ir} (h : e.IsPlain) (hsub : e'.subtrees ⊆ e.subtrees) : e'.IsPlain :=
  fun a b hmem => h a b (hsub hmem)

/-- What waits for its last operand since a parenthesis was opened. -/
inductive Pending
  | nothing
  | neg
  | sum (lhs : Ir)
  | product (lhs : Ir)

/-- The expression with its last operand. -/
def Pending.finish : Pending → Ir → Ir
  | .nothing, e => e
  | .neg, e => .neg e
  | .sum a, e => .sum a e
  | .product a, e => .product a e

/-- What has been built since a parenthesis was opened. -/
structure Site where
  pending : Pending
  operand? : Option Ir

/-- Puts a factor behind the operand. A constant scales it, and any other factor makes it the left
operand of a product. -/
def Site.put : Site → Ir → Site
  | ⟨p, none⟩, e => ⟨p, some e⟩
  | ⟨p, some a⟩, .const i => ⟨p, some (.scaled a i)⟩
  | ⟨_, some a⟩, e => ⟨.product a, some e⟩

/-- Builds with one more token, the innermost site first. -/
def build : List Site → Token → List Site
  | s :: outer, .atom none i => s.put (.const i) :: outer
  | s :: outer, .atom (some cls) i => s.put (.var cls i) :: outer
  | sites, .mark .opening => ⟨.nothing, none⟩ :: sites
  | _ :: outer, .mark .minus => ⟨.neg, none⟩ :: outer
  | ⟨_, some a⟩ :: outer, .mark .plus => ⟨.sum a, none⟩ :: outer
  | ⟨p, some a⟩ :: s :: outer, .mark .closing => s.put (p.finish a) :: outer
  | sites, _ => sites

theorem put_some {p : Pending} {a e : Ir} (h : e.isConstantMultiple = false) :
    Site.put ⟨p, some a⟩ e = ⟨.product a, some e⟩ := by
  cases e with
  | const i => cases h
  | _ => rfl

/-- Building along the tokens of a plain expression puts it behind the operand so far. If there is
one, the expression must not be read as its scalings. -/
theorem foldl_build_tokens {e : Ir} (h : e.IsPlain) (s : Site) (outer : List Site)
    (hs : s.operand? = none ∨ e.isConstantMultiple = false) :
    e.tokens.foldl build (s :: outer) = s.put e :: outer := by
  induction e generalizing s outer with
  | const i => rfl
  | var cls i => rfl
  | neg e ih =>
    have he : e.IsPlain := h.mono (List.subset_cons_self _ _)
    simp only [tokens, List.foldl_cons, List.foldl_append, List.foldl_nil, build]
    rw [ih he _ _ (.inl rfl)]
    rfl
  | sum a b iha ihb =>
    have ha : a.IsPlain := h.mono fun x hx => List.mem_cons_of_mem _ (List.mem_append_left _ hx)
    have hb : b.IsPlain := h.mono fun x hx => List.mem_cons_of_mem _ (List.mem_append_right _ hx)
    simp only [tokens, List.foldl_cons, List.foldl_append, List.foldl_nil, build]
    rw [iha ha _ _ (.inl rfl)]
    simp only [Site.put]
    rw [ihb hb _ _ (.inl rfl)]
    rfl
  | product a b iha ihb =>
    have ha : a.IsPlain := h.mono fun x hx => List.mem_cons_of_mem _ (List.mem_append_left _ hx)
    have hb : b.IsPlain := h.mono fun x hx => List.mem_cons_of_mem _ (List.mem_append_right _ hx)
    have hright : b.isConstantMultiple = false := h a b List.mem_cons_self
    simp only [tokens, List.foldl_cons, List.foldl_append, List.foldl_nil, build]
    rw [iha ha _ _ (.inl rfl)]
    simp only [Site.put]
    rw [ihb hb _ _ (.inr hright), put_some hright]
    rfl
  | scaled e i ih =>
    have he : e.IsPlain := h.mono (List.subset_cons_self _ _)
    simp only [tokens, List.foldl_append, List.foldl_cons, List.foldl_nil]
    rw [ih he s outer hs]
    obtain ⟨p, operand?⟩ := s
    cases operand? with
    | none => rfl
    | some a =>
      have hright : e.isConstantMultiple = false := hs.resolve_left (Option.some_ne_none a)
      rw [put_some hright, put_some (e := scaled e i) hright]
      rfl

/-- Plain expressions with equal tokens are equal. -/
theorem eq_of_tokens_eq {a b : Ir} (ha : a.IsPlain) (hb : b.IsPlain) (h : a.tokens = b.tokens) :
    a = b := by
  have hbuild := foldl_build_tokens ha ⟨.nothing, none⟩ [] (.inl rfl)
  rw [h, foldl_build_tokens hb ⟨.nothing, none⟩ [] (.inl rfl)] at hbuild
  simp only [Site.put, List.cons.injEq, Site.mk.injEq, Option.some.injEq] at hbuild
  exact hbuild.1.2.symm

/-! ## Identifiers -/

/-- Expressions with equal identifiers have equal values, whatever their constants and variables
stand for. They are equal, if no product in either of them has a constant, scaled any number of
times, for its right operand. -/
theorem identifier_unambiguous (a b : Ir) (h : a.identifier = b.identifier) :
    (∀ (constant : Int → Scalar) (var : VariableClass → Int → Scalar),
      a.eval constant var = b.eval constant var) ∧
    (a.IsPlain → b.IsPlain → a = b) := by
  have htokens : a.tokens = b.tokens := tokens_eq_of_identifier_eq h
  exact ⟨fun _ _ => eval_eq_of_tokens_eq _ _ htokens, fun ha hb => eq_of_tokens_eq ha hb htokens⟩

/-- A scaled variable times a scaled constant. -/
def scaledBoth : Ir := .product (.scaled (.var .advice 0) 1) (.scaled (.const 2) 3)

/-- A variable times a constant that is scaled twice. -/
def scaledTwice : Ir := .product (.var .advice 0) (.scaled (.scaled (.const 1) 2) 3)

/-- A product of scaled expressions, neither of which is a scaled constant. -/
def scaledApart : Ir := .product (.scaled (.neg (.var .fixed 7)) 1) (.scaled (.var .advice 12) 3)

theorem identifier_unambiguous_scaled :
    scaledBoth.identifier = scaledTwice.identifier ∧ scaledBoth ≠ scaledTwice ∧
      (∀ (constant : Int → Scalar) (var : VariableClass → Int → Scalar),
        scaledBoth.eval constant var = scaledTwice.eval constant var) ∧
      scaledApart.IsPlain ∧
      ∀ b : Ir, b.IsPlain → scaledApart.identifier = b.identifier → scaledApart = b := by
  have hsame : scaledBoth.identifier = scaledTwice.identifier := by
    rw [identifier_eq_formula, identifier_eq_formula]
    decide +kernel
  have hplain : scaledApart.IsPlain := by
    intro a b hmem
    obtain ⟨-, rfl⟩ := by simpa [scaledApart, subtrees] using hmem
    rfl
  exact ⟨hsame, by decide, (identifier_unambiguous _ _ hsame).1, hplain,
    fun b hb h => (identifier_unambiguous _ b h).2 hplain hb⟩

end Ir

end Plonkish
