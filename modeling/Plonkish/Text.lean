/-!
# Texts

A text is a list of code points. It may hold halves of surrogate pairs, which JSON can spell and no
`String` can hold: a text with one has no encoding, and the first run of them is to blame. A line of
a text ends behind a line feed, a carriage return, or both in that order, and behind the other line
and paragraph boundaries of Unicode. The end of the last line may be absent.

* `Text.toString?_ofString`, `Text.ofString_of_toString?`: the text of a string gives the string
  back, and what gives a string is its text.
* `Text.toString?_eq_none_iff`: a text has no encoding exactly if some code point is no character.
* `Text.joined_splitOn`: the parts of a text, joined by what separates them, give the text back.
-/

namespace Plonkish

/-- A code point: the number of a character, or of half of a surrogate pair. -/
structure CodePoint where
  val : Nat
  deriving DecidableEq, Repr, Inhabited

namespace CodePoint

/-- The code point of a character. -/
def ofChar (c : Char) : CodePoint := ⟨c.toNat⟩

/-- The character with a code point. Half of a surrogate pair is none. -/
def toChar? (p : CodePoint) : Option Char :=
  if p.val.isValidChar then some (Char.ofNat p.val) else none

@[simp] theorem toChar?_ofChar (c : Char) : (ofChar c).toChar? = some c := by
  have h : c.toNat.isValidChar := c.valid
  simp [toChar?, ofChar, h]

theorem ofChar_of_toChar? {p : CodePoint} {c : Char} (h : p.toChar? = some c) : ofChar c = p := by
  unfold toChar? at h
  split at h
  · next hp =>
    cases h
    rw [ofChar, Char.ofNat, dif_pos hp]
    rfl
  · cases h

/-- Whether a code point is half of a surrogate pair. -/
def isSurrogate (p : CodePoint) : Bool := 0xd800 ≤ p.val && p.val < 0xe000

/-- Whether a code point ends a line. -/
def endsLine (p : CodePoint) : Bool :=
  let n := p.val
  (0x0a ≤ n && n ≤ 0x0d) || (0x1c ≤ n && n ≤ 0x1e) || n == 0x85 || n == 0x2028 || n == 0x2029

end CodePoint

/-- A text. -/
structure Text where
  points : List CodePoint
  deriving DecidableEq, Repr, Inhabited

namespace Text

/-- The text of a string. -/
def ofString (s : String) : Text := ⟨s.toList.map .ofChar⟩

instance : Coe String Text := ⟨ofString⟩

instance : Append Text := ⟨fun a b => ⟨a.points ++ b.points⟩⟩

/-- The string with the characters of a text, if each of its code points is one. -/
def toString? (t : Text) : Option String := (t.points.mapM CodePoint.toChar?).map String.ofList

/-- Texts one behind the other. -/
def concat (texts : List Text) : Text := ⟨texts.flatMap points⟩

/-- Texts one behind the other with a separator between them. -/
def joined (separator : Text) : List Text → Text
  | [] => ⟨[]⟩
  | t :: texts => t ++ concat (texts.map (separator ++ ·))

/-- The parts of code points between separators. -/
def splitPoints (separator : CodePoint) : List CodePoint → List CodePoint × List (List CodePoint)
  | [] => ([], [])
  | p :: ps =>
    let (part, parts) := splitPoints separator ps
    if p = separator then ([], part :: parts) else (p :: part, parts)

/-- The parts of a text between separators. There is at least one. -/
def splitOn (t : Text) (separator : CodePoint) : List Text :=
  let (part, parts) := splitPoints separator t.points
  ⟨part⟩ :: parts.map Text.mk

/-- The characters of a text, halves of surrogate pairs as the replacement character. -/
def toChars (t : Text) : List Char := t.points.map fun p => p.toChar?.getD '\ufffd'

theorem splitPoints_flatMap (separator : CodePoint) (ps : List CodePoint) :
    (splitPoints separator ps).1 ++ (splitPoints separator ps).2.flatMap (separator :: ·) = ps := by
  induction ps with
  | nil => rfl
  | cons p ps ih => by_cases h : p = separator <;> simp_all [splitPoints]

theorem joined_splitOn (t : Text) (separator : CodePoint) :
    joined ⟨[separator]⟩ (t.splitOn separator) = t := by
  obtain ⟨ps⟩ := t
  have h := splitPoints_flatMap separator ps
  have hparts (parts : List (List CodePoint)) :
      ((parts.map Text.mk).map (⟨[separator]⟩ ++ ·)).flatMap points =
        parts.flatMap (separator :: ·) := by
    rw [List.map_map, List.flatMap_map]
    rfl
  exact congrArg Text.mk ((congrArg (_ ++ ·) (hparts _)).trans h)

theorem mapM_toChar?_ofChar (cs : List Char) :
    (cs.map CodePoint.ofChar).mapM CodePoint.toChar? = some cs := by
  induction cs with
  | nil => rfl
  | cons c cs ih => simp [List.mapM_cons, ih]

theorem toString?_ofString (s : String) : (ofString s).toString? = some s := by
  rw [toString?, ofString, mapM_toChar?_ofChar, Option.map_some, String.ofList_toList]

theorem map_ofChar_of_mapM {ps : List CodePoint} {cs : List Char}
    (h : ps.mapM CodePoint.toChar? = some cs) : cs.map CodePoint.ofChar = ps := by
  induction ps generalizing cs with
  | nil => cases h; rfl
  | cons p ps ih =>
    rw [List.mapM_cons] at h
    obtain ⟨c, hc, h⟩ := Option.bind_eq_some_iff.1 h
    obtain ⟨cs, hcs, h⟩ := Option.bind_eq_some_iff.1 h
    cases h
    rw [List.map_cons, CodePoint.ofChar_of_toChar? hc, ih hcs]

theorem ofString_of_toString? {t : Text} {s : String} (h : t.toString? = some s) :
    ofString s = t := by
  obtain ⟨cs, hcs, rfl⟩ := Option.map_eq_some_iff.1 h
  rw [ofString, String.toList_ofList, map_ofChar_of_mapM hcs]

/-! ## Texts without an encoding -/

/-- The first run of halves of surrogate pairs: the position of its first code point, and that
behind its last. -/
def surrogates? (t : Text) : Option (Nat × Nat) :=
  (t.points.findIdx? CodePoint.isSurrogate).map fun first =>
    (first, first + ((t.points.drop first).takeWhile CodePoint.isSurrogate).length)

theorem mapM_toChar?_eq_none_iff (ps : List CodePoint) :
    ps.mapM CodePoint.toChar? = none ↔ ∃ p ∈ ps, p.toChar? = none := by
  induction ps with
  | nil => simp
  | cons p ps ih =>
    rw [List.mapM_cons]
    cases h : p.toChar? with
    | none => simp [h]
    | some c => cases hs : ps.mapM CodePoint.toChar? <;> simp_all

theorem toString?_eq_none_iff (t : Text) :
    t.toString? = none ↔ ∃ p ∈ t.points, p.toChar? = none := by
  simp [toString?, mapM_toChar?_eq_none_iff]

/-! ## Lines -/

/-- Splits code points into lines, behind the part of a line read so far (the latest first). -/
def splitLines (read : List CodePoint) : List CodePoint → List Text
  | [] => if read.isEmpty then [] else [⟨read.reverse⟩]
  | ⟨0x0d⟩ :: ⟨0x0a⟩ :: ps => ⟨read.reverse⟩ :: splitLines [] ps
  | p :: ps => if p.endsLine then ⟨read.reverse⟩ :: splitLines [] ps else splitLines (p :: read) ps

/-- The lines of a text, without their ends. -/
def lines (t : Text) : List Text := splitLines [] t.points

example : lines "a\nb\r\n\nc" = ["a", "b", "", "c"].map ofString := by decide

end Text

end Plonkish
