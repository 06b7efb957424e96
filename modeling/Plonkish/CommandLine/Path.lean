import Plonkish.Bytes
import Plonkish.Text

/-!
# Paths

A path is shown and looked up without empty and `.` components. A leading pair of slashes, and no
longer run, is a root of its own.

A file system knows a text by bytes. Those of a character are its encoding, and the halves of
surrogate pairs from U+DC80 to U+DCFF stand for the single bytes from 80 to ff. Other halves have
no bytes, and a text with one of them names nothing.

* `Text.fileName?_ofString`: the name of a string is its encoding.
-/

namespace Plonkish

/-! ## Names -/

/-- The distance from the bytes that stand for themselves to their code points. -/
def CodePoint.byteDistance : Nat := 0xdc00

/-- The bytes of a code point in a file name. -/
def CodePoint.fileName? (p : CodePoint) : Option Bytes :=
  match p.toChar? with
  | some c => some (String.utf8EncodeChar c)
  | none =>
    if byteDistance + 0x80 ≤ p.val ∧ p.val < byteDistance + 0x100 then
      some [UInt8.ofNat (p.val - byteDistance)]
    else none

namespace Text

/-- The bytes by which a file system knows a text. -/
def fileName? (t : Text) : Option Bytes :=
  (t.points.mapM CodePoint.fileName?).map List.flatten

theorem mapM_fileName?_ofChar (cs : List Char) :
    (cs.map CodePoint.ofChar).mapM CodePoint.fileName? = some (cs.map String.utf8EncodeChar) := by
  induction cs with
  | nil => rfl
  | cons c cs ih => simp [List.mapM_cons, CodePoint.fileName?, ih]

theorem fileName?_ofString (s : String) :
    (ofString s).fileName? = some (s.toList.flatMap String.utf8EncodeChar) := by
  rw [fileName?, ofString, mapM_fileName?_ofChar, Option.map_some, List.flatMap_def]

example : (⟨[⟨0x61⟩, ⟨0xdcff⟩]⟩ : Text).fileName? = some [0x61, 0xff] ∧
    (⟨[⟨0xd800⟩]⟩ : Text).fileName? = none := by decide

end Text

/-! ## Components -/

namespace CommandLine

/-- What separates the components of a path. -/
def slash : CodePoint := .ofChar '/'

/-- The root of a path. -/
def root (path : Text) : Text :=
  let slashes := (path.points.takeWhile (· = slash)).length
  if slashes = 0 then "" else if slashes = 2 then "//" else "/"

/-- Whether a path starts at a root. -/
def isRooted (path : Text) : Bool := path.points.head? = some slash

/-- The components of a path behind its root, without empty ones and `.`. -/
def components (path : Text) : List Text :=
  (path.splitOn slash).filter fun part => part ≠ .ofString "" ∧ part ≠ .ofString "."

/-- The path with the root of another and given components. -/
def rebuildPath (path : Text) (parts : List Text) : Text :=
  let body := root path ++ Text.joined "/" parts
  if body.points.isEmpty then "." else body

/-- A path without its empty and `.` components. -/
def normalizePath (path : Text) : Text := rebuildPath path (components path)

/-- The directory that a path lies in. -/
def parentPath (path : Text) : Text := rebuildPath path (components path).dropLast

end CommandLine

end Plonkish
