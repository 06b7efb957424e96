import Plonkish.Position
import Plonkish.Wire.Reader

/-!
# Cursors

A cursor stands at a signed position of a byte string. Unlike a reader it may be moved back, by
taking a negative number of bytes, and then stand in front of the bytes; a position in front is
counted from their end when bytes are taken.

* `Cursor.take_pos`: taking bytes moves the cursor by their number, and failing leaves it.
-/

namespace Plonkish.Wire

/-- A position in a byte string. -/
structure Cursor where
  data : Bytes
  pos : Int := 0
  deriving DecidableEq, Repr, Inhabited

/-- Why a cursor reads nothing. -/
inductive CursorError
  | wire (e : WireError)
  /-- Fewer bytes lie between the positions than the number has. -/
  | short
  deriving DecidableEq, Repr

namespace Cursor

/-- The number of bytes behind a cursor. -/
def left (c : Cursor) : Int := c.data.length - c.pos

/-- Takes `n` bytes. -/
def take (n : Int) (c : Cursor) : Except CursorError Bytes × Cursor :=
  if c.left < n then (.error (.wire (.endOfData n.toNat c.pos c.left.toNat)), c)
  else (.ok (sliceAt c.data c.pos (c.pos + n)), { c with pos := c.pos + n })

/-- Reads a number of `size` bytes. The cursor is moved even if there are fewer. -/
def number (size : Nat) (c : Cursor) : Except CursorError Nat × Cursor :=
  match c.take size with
  | (.error e, c) => (.error e, c)
  | (.ok bytes, c) => (if bytes.length = size then .ok bytes.toNat else .error .short, c)

/-- Reads an index. -/
def index (w : Width) (c : Cursor) : Except CursorError Nat × Cursor := c.number w.size

/-- Whether nothing is left. -/
def atEnd (c : Cursor) : Bool := c.left ≤ 0

/-- Fails if bytes are left. -/
def expectEnd (c : Cursor) : Except CursorError Unit :=
  if c.atEnd then .ok () else .error (.wire (.trailing c.left.toNat))

theorem take_pos (n : Int) (c : Cursor) :
    (c.take n).2.pos = if c.left < n then c.pos else c.pos + n := by
  unfold take
  split <;> rfl

end Cursor

end Plonkish.Wire
