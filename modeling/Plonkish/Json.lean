import Plonkish.Number.Binary64
import Plonkish.Text

/-!
# JSON values

Values of the exchange format. Integers have any size; a number written with a fraction or an
exponent is a 64-bit floating point number. An object is the list of its fields in order of first
appearance.

* `Json.sizeOf_lt_of_field?`: a field's value is smaller than its object, so a reader may recurse
  into it.
-/

namespace Plonkish

/-- A JSON value. -/
inductive Json
  | null
  | bool (b : Bool)
  | int (n : Int)
  | real (x : Binary64)
  | str (s : Text)
  | arr (items : List Json)
  | obj (fields : List (Text × Json))
  deriving Inhabited

namespace Json

/-! ## Equality -/

mutual

/-- Whether two values are the same, the order of fields included. -/
def same : Json → Json → Bool
  | .null, .null => true
  | .bool a, .bool b => a == b
  | .int a, .int b => a == b
  | .real a, .real b => a == b
  | .str a, .str b => a == b
  | .arr a, .arr b => sameItems a b
  | .obj a, .obj b => sameFields a b
  | _, _ => false

/-- Whether two lists of items are the same. -/
def sameItems : List Json → List Json → Bool
  | [], [] => true
  | a :: as, b :: bs => same a b && sameItems as bs
  | _, _ => false

/-- Whether two lists of fields are the same. -/
def sameFields : List (Text × Json) → List (Text × Json) → Bool
  | [], [] => true
  | (k, a) :: as, (l, b) :: bs => k == l && same a b && sameFields as bs
  | _, _ => false

end

mutual

theorem same_iff (a b : Json) : same a b = true ↔ a = b := by
  cases a <;> cases b <;> simp [same, sameItems_iff, sameFields_iff]

theorem sameItems_iff (a b : List Json) : sameItems a b = true ↔ a = b := by
  cases a <;> cases b <;> simp [sameItems, same_iff, sameItems_iff]

theorem sameFields_iff (a b : List (Text × Json)) : sameFields a b = true ↔ a = b := by
  cases a <;> cases b <;> simp [sameFields, same_iff, sameFields_iff, Prod.ext_iff]

end

instance : DecidableEq Json := fun a b => decidable_of_iff _ (same_iff a b)

/-! ## Access -/

/-- The fields of an object. Other values have none. -/
def fields : Json → List (Text × Json)
  | .obj fields => fields
  | _ => []

/-- The value of a field of an object. -/
def field? (j : Json) (key : String) : Option Json :=
  match j with
  | .obj fields => fields.lookup (.ofString key)
  | _ => none

/-- The values that a value lists: the items of an array, the code points of a text, the keys of an
object. Other values list nothing. -/
def items? : Json → Option (List Json)
  | .arr items => some items
  | .str s => some (s.points.map fun p => .str ⟨[p]⟩)
  | .obj fields => some (fields.map fun f => .str f.1)
  | _ => none

theorem sizeOf_pos (j : Json) : 0 < sizeOf j := by
  cases j <;> simp +arith

theorem sizeOf_lt_of_lookup {fields : List (Text × Json)} {key : Text} {v : Json}
    (h : fields.lookup key = some v) : sizeOf v < sizeOf fields := by
  induction fields with
  | nil => simp at h
  | cons f fields ih =>
    obtain ⟨k, w⟩ := f
    rw [List.lookup_cons] at h
    split at h
    · cases h
      simp
      omega
    · have := ih h
      simp
      omega

theorem sizeOf_lt_of_field? {j v : Json} {key : String} (h : j.field? key = some v) :
    sizeOf v < sizeOf j := by
  cases j with
  | obj fields =>
    have : sizeOf v < sizeOf fields := sizeOf_lt_of_lookup h
    simp
    omega
  | _ => simp [field?] at h

end Json

end Plonkish
