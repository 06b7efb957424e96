import Plonkish.Bytes.Hex
import Plonkish.Json
import Plonkish.LoadError

/-!
# Access to JSON values

Reading the parts of a value, with the error that says why a part cannot be had.

* `Json.sizeOf_lt_of_entry`, `Json.sizeOf_add_lt_of_entry`: the entries of an object are smaller
  than it, and so are two of them together.
-/

namespace Plonkish.Json

/-- The value of a field that must be there. -/
def entry (j : Json) (key : String) : Except LoadError Json :=
  match j with
  | .obj fields =>
    match fields.lookup (.ofString key) with
    | some v => .ok v
    | none => .error (.missing key)
  | _ => .error .wrongType

/-- The value of a field of an object, if it is there. -/
def member? (j : Json) (key : String) : Except LoadError (Option Json) :=
  match j with
  | .obj fields => .ok (fields.lookup (.ofString key))
  | _ => .error .noFields

/-- The value of a field of an object, or a default. -/
def member (j : Json) (key : String) (default : Json) : Except LoadError Json := do
  let v? ← j.member? key
  return v?.getD default

/-- The values that a value lists. -/
def listed (j : Json) : Except LoadError (List Json) :=
  match j.items? with
  | some items => .ok items
  | none => .error .wrongType

/-- The bytes of a hexadecimal text. -/
def hexBytes : Json → Except LoadError Bytes
  | .str s => (Hex.decode s).mapError .hex
  | _ => .error .wrongType

theorem sizeOf_lt_of_entry {j v : Json} {key : String} (h : j.entry key = .ok v) :
    sizeOf v < sizeOf j := by
  unfold entry at h
  split at h
  · split at h
    · next hv => cases h; have := sizeOf_lt_of_lookup hv; simp; omega
    · cases h
  · cases h

theorem sizeOf_add_lt_of_lookup {fields : List (Text × Json)} {k l : Text} {v w : Json}
    (hne : k ≠ l) (hv : fields.lookup k = some v) (hw : fields.lookup l = some w) :
    sizeOf v + sizeOf w < sizeOf fields := by
  induction fields with
  | nil => simp at hv
  | cons f fields ih =>
    obtain ⟨m, u⟩ := f
    rw [List.lookup_cons] at hv hw
    split at hv
    · next hk =>
      split at hw
      · next hl => exact absurd ((beq_iff_eq.1 hk).trans (beq_iff_eq.1 hl).symm) hne
      · cases hv
        have := sizeOf_lt_of_lookup hw
        simp
        omega
    · split at hw
      · cases hw
        have := sizeOf_lt_of_lookup hv
        simp
        omega
      · have := ih hv hw
        simp
        omega

theorem sizeOf_add_lt_of_entry {j v w : Json} {k l : String}
    (hne : Text.ofString k ≠ .ofString l)
    (hv : j.entry k = .ok v) (hw : j.entry l = .ok w) : sizeOf v + sizeOf w < sizeOf j := by
  unfold entry at hv hw
  cases j with
  | obj fields =>
    simp only at hv hw
    split at hv
    · next hv' =>
      split at hw
      · next hw' =>
        cases hv
        cases hw
        have := sizeOf_add_lt_of_lookup hne hv' hw'
        simp
        omega
      · cases hw
    · cases hv
  | _ => cases hv

end Plonkish.Json
