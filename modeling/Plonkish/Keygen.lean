import Plonkish.Outline

/-!
# Outlines from key generation

Key generation is done elsewhere and may fail. A failure that is about outlines is passed on as it
is, and any other is wrapped with the name of its kind.
-/

namespace Plonkish

/-- A failure of key generation. -/
inductive KeygenFailure (ε : Type)
  /-- A failure about outlines. -/
  | passed (e : ε)
  /-- Any other failure: the name of its kind and its details. -/
  | foreign (kind details : String)

/-- Why there is no outline. -/
inductive KeygenError (ε : Type)
  /-- Key generation failed with a failure about outlines. -/
  | passed (e : ε)
  /-- Key generation failed otherwise. -/
  | collaborator (kind details : String)
  /-- The generated circuit has no outline. -/
  | outline (e : OutlineError)

/-- The text of a wrapped failure. -/
def collaboratorMessage (kind details : String) : String :=
  s!"constraint system build failed: {kind}({details})"

/-- The outline of the circuit that key generation gives for a size. -/
def Outline.ofKeygen {ε ν : Type} [Quantity ν] [DecidableEq ν] (k : Int)
    (keygen : Int → Except (KeygenFailure ε) (Circuit ν × VerifyingKey)) :
    Except (KeygenError ε) (Outline ν) :=
  match keygen k with
  | .error (.passed e) => .error (.passed e)
  | .error (.foreign kind details) => .error (.collaborator kind details)
  | .ok (c, key) => (Outline.ofCircuit k c key).mapError .outline

end Plonkish
