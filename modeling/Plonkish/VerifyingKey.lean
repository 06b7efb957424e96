import Plonkish.Hash.Blake2b
import Plonkish.Json.Access

/-!
# Verifying keys

The parts of a verifying key that are handed on as they are: its fingerprint and its commitments to
columns. A key is named by a scalar, the personalized digest of its pinned description, behind the
description's length, reduced into the field. It is described by its fingerprint in hexadecimal, or
else by the pinned description that the fingerprint is taken of; and by its commitments in
hexadecimal.
-/

namespace Plonkish

/-- The personalization of the digest. -/
def fingerprintPerson : Bytes := "Halo2-Verify-Key".toUTF8.toList

/-- The fingerprint of a pinned description. -/
def fingerprint (pinned : String) : Scalar :=
  let text := pinned.toUTF8.toList
  Fin.ofNat modulus
    (Bytes.toNat (Blake2b.digest fingerprintPerson (Bytes.ofNat 8 text.length ++ text)))

/-- A verifying key: its fingerprint and the encoded commitments to columns. -/
structure VerifyingKey where
  transcript : Bytes := List.replicate Scalar.byteSize 0
  fixedCommitments : List Bytes := []
  permutationCommitments : List Bytes := []
  deriving DecidableEq, Repr, Inhabited

namespace VerifyingKey

/-- Whether one list of code points occurs within another. -/
def occursIn (word : List CodePoint) : List CodePoint → Bool
  | [] => word.isEmpty
  | c :: cs => word.isPrefixOf (c :: cs) || occursIn word cs

/-- Whether a value holds a word: as a key of an object, an item of an array, or within a text. -/
def holds (word : String) : Json → Except LoadError Bool
  | .obj fields => .ok (fields.any fun f => f.1 = .ofString word)
  | .arr items => .ok (items.any fun item => item = .str (.ofString word))
  | .str s => .ok (occursIn (Text.ofString word).points s.points)
  | _ => .error .wrongType

/-- The text of a pinned description, which must have an encoding. -/
def pinnedText : Json → Except LoadError String
  | .str t =>
    match t.toString? with
    | some s => .ok s
    | none =>
      let (first, behind) := t.surrogates?.getD (0, 0)
      .error (.surrogates t first behind)
  | _ => .error .noFields

/-- Reads the fingerprint. Without one, and without a pinned description, it is zero. -/
def readTranscript (j : Json) : Except LoadError Bytes := do
  if ← holds "transcriptRepr" j then
    let text ← j.entry "transcriptRepr"
    text.hexBytes
  else if ← holds "pinned" j then
    let v ← j.entry "pinned"
    let pinned ← pinnedText v
    return (fingerprint pinned).toBytes
  else return List.replicate Scalar.byteSize 0

/-- Reads the commitments in a field. -/
def readCommitments (j : Json) (key : String) : Except LoadError (List Bytes) := do
  let v ← j.member key (.arr [])
  let items ← v.listed
  items.mapM Json.hexBytes

/-- The key that a value describes. -/
def ofJson (j : Json) : Except LoadError VerifyingKey := do
  let transcript ← readTranscript j
  let fixedCommitments ← readCommitments j "fixedCommitments"
  let permutationCommitments ← readCommitments j "permutationCommitments"
  return {
    transcript, fixedCommitments
    permutationCommitments }

end VerifyingKey

end Plonkish
