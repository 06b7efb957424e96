import Plonkish.Json
import Plonkish.Text.Quoted

/-!
# Values in messages

A message shows a text as it stands and any other value as it is spelled. Inside a value texts are
quoted.
-/

namespace Plonkish.Json

mutual

/-- The spelling of a value. -/
def spelled : Json → String
  | .null => "None"
  | .bool true => "True"
  | .bool false => "False"
  | .int n => toString n
  | .real x => x.toText
  | .str t => t.quoted
  | .arr items => "[" ++ spelledItems "" items ++ "]"
  | .obj fields => "\x7b" ++ spelledFields "" fields ++ "\x7d"

/-- The spelling of the items of an array, `comma` in front of the first. -/
def spelledItems (comma : String) : List Json → String
  | [] => ""
  | v :: items => comma ++ v.spelled ++ spelledItems ", " items

/-- The spelling of the fields of an object, `comma` in front of the first. -/
def spelledFields (comma : String) : List (Text × Json) → String
  | [] => ""
  | (k, v) :: fields => comma ++ k.quoted ++ ": " ++ v.spelled ++ spelledFields ", " fields

end

/-- The text of a value in a message. -/
def shown : Json → Text
  | .str t => t
  | v => .ofString v.spelled

end Plonkish.Json
