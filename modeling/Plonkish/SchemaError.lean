import Plonkish.Column
import Plonkish.Number.Literal
import Plonkish.Scalar

/-!
# Schema errors

An expression, or a caller, refers to something that the circuit never registered. Columns,
rotations and indices are held as they are described.
-/

namespace Plonkish

/-- A reference to something unregistered. -/
inductive SchemaError
  /-- A challenge was looked up as a column query. -/
  | challengeAsQuery (column : Column Json)
  /-- A query is not in the list of its class. -/
  | unregisteredQuery (cls : VariableClass) (column : Column Json) (rotation : Rotation Json)
  /-- A challenge index is not below the number of challenges. -/
  | unregisteredChallenge (index : Json)
  /-- A position is outside its class. -/
  | outsideClass (cls : VariableClass) (index size : Int)
  /-- A position is outside the whole index space. -/
  | outsideSpace (index width : Int)
  /-- A virtual selector was not optimized away. -/
  | selector (index : Json)
  /-- A constant is not in the table. -/
  | unknownConstant (v : Scalar)
  /-- A new constant was met after the table was frozen. -/
  | frozenTable (v : Scalar)
  /-- What is looked up, or compared with a number of challenges, is of a wrong type. -/
  | wrongType
  deriving DecidableEq

namespace SchemaError

/-- The class that the error is about. -/
def cls? : SchemaError → Option VariableClass
  | .challengeAsQuery _ => some .challenge
  | .unregisteredQuery cls _ _ => some cls
  | .unregisteredChallenge _ => some .challenge
  | .outsideClass cls _ _ => some cls
  | _ => none

/-- The column that the error is about. -/
def column? : SchemaError → Option (Column Json)
  | .challengeAsQuery column => some column
  | .unregisteredQuery _ column _ => some column
  | _ => none

/-- The rotation that the error is about. -/
def rotation? : SchemaError → Option (Rotation Json)
  | .unregisteredQuery _ _ rotation => some rotation
  | _ => none

/-- What is wrong, without the details. -/
def summary : SchemaError → Text
  | .challengeAsQuery _ => "Challenges are not column queries"
  | .unregisteredQuery _ _ _ => "Expression references an unregistered query"
  | .unregisteredChallenge index =>
    "Expression references unregistered challenge " ++ index.shown
  | .outsideClass _ index size => s!"Local index {index} outside class of size {size}"
  | .outsideSpace index width => s!"Variable index {index} outside [0, {width})"
  | .selector index => "Virtual selector " ++ index.shown ++ " survived optimization"
  | .unknownConstant v => s!"Constant {v.toHexText} not in pool"
  | .frozenTable v => s!"Constant {v.toHexText} missing from frozen pool"
  | .wrongType => "value of a wrong type"

/-- The class, column and rotation, as far as the error has them. -/
def details (e : SchemaError) : List Text :=
  (e.cls?.map fun cls => Text.ofString s!"class={cls.name}").toList ++
    (e.column?.map fun column => Text.ofString "column=" ++ column.toText).toList ++
    (e.rotation?.map fun rotation => Text.ofString "rotation=" ++ rotation.offset.shown).toList

/-- Whether the text would spell a number of too many digits. What is described has been read, so
only sizes and positions can have grown too long. -/
def isTooLong : SchemaError → Bool
  | .outsideClass _ index size => [index, size].any fun n => Literal.isTooLong n.natAbs
  | .outsideSpace index width => [index, width].any fun n => Literal.isTooLong n.natAbs
  | _ => false

/-- The text of the error: what is wrong, and the details in parentheses. -/
def message (e : SchemaError) : Text :=
  match e.details with
  | [] => e.summary
  | details => e.summary ++ " (" ++ Text.joined ", " details ++ ")"

end SchemaError

end Plonkish
