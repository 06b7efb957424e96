import Plonkish.VariableSpace
import Std.Data.HashMap

/-!
# Indexed spaces of variables

A space of variables with an index beside each list of queries, in which positions are looked up
instead of being searched for. The indices are made once, query by query, and a query that occurs
again keeps its first position. What is found is what a `VariableSpace` finds.
-/

namespace Plonkish

deriving instance Hashable for ColumnKind, Column, Rotation, Query

/-- Queries with their positions in a list. -/
abbrev QueryIndex := Std.HashMap Query Nat

namespace QueryIndex

/-- Enters a query with its position, unless it has one. -/
def register (index : QueryIndex) (entry : Query × Nat) : QueryIndex :=
  index.insertIfNew entry.1 entry.2

/-- The index of a list of queries. -/
def ofQueries (queries : List Query) : QueryIndex := queries.zipIdx.foldl register ∅

end QueryIndex

/-- A space of variables with an index of each list of queries. -/
structure IndexedSpace where
  space : VariableSpace
  advice : QueryIndex
  fixed : QueryIndex
  inst : QueryIndex

namespace IndexedSpace

/-- Makes the indices of a space. -/
def ofSpace (V : VariableSpace) : IndexedSpace where
  space := V
  advice := .ofQueries V.advice
  fixed := .ofQueries V.fixed
  inst := .ofQueries V.inst

/-- The index of a class. Challenges have none. -/
def index (S : IndexedSpace) : VariableClass → QueryIndex
  | .advice => S.advice
  | .fixed => S.fixed
  | .inst => S.inst
  | .challenge => ∅

/-- The first position of a query in the list of a class. -/
def indexOf (S : IndexedSpace) (cls : VariableClass) (column : Column) (rotation : Rotation) :
    Except SchemaError Nat :=
  if cls = .challenge then .error (.challengeAsQuery (column.map .int))
  else match (S.index cls)[(⟨column, rotation⟩ : Query)]? with
    | some i => .ok i
    | none => .error (.unregisteredQuery cls (column.map .int) (rotation.map .int))

end IndexedSpace

end Plonkish
