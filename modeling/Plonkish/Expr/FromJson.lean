import Plonkish.Expr.Postorder
import Plonkish.Json.Access
import Plonkish.Quantity

/-!
# Expressions from JSON

An expression is described by an object whose field `op` names its operation. The full description
has every field written out, with rotations as signed offsets and constants as integers. In reading,
indices and phases are kept as they are given, and offsets must be numbers. Reading keeps a stack of
what is still to be read and a stack of the expressions that are done, so the depth of a description
costs no call depth. Beside it stands reading by recursion.

* `Expr.readOnto_eq`: reading with stacks leaves one expression, or fails, and lacks no operand.
* `Expr.ofJson_eq_read`: reading with stacks is reading by recursion, errors included.
-/

namespace Plonkish

/-! ## Descriptions -/

section Descriptions

variable {ν : Type} [Quantity ν]

/-- The description of a leaf. -/
def Leaf.toJson : Leaf ν → Json
  | .constant v => .obj [("op", .str "constant"), ("value", .int v.val)]
  | .query q =>
    .obj [("op", .str q.column.kind.name), ("column", Quantity.toJson q.column.index),
      ("phase", Quantity.toJson q.column.phase), ("rotation", q.rotation.offset)]
  | .challenge index phase =>
    .obj [("op", .str "challenge"), ("index", Quantity.toJson index),
      ("phase", Quantity.toJson phase)]
  | .selector index => .obj [("op", .str "selector"), ("index", Quantity.toJson index)]

/-- The description of an expression. -/
def Expr.toJson : Expr ν → Json
  | .leaf l => l.toJson
  | .neg e => .obj [("op", .str "neg"), ("expr", e.toJson)]
  | .sum a b => .obj [("op", .str "sum"), ("lhs", a.toJson), ("rhs", b.toJson)]
  | .product a b => .obj [("op", .str "product"), ("lhs", a.toJson), ("rhs", b.toJson)]

end Descriptions

/-! ## Reading the parts of a description -/

/-- The scalar that a value denotes: an integer, a truncated number, a truth value, an integer
literal within a limit of digits, or canonical bytes in hexadecimal. -/
def Scalar.ofJsonWithin (limit : Option Nat) : Json → Except LoadError Scalar
  | .int n => .ok (Scalar.ofInt n)
  | .bool b => .ok (if b then 1 else 0)
  | .real .nan => .error .notANumber
  | .real x =>
    match x.truncate? with
    | some n => .ok (Scalar.ofInt n)
    | none => .error .infinite
  | .str s =>
    match Literal.parse limit s with
    | .ok n => .ok (Scalar.ofInt n)
    | .error e => .error (.literal s e)
  | .obj fields => do
    let text ← (Json.obj fields).entry "repr"
    let bytes ← text.hexBytes
    (Scalar.ofBytes bytes).mapError .scalar
  | .null => .error .wrongType
  | .arr _ => .error .wrongType

/-- The scalar that a value denotes, literals within the usual limit. -/
def Scalar.ofJson : Json → Except LoadError Scalar :=
  Scalar.ofJsonWithin (some Literal.digitLimit)

/-- The column kind with a name. -/
def ColumnKind.ofName? (name : String) : Option ColumnKind :=
  [ColumnKind.advice, .fixed, .inst].find? fun kind => kind.name = name

/-- The rotation by a described offset, which must be a number. Offsets below zero point
backward. -/
def Rotation.ofJson : Json → Except LoadError (Rotation Json)
  | .int n => .ok ((Rotation.ofInt n).map .int)
  | .bool b => .ok ⟨.bool b, true⟩
  | .real x => .ok (if x.isNegative then ⟨.real x.negated, false⟩ else ⟨.real x, true⟩)
  | _ => .error .wrongType

namespace Expr

variable {ν : Type}

/-! ## The top of a description -/

/-- What a description says before its operands are read. -/
inductive Head
  | leaf (l : Leaf Json)
  | neg (e : Json)
  | sum (lhs rhs : Json)
  | product (lhs rhs : Json)

/-- The phase in a description, or zero if it has none. -/
def readPhase (j : Json) : Except LoadError Json := j.member "phase" (.int 0)

/-- The rotation in a description, or that by zero if it has none. -/
def readRotation (j : Json) : Except LoadError (Rotation Json) := do
  let offset ← j.member "rotation" (.int 0)
  Rotation.ofJson offset

/-- Reads a query of a column of a kind. -/
def readQuery (kind : ColumnKind) (j : Json) : Except LoadError (Leaf Json) := do
  let index ← j.entry "column"
  let phase ← readPhase j
  let rotation ← readRotation j
  return .query ⟨⟨kind, index, phase⟩, rotation⟩

/-- Reads a leaf with the given operation. -/
def readLeaf (op : String) (j : Json) : Except LoadError (Leaf Json) :=
  if op = "constant" then do
    let value ← j.entry "value"
    let v ← Scalar.ofJson value
    return .constant v
  else if op = "challenge" then do
    let index ← j.entry "index"
    let phase ← readPhase j
    return .challenge index phase
  else if op = "selector" then do
    let index ← j.entry "index"
    return .selector index
  else match ColumnKind.ofName? op with
    | some kind => readQuery kind j
    | none => .error (.operation op)

/-- Reads the two operands of an operation, looking for the right one first. -/
def readOperands (j : Json) : Except LoadError (Json × Json) :=
  match j.entry "rhs" with
  | .error e => .error e
  | .ok rhs =>
    match j.entry "lhs" with
    | .error e => .error e
    | .ok lhs => .ok (lhs, rhs)

/-- The name that a value gives to an operation. What names no operation is shown in the error,
unless it cannot be looked up. -/
def operationName (op : Json) : Except LoadError String :=
  match op with
  | .str text =>
    match text.toString? with
    | some name => .ok name
    | none => .error (.operation text)
  | op => if op.isCompound then .error .wrongType else .error (.operation op.shown)

/-- The name of the operation of a description. -/
def readOperation (j : Json) : Except LoadError String := do
  let op ← j.member "op" .null
  operationName op

/-- Reads the top of a description. -/
def readHead (j : Json) : Except LoadError Head :=
  match readOperation j with
  | .error e => .error e
  | .ok op =>
    if op = "neg" then (j.entry "expr").map .neg
    else if op = "sum" then (readOperands j).map fun (lhs, rhs) => .sum lhs rhs
    else if op = "product" then (readOperands j).map fun (lhs, rhs) => .product lhs rhs
    else (readLeaf op j).map .leaf

theorem sizeOf_add_lt_of_readOperands {j lhs rhs : Json} (h : readOperands j = .ok (lhs, rhs)) :
    sizeOf lhs + sizeOf rhs < sizeOf j := by
  unfold readOperands at h
  split at h
  · cases h
  · next hr =>
    split at h
    · cases h
    · next hl =>
      cases h
      exact Json.sizeOf_add_lt_of_entry (by decide) hl hr

theorem map_eq_ok {ε α β : Type} {x : Except ε α} {f : α → β} {b : β} (h : x.map f = .ok b) :
    ∃ a, x = .ok a ∧ f a = b := by
  cases x with
  | error e => cases h
  | ok a => cases h; exact ⟨a, rfl, rfl⟩

theorem sizeOf_of_readHead {j : Json} {head : Head} (h : readHead j = .ok head) :
    match head with
    | .leaf _ => True
    | .neg e => sizeOf e < sizeOf j
    | .sum lhs rhs => sizeOf lhs + sizeOf rhs < sizeOf j
    | .product lhs rhs => sizeOf lhs + sizeOf rhs < sizeOf j := by
  unfold readHead at h
  split at h
  · cases h
  · split at h
    · obtain ⟨e, he, rfl⟩ := map_eq_ok h
      exact Json.sizeOf_lt_of_entry he
    · split at h
      · obtain ⟨⟨a, b⟩, he, rfl⟩ := map_eq_ok h
        exact sizeOf_add_lt_of_readOperands he
      · split at h
        · obtain ⟨⟨a, b⟩, he, rfl⟩ := map_eq_ok h
          exact sizeOf_add_lt_of_readOperands he
        · obtain ⟨l, _, rfl⟩ := map_eq_ok h
          trivial

/-! ## Reading by recursion -/

/-- Reads a description by recursion: the left operand completely, then the right one. -/
def read (j : Json) : Except LoadError (Expr Json) :=
  match h : readHead j with
  | .error e => .error e
  | .ok (.leaf l) => .ok (.leaf l)
  | .ok (.neg e) => do
    have := sizeOf_of_readHead h
    let x ← read e
    return .neg x
  | .ok (.sum lhs rhs) => do
    have := sizeOf_of_readHead h
    let x ← read lhs
    let y ← read rhs
    return .sum x y
  | .ok (.product lhs rhs) => do
    have := sizeOf_of_readHead h
    let x ← read lhs
    let y ← read rhs
    return .product x y
termination_by sizeOf j
decreasing_by all_goals simp at this; omega

/-! ## Reading with a stack -/

/-- What reading still has to do: read a description, or build the node of an operator whose
operands are done. -/
inductive Task
  | read (j : Json)
  | build (s : Step Json)

/-- The number of rounds a task takes at most. -/
noncomputable def Task.weight : Task → Nat
  | .read j => 2 * sizeOf j
  | .build _ => 1

/-- The number of rounds a stack of tasks takes at most. -/
noncomputable def taskWork : List Task → Nat
  | [] => 0
  | t :: tasks => t.weight + taskWork tasks

/-- Assembling as an evaluation: every step gives the tree it stands for. -/
def assembly : Algebra ν Id (Expr ν) where
  leaf := .leaf
  neg := .neg
  sum := .sum
  product := .product

/-- Works a stack of tasks off on a stack of values, the top of each first. There is no result if a
node lacks an operand. -/
def readOnto (values : List (Expr Json)) : List Task → Except LoadError (Option (List (Expr Json)))
  | [] => .ok (some values)
  | .build s :: tasks =>
    match Id.run (assembly.run [s] values) with
    | some values => readOnto values tasks
    | none => .ok none
  | .read j :: tasks =>
    match h : readHead j with
    | .error e => .error e
    | .ok (.leaf l) =>
      have := j.sizeOf_pos
      readOnto (.leaf l :: values) tasks
    | .ok (.neg e) =>
      have := sizeOf_of_readHead h
      readOnto values (.read e :: .build .neg :: tasks)
    | .ok (.sum lhs rhs) =>
      have := sizeOf_of_readHead h
      readOnto values (.read lhs :: .read rhs :: .build .sum :: tasks)
    | .ok (.product lhs rhs) =>
      have := sizeOf_of_readHead h
      readOnto values (.read lhs :: .read rhs :: .build .product :: tasks)
termination_by tasks => taskWork tasks
decreasing_by all_goals simp [taskWork, Task.weight] at * <;> omega

/-- The expression that a value describes: the one value that is left. -/
def ofJson (j : Json) : Except LoadError (Expr Json) := do
  let values? ← readOnto [] [.read j]
  return (values?.getD []).headD default

/-! ## Agreement -/

theorem read_eq (j : Json) : read j =
    match readHead j with
    | .error e => .error e
    | .ok (.leaf l) => .ok (.leaf l)
    | .ok (.neg e) => do
      let x ← read e
      return .neg x
    | .ok (.sum lhs rhs) => do
      let x ← read lhs
      let y ← read rhs
      return .sum x y
    | .ok (.product lhs rhs) => do
      let x ← read lhs
      let y ← read rhs
      return .product x y := by
  rw [read]
  split <;> simp_all

theorem readOnto_read_eq (values : List (Expr Json)) (j : Json) (tasks : List Task) :
    readOnto values (.read j :: tasks) =
      match readHead j with
      | .error e => .error e
      | .ok (.leaf l) => readOnto (.leaf l :: values) tasks
      | .ok (.neg e) => readOnto values (.read e :: .build .neg :: tasks)
      | .ok (.sum lhs rhs) => readOnto values (.read lhs :: .read rhs :: .build .sum :: tasks)
      | .ok (.product lhs rhs) =>
        readOnto values (.read lhs :: .read rhs :: .build .product :: tasks) := by
  rw [readOnto]
  split <;> simp_all

theorem readOnto_neg (x : Expr Json) (values : List (Expr Json)) (tasks : List Task) :
    readOnto (x :: values) (.build .neg :: tasks) = readOnto (.neg x :: values) tasks := by
  rw [readOnto]
  rfl

theorem readOnto_sum (x y : Expr Json) (values : List (Expr Json)) (tasks : List Task) :
    readOnto (y :: x :: values) (.build .sum :: tasks) = readOnto (.sum x y :: values) tasks := by
  rw [readOnto]
  rfl

theorem readOnto_product (x y : Expr Json) (values : List (Expr Json)) (tasks : List Task) :
    readOnto (y :: x :: values) (.build .product :: tasks) =
      readOnto (.product x y :: values) tasks := by
  rw [readOnto]
  rfl

/-- Reading a description puts the expression on the values, unless it fails. -/
theorem readOnto_read (values : List (Expr Json)) (j : Json) (tasks : List Task) :
    readOnto values (.read j :: tasks) = (do let e ← read j; readOnto (e :: values) tasks) := by
  fun_induction read j generalizing values tasks with
  | case1 j e h => rw [readOnto_read_eq, h]; rfl
  | case2 j l h => rw [readOnto_read_eq, h]; rfl
  | case3 j e h _ ih =>
    rw [readOnto_read_eq, h]
    dsimp only
    rw [ih]
    simp only [readOnto_neg]
    cases read e <;> rfl
  | case4 j lhs rhs h _ ihl ihr =>
    rw [readOnto_read_eq, h]
    dsimp only
    simp only [ihl, ihr, readOnto_sum]
    cases read lhs with
    | error e => rfl
    | ok x => cases read rhs <;> rfl
  | case5 j lhs rhs h _ ihl ihr =>
    rw [readOnto_read_eq, h]
    dsimp only
    simp only [ihl, ihr, readOnto_product]
    cases read lhs with
    | error e => rfl
    | ok x => cases read rhs <;> rfl

/-- Reading with a stack leaves the one expression that reading by recursion gives, or fails as that
does. No node lacks an operand. -/
theorem readOnto_eq (j : Json) : readOnto [] [.read j] = (read j).map fun e => some [e] := by
  rw [readOnto_read]
  cases read j with
  | error e => rfl
  | ok e => simp only [bind, Except.bind, readOnto, Except.map]

theorem ofJson_eq_read (j : Json) : ofJson j = read j := by
  rw [ofJson, readOnto_eq]
  cases read j <;> rfl

end Expr

end Plonkish
