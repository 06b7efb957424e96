import Plonkish.Ir
import Plonkish.Wire.Reader

/-!
# Expressions on the wire

An expression is written in pre-order: an opcode, the operands, and for a scaled expression the
index of its constant behind the operand. Writing keeps a stack of what is still to be written,
and reading a stack of the nodes that are still open, so the depth of a tree costs no call depth.

* `Wire.emit_eq`: writing with a stack appends the recursive encodings, or fails with their first
  error.
-/

namespace Plonkish.Wire

/-! ## Opcodes -/

/-- The opcode of a constant. -/
def opConst : UInt8 := 0x00

/-- The opcode of a variable. -/
def opVar : VariableClass → UInt8
  | .fixed => 0x02
  | .advice => 0x03
  | .inst => 0x04
  | .challenge => 0x05

/-- The opcode of a negation. -/
def opNeg : UInt8 := 0x06

/-- The opcode of a sum. -/
def opSum : UInt8 := 0x07

/-- The opcode of a product. -/
def opProduct : UInt8 := 0x08

/-- The opcode of a scaled expression. -/
def opScaled : UInt8 := 0x09

/-! ## Writing -/

variable {ν : Type} [Quantity ν]

/-- The bytes of a constant's index. -/
def encodeConstIndex (pool : Width) (index : Int) : Except WriteError Bytes :=
  pool.encode "constant pool index" index

/-- The bytes of a variable's index. Those of challenges always take four bytes. -/
def encodeVarIndex (query : Width) (cls : VariableClass) (index : ν) : Except WriteError Bytes :=
  match cls with
  | .challenge => word 4 "challenge index" index
  | cls => query.encode s!"{cls.name} query index" index

/-- The bytes of an expression, by recursion. The index of a scaled expression is checked before
its operand. -/
def encoding (query pool : Width) : Ir ν → Except WriteError Bytes
  | .const i => do
    let index ← encodeConstIndex pool i
    return opConst :: index
  | .var cls i => do
    let index ← encodeVarIndex query cls i
    return opVar cls :: index
  | .neg e => do
    let bytes ← encoding query pool e
    return opNeg :: bytes
  | .sum a b => do
    let left ← encoding query pool a
    let right ← encoding query pool b
    return opSum :: (left ++ right)
  | .product a b => do
    let left ← encoding query pool a
    let right ← encoding query pool b
    return opProduct :: (left ++ right)
  | .scaled e i => do
    let index ← encodeConstIndex pool i
    let bytes ← encoding query pool e
    return opScaled :: (bytes ++ index)

/-- What is still to be written: an expression, or bytes as they stand. -/
inductive Pending (ν : Type := Int)
  | node (e : Ir ν)
  | raw (bytes : Bytes)

/-- The number of rounds a pending item takes. -/
def Pending.weight : Pending ν → Nat
  | .node e => 2 * e.size
  | .raw _ => 1

/-- The bytes of a pending item. -/
def Pending.encoding (query pool : Width) : Pending ν → Except WriteError Bytes
  | .node e => Wire.encoding query pool e
  | .raw bytes => .ok bytes

/-- The number of rounds a stack of pending items takes. -/
def pendingWork : List (Pending ν) → Nat
  | [] => 0
  | p :: rest => p.weight + pendingWork rest

/-- Appends a stack of pending items to a buffer. -/
def emit (query pool : Width) (buffer : Array UInt8) :
    List (Pending ν) → Except WriteError (Array UInt8)
  | [] => .ok buffer
  | .raw bytes :: rest => emit query pool (buffer ++ bytes) rest
  | .node (.const i) :: rest =>
    match encodeConstIndex pool i with
    | .ok index => emit query pool (buffer.push opConst ++ index) rest
    | .error o => .error o
  | .node (.var cls i) :: rest =>
    match encodeVarIndex query cls i with
    | .ok index => emit query pool (buffer.push (opVar cls) ++ index) rest
    | .error o => .error o
  | .node (.neg e) :: rest => emit query pool (buffer.push opNeg) (.node e :: rest)
  | .node (.sum a b) :: rest =>
    emit query pool (buffer.push opSum) (.node a :: .node b :: rest)
  | .node (.product a b) :: rest =>
    emit query pool (buffer.push opProduct) (.node a :: .node b :: rest)
  | .node (.scaled e i) :: rest =>
    match encodeConstIndex pool i with
    | .ok index => emit query pool (buffer.push opScaled) (.node e :: .raw index :: rest)
    | .error o => .error o
termination_by pending => pendingWork pending
decreasing_by all_goals simp [pendingWork, Pending.weight, Ir.size] <;> omega

/-- The bytes of expressions, one behind the other. -/
def encodeExprs (query pool : Width) (es : List (Ir ν)) : Except WriteError Bytes := do
  let buffer ← emit query pool #[] (es.map .node)
  return buffer.toList

/-- The recursive encodings of pending items, one behind the other. -/
def pendingEncoding (query pool : Width) : List (Pending ν) → Except WriteError Bytes
  | [] => .ok []
  | p :: rest => do
    let bytes ← p.encoding query pool
    let more ← pendingEncoding query pool rest
    return bytes ++ more

theorem append_append (buffer : Array UInt8) (a b : Bytes) :
    buffer ++ a ++ b = buffer ++ (a ++ b) := by
  apply Array.ext'
  simp

theorem emit_eq (query pool : Width) (buffer : Array UInt8) (pending : List (Pending ν)) :
    emit query pool buffer pending =
      (do let bytes ← pendingEncoding query pool pending; return buffer ++ bytes) := by
  fun_induction emit query pool buffer pending with
  | case1 => simp [pendingEncoding, bind, Except.bind, pure, Except.pure]
  | case2 buffer bytes rest ih =>
    rw [ih]
    simp only [pendingEncoding, Pending.encoding, bind, Except.bind, pure, Except.pure]
    cases pendingEncoding query pool rest <;> simp [append_append]
  | case3 buffer i rest index h ih =>
    rw [ih]
    simp only [pendingEncoding, Pending.encoding, encoding, h, bind, Except.bind, pure,
      Except.pure]
    cases pendingEncoding query pool rest <;> simp [append_append]
  | case4 buffer i rest o h =>
    simp [pendingEncoding, Pending.encoding, encoding, h, bind, Except.bind]
  | case5 buffer cls i rest index h ih =>
    rw [ih]
    simp only [pendingEncoding, Pending.encoding, encoding, h, bind, Except.bind, pure,
      Except.pure]
    cases pendingEncoding query pool rest <;> simp [append_append]
  | case6 buffer cls i rest o h =>
    simp [pendingEncoding, Pending.encoding, encoding, h, bind, Except.bind]
  | case7 buffer e rest ih =>
    rw [ih]
    simp only [pendingEncoding, Pending.encoding, encoding, bind, Except.bind, pure, Except.pure]
    cases encoding query pool e <;> cases pendingEncoding query pool rest <;> simp
  | case8 buffer a b rest ih =>
    rw [ih]
    simp only [pendingEncoding, Pending.encoding, encoding, bind, Except.bind, pure, Except.pure]
    cases encoding query pool a <;> cases encoding query pool b <;>
      cases pendingEncoding query pool rest <;> simp
  | case9 buffer a b rest ih =>
    rw [ih]
    simp only [pendingEncoding, Pending.encoding, encoding, bind, Except.bind, pure, Except.pure]
    cases encoding query pool a <;> cases encoding query pool b <;>
      cases pendingEncoding query pool rest <;> simp
  | case10 buffer e i rest index h ih =>
    rw [ih]
    simp only [pendingEncoding, Pending.encoding, encoding, h, bind, Except.bind, pure,
      Except.pure]
    cases encoding query pool e <;> cases pendingEncoding query pool rest <;> simp
  | case11 buffer e i rest o h =>
    simp [pendingEncoding, Pending.encoding, encoding, h, bind, Except.bind]

/-! ## Reading -/

/-- A node that still waits for operands. -/
inductive Frame
  | neg
  | scaled
  | sumLeft
  | sumRight (lhs : Ir)
  | productLeft
  | productRight (lhs : Ir)

/-- What an opcode starts: a whole leaf, or an open node. -/
inductive Opened
  | leaf (e : Ir)
  | frame (f : Frame)

/-- What a finished node leads to: a finished tree, or nodes that are still open. -/
inductive Attached
  | done (e : Ir)
  | more (frames : List Frame)

/-- The class of variables that an opcode stands for. -/
def classOfOpcode? (op : UInt8) : Option VariableClass :=
  VariableClass.all.find? fun cls => opVar cls = op

/-- Reads a variable's index. -/
def readVarIndex (query : Width) (cls : VariableClass) (r : Reader) :
    Except WireError (Nat × Reader) :=
  match cls with
  | .challenge => r.number 4
  | _ => r.index query

/-- Reads what an opcode starts, which was read just before. -/
def openNode (query pool : Width) (op : UInt8) (r : Reader) :
    Except WireError (Opened × Reader) :=
  if op = opConst then do
    let (i, r) ← r.index pool
    return (.leaf (.const i), r)
  else match classOfOpcode? op with
    | some cls => do
      let (i, r) ← readVarIndex query cls r
      return (.leaf (.var cls i), r)
    | none =>
      if op = opNeg then .ok (.frame .neg, r)
      else if op = opSum then .ok (.frame .sumLeft, r)
      else if op = opProduct then .ok (.frame .productLeft, r)
      else if op = opScaled then .ok (.frame .scaled, r)
      else .error (.opcode op (r.pos - 1))

/-- Hands a finished node to the innermost open one, and so on outwards while nodes become
finished. -/
def attach (pool : Width) (e : Ir) : List Frame → Reader → Except WireError (Attached × Reader)
  | [], r => .ok (.done e, r)
  | .neg :: frames, r => attach pool (.neg e) frames r
  | .scaled :: frames, r =>
    match r.index pool with
    | .ok (i, r) => attach pool (.scaled e i) frames r
    | .error err => .error err
  | .sumLeft :: frames, r => .ok (.more (.sumRight e :: frames), r)
  | .sumRight a :: frames, r => attach pool (.sum a e) frames r
  | .productLeft :: frames, r => .ok (.more (.productRight e :: frames), r)
  | .productRight a :: frames, r => attach pool (.product a e) frames r

theorem length_of_openNode {query pool : Width} {op : UInt8} {r r' : Reader} {o : Opened}
    (h : openNode query pool op r = .ok (o, r')) : r'.rest.length ≤ r.rest.length := by
  unfold openNode at h
  split at h
  · cases hi : r.index pool with
    | error e => rw [hi] at h; cases h
    | ok v =>
      have : v.2.rest.length < r.rest.length := Reader.length_of_index hi
      rw [hi] at h
      cases h
      omega
  · split at h
    · next cls _ =>
      cases hi : readVarIndex query cls r with
      | error e => rw [hi] at h; cases h
      | ok v =>
        have : v.2.rest.length ≤ r.rest.length := by
          unfold readVarIndex at hi
          split at hi
          · have : v.2.rest.length + 4 = r.rest.length := Reader.length_of_number hi
            omega
          · have : v.2.rest.length < r.rest.length := Reader.length_of_index hi
            omega
        rw [hi] at h
        cases h
        exact this
    · repeat' split at h
      all_goals cases h <;> simp

theorem length_of_attach {pool : Width} {e : Ir} {frames : List Frame} {r r' : Reader}
    {a : Attached} (h : attach pool e frames r = .ok (a, r')) :
    r'.rest.length ≤ r.rest.length := by
  fun_induction attach pool e frames r with
  | case1 => cases h; simp
  | case2 _ _ _ ih => exact ih h
  | case3 _ _ _ i r1 hi ih => have := Reader.length_of_index hi; have := ih h; omega
  | case4 => cases h
  | case5 => cases h; simp
  | case6 _ _ _ _ ih => exact ih h
  | case7 => cases h; simp
  | case8 _ _ _ _ ih => exact ih h

/-- Reads nodes until the open ones are finished. -/
def readTree (query pool : Width) (frames : List Frame) (r : Reader) :
    Except WireError (Ir × Reader) :=
  match h : r.byte with
  | .error err => .error err
  | .ok (op, r1) =>
    match h1 : openNode query pool op r1 with
    | .error err => .error err
    | .ok (.frame f, r2) =>
      have := Reader.length_of_byte h
      have := length_of_openNode h1
      readTree query pool (f :: frames) r2
    | .ok (.leaf e, r2) =>
      match h2 : attach pool e frames r2 with
      | .error err => .error err
      | .ok (.done e, r3) => .ok (e, r3)
      | .ok (.more frames, r3) =>
        have := Reader.length_of_byte h
        have := length_of_openNode h1
        have := length_of_attach h2
        readTree query pool frames r3
termination_by r.rest.length
decreasing_by all_goals omega

/-- Reads one expression. -/
def readExpr (query pool : Width) (r : Reader) : Except WireError (Ir × Reader) :=
  readTree query pool [] r

theorem length_of_readTree {query pool : Width} {frames : List Frame} {r r' : Reader} {e : Ir}
    (h : readTree query pool frames r = .ok (e, r')) : r'.rest.length < r.rest.length := by
  fun_induction readTree query pool frames r with
  | case1 => cases h
  | case2 => cases h
  | case3 _ _ op r1 h0 f r2 h1 _ _ ih =>
    have := Reader.length_of_byte h0
    have := length_of_openNode h1
    have := ih h
    omega
  | case4 => cases h
  | case5 _ _ op r1 h0 e r2 h1 e' r3 h2 =>
    have := Reader.length_of_byte h0
    have := length_of_openNode h1
    have := length_of_attach h2
    cases h
    omega
  | case6 _ _ op r1 h0 e r2 h1 frames' r3 h2 _ _ _ ih =>
    have := Reader.length_of_byte h0
    have := length_of_openNode h1
    have := length_of_attach h2
    have := ih h
    omega

/-- Reads expressions to the end of the data, behind those read so far (the latest first). -/
def readExprs (query pool : Width) (read : List Ir) (r : Reader) : Except WireError (List Ir) :=
  if r.atEnd then .ok read.reverse
  else match h : readExpr query pool r with
    | .error err => .error err
    | .ok (e, r') =>
      have := length_of_readTree h
      readExprs query pool (e :: read) r'
termination_by r.rest.length

/-- The expressions that the given bytes spell. -/
def decodeExprs (query pool : Width) (data : Bytes) : Except WireError (List Ir) :=
  readExprs query pool [] (.ofBytes data)

end Plonkish.Wire
