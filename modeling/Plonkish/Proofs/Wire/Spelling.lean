import Plonkish.Proofs.Bytes
import Plonkish.Proofs.Outcome
import Plonkish.Proofs.Wire.Width
import Plonkish.Wire.Expression

/-!
# What writing an expression gives

The wire format of an expression, byte by byte and without regard to ranges, and the numbers in
its nodes that have no room. Writing with a stack appends these bytes to whatever was written
before; if some number has no room, it fails with the first one in pre-order.

* `Wire.spelling`: the format, by recursion.
* `Wire.overflow?`: the overflow in a node.
* `Wire.encoding_eq`: an expression is spelled out, or fails with the first overflow of its nodes.
* `Wire.encodeExprs_eq_foldlM`: a list is written expression by expression.
* `Wire.emit_spells_or_overflows`: what a buffer holds after writing, and when writing fails.
-/

namespace Plonkish.Wire

open Outcome

variable {query pool : Width}

/-! ## The format -/

/-- The bytes of an expression whose numbers all have room. -/
def spelling (query pool : Width) : Ir → Bytes
  | .const i => 0x00 :: Bytes.littleEndian pool.size i.toNat
  | .var .fixed i => 0x02 :: Bytes.littleEndian query.size i.toNat
  | .var .advice i => 0x03 :: Bytes.littleEndian query.size i.toNat
  | .var .inst i => 0x04 :: Bytes.littleEndian query.size i.toNat
  | .var .challenge i => 0x05 :: Bytes.littleEndian 4 i.toNat
  | .neg e => 0x06 :: spelling query pool e
  | .sum a b => 0x07 :: (spelling query pool a ++ spelling query pool b)
  | .product a b => 0x08 :: (spelling query pool a ++ spelling query pool b)
  | .scaled e i => 0x09 :: (spelling query pool e ++ Bytes.littleEndian pool.size i.toNat)

/-- The overflow of a number, if it is out of the range of a word. -/
def wordOverflow? (size : Nat) (what : Text) (value : Int) : Option Overflow :=
  if FitsWord size value then none else some ⟨what, .int value, maxWord size⟩

/-- The overflow of the number in a node, if there is one without room. -/
def overflow? (query pool : Width) : Ir.Node → Option Overflow
  | .const i => wordOverflow? pool.size "constant pool index" i
  | .var .challenge i => wordOverflow? 4 "challenge index" i
  | .var cls i => wordOverflow? query.size s!"{cls.name} query index" i
  | .neg => none
  | .sum => none
  | .product => none
  | .scaled i => wordOverflow? pool.size "constant pool index" i

/-! ## Bytes or an overflow -/

/-- Some bytes, unless an overflow forbids them. -/
def unlessOverflow : Option Overflow → Bytes → Except WriteError Bytes
  | none, bytes => .ok bytes
  | some o, _ => .error (.overflow o)

variable {o o' : Option Overflow} {a b bytes : Bytes}

theorem unlessOverflow_bind_pure (f : Bytes → Bytes) :
    (do let a ← unlessOverflow o a; return f a) = unlessOverflow o (f a) := by
  cases o <;> rfl

/-- Of two overflows the one of the first step counts. -/
theorem unlessOverflow_bind_bind_pure (f : Bytes → Bytes → Bytes) :
    (do
        let a ← unlessOverflow o a
        let b ← unlessOverflow o' b
        return f a b) =
      unlessOverflow (o.or o') (f a b) := by
  cases o <;> cases o' <;> rfl

theorem unlessOverflow_eq_ok_iff : unlessOverflow o a = .ok bytes ↔ o = none ∧ a = bytes := by
  cases o <;> simp [unlessOverflow]

theorem unlessOverflow_eq_error_iff {err : WriteError} :
    unlessOverflow o a = .error err ↔ ∃ overflow, o = some overflow ∧ err = .overflow overflow := by
  cases o <;> simp [unlessOverflow, eq_comm]

/-! ## Single numbers -/

theorem word_eq_unlessOverflow (size : Nat) (what : Text) (value : Int) :
    word size what value =
      unlessOverflow (wordOverflow? size what value) (Bytes.littleEndian size value.toNat) := by
  rw [word_int, ← Bytes.ofNat_eq_littleEndian, wordOverflow?]
  by_cases h : 0 ≤ value ∧ value ≤ maxWord size
  · have hfits : FitsWord size value := h
    rw [if_pos h, if_pos hfits, unlessOverflow]
  · have hfits : ¬FitsWord size value := h
    rw [if_neg h, if_neg hfits, unlessOverflow]

theorem encodeConstIndex_eq (pool : Width) (i : Int) :
    encodeConstIndex pool i =
      unlessOverflow (wordOverflow? pool.size "constant pool index" i)
        (Bytes.littleEndian pool.size i.toNat) := by
  rw [encodeConstIndex, Width.encode_int, word_eq_unlessOverflow]

/-- A variable is spelled by its opcode and its index. -/
theorem encoding_var (query pool : Width) (cls : VariableClass) (i : Int) :
    encoding query pool (.var cls i) =
      unlessOverflow (overflow? query pool (.var cls i)) (spelling query pool (.var cls i)) := by
  cases cls <;>
    simp only [encoding, encodeVarIndex, Width.encode_int, word_eq_unlessOverflow,
      unlessOverflow_bind_pure, overflow?, spelling, opVar]

/-! ## Expressions -/

/-- An expression is written as it is spelled, or the first of its nodes in pre-order that has an
overflow is named. -/
theorem encoding_eq (query pool : Width) (e : Ir) :
    encoding query pool e =
      unlessOverflow (e.nodes.findSome? (overflow? query pool)) (spelling query pool e) := by
  induction e with
  | const i =>
    rw [encoding, encodeConstIndex_eq, unlessOverflow_bind_pure]
    simp [Ir.nodes, overflow?, spelling, opConst]
  | var cls i =>
    rw [encoding_var]
    simp [Ir.nodes]
  | neg e ih =>
    rw [encoding, ih, unlessOverflow_bind_pure]
    rfl
  | sum a b iha ihb =>
    rw [encoding, iha, ihb, unlessOverflow_bind_bind_pure, ← List.findSome?_append]
    rfl
  | product a b iha ihb =>
    rw [encoding, iha, ihb, unlessOverflow_bind_bind_pure, ← List.findSome?_append]
    rfl
  | scaled e i ih =>
    -- The index is written last and checked first.
    rw [encoding, encodeConstIndex_eq, ih, unlessOverflow_bind_bind_pure, Ir.nodes,
      List.findSome?_cons, overflow?]
    cases wordOverflow? pool.size "constant pool index" i <;> rfl

/-! ## The buffer -/

/-- What is on top of the stack is written before the rest is looked at. -/
theorem emit_append {ν : Type} [Quantity ν] (query pool : Width) (buffer : Array UInt8)
    (first rest : List (Pending ν)) :
    emit query pool buffer (first ++ rest) =
      (do let buffer ← emit query pool buffer first; emit query pool buffer rest) := by
  fun_induction emit query pool buffer first with
  | case1 => rfl
  | _ => simp_all [emit, bind, Except.bind]

/-- A list of expressions is written one by one, each into the buffer of those before it. -/
theorem encodeExprs_eq_foldlM {ν : Type} [Quantity ν] (query pool : Width) (es : List (Ir ν)) :
    encodeExprs query pool es =
      (do
        let buffer ← es.foldlM (fun buffer e => emit query pool buffer [.node e]) #[]
        return buffer.toList) := by
  have hloop (buffer : Array UInt8) : emit query pool buffer (es.map .node) =
      es.foldlM (fun buffer e => emit query pool buffer [.node e]) buffer := by
    induction es generalizing buffer with
    | nil => simp [emit, pure, Except.pure]
    | cons e es ih =>
      rw [List.map_cons, List.foldlM_cons, ← List.singleton_append, emit_append]
      simp only [ih]
  rw [encodeExprs, hloop]

theorem emit_node_eq (query pool : Width) (buffer : Array UInt8) (e : Ir) :
    emit query pool buffer [.node e] =
      (do
        let bytes ← unlessOverflow (e.nodes.findSome? (overflow? query pool))
          (spelling query pool e)
        return buffer ++ bytes) := by
  rw [emit_eq]
  simp only [pendingEncoding, Pending.encoding, encoding_eq]
  cases e.nodes.findSome? (overflow? query pool) <;>
    simp [unlessOverflow, bind, Except.bind, pure, Except.pure]

section Node

variable {buffer out : Array UInt8} {e : Ir} {err : WriteError}

theorem emit_node_eq_ok_iff :
    emit query pool buffer [.node e] = .ok out ↔
      (∀ n ∈ e.nodes, overflow? query pool n = none) ∧ out = buffer ++ spelling query pool e := by
  simp only [emit_node_eq, bind_eq_ok_iff, pure_eq_ok_iff, unlessOverflow_eq_ok_iff,
    List.findSome?_eq_none_iff]
  constructor
  · rintro ⟨_, ⟨hfits, rfl⟩, rfl⟩
    exact ⟨hfits, rfl⟩
  · rintro ⟨hfits, rfl⟩
    exact ⟨_, ⟨hfits, rfl⟩, rfl⟩

theorem emit_node_eq_error_iff :
    emit query pool buffer [.node e] = .error err ↔
      ∃ o, e.nodes.findSome? (overflow? query pool) = some o ∧ err = .overflow o := by
  simp only [emit_node_eq, bind_eq_error_iff, pure_ne_error, unlessOverflow_eq_error_iff, and_false,
    exists_false, or_false]

end Node

/-- Writing an expression appends its spelling to the buffer, exactly if all numbers in it have
room. Otherwise the error is the overflow of the first node in pre-order that has one. -/
theorem emit_spells_or_overflows (query pool : Width) (buffer : Array UInt8) (e : Ir) :
    (∀ out, emit query pool buffer [.node e] = .ok out ↔
        (∀ n ∈ e.nodes, overflow? query pool n = none) ∧
          out = buffer ++ spelling query pool e) ∧
      (∀ err, emit query pool buffer [.node e] = .error err ↔
        ∃ before n after o, e.nodes = before ++ n :: after ∧
          (∀ m ∈ before, overflow? query pool m = none) ∧ overflow? query pool n = some o ∧
            err = .overflow o) ∧
      ((∃ o, emit query pool buffer [.node e] = .error (.overflow o)) ↔
        ∃ n ∈ e.nodes, overflow? query pool n ≠ none) := by
  refine ⟨fun out => emit_node_eq_ok_iff, fun err => ?_, ?_⟩
  · simp only [emit_node_eq_error_iff, List.findSome?_eq_some_iff]
    constructor
    · rintro ⟨o, ⟨before, n, after, hnodes, hn, hbefore⟩, herr⟩
      exact ⟨before, n, after, o, hnodes, hbefore, hn, herr⟩
    · rintro ⟨before, n, after, o, hnodes, hbefore, hn, herr⟩
      exact ⟨o, ⟨before, n, after, hnodes, hn, hbefore⟩, herr⟩
  · have hfound : (∃ o, e.nodes.findSome? (overflow? query pool) = some o) ↔
        ∃ n ∈ e.nodes, overflow? query pool n ≠ none := by
      rw [← Option.ne_none_iff_exists', Ne, List.findSome?_eq_none_iff]
      simp only [not_forall, exists_prop, Ne]
    simp only [← hfound, emit_node_eq_error_iff, WriteError.overflow.injEq, exists_eq_right']

/-- Neither index has room, and the one that is written last is named. -/
example : emit .u8 .u32 #[0xff] [.node (.scaled (.var .inst (256 : Int)) (-1))] =
    .error (.overflow ⟨"constant pool index", .int (-1), 0xffffffff⟩) := by decide +kernel

end Plonkish.Wire
