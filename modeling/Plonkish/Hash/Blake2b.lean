import Plonkish.Bytes

/-!
# BLAKE2b

The unkeyed 64-byte BLAKE2b digest with a personalization string.
-/

namespace Plonkish.Blake2b

/-- The initial state words. -/
def iv : Vector UInt64 8 :=
  #v[0x6a09e667f3bcc908, 0xbb67ae8584caa73b, 0x3c6ef372fe94f82b, 0xa54ff53a5f1d36f1,
    0x510e527fade682d1, 0x9b05688c2b3e6c1f, 0x1f83d9abfb41bd6b, 0x5be0cd19137e2179]

/-- The order in which each of ten rounds takes the message words. -/
def schedule : Vector (Vector (Fin 16) 16) 10 :=
  #v[#v[0, 1, 2, 3, 4, 5, 6, 7, 8, 9, 10, 11, 12, 13, 14, 15],
    #v[14, 10, 4, 8, 9, 15, 13, 6, 1, 12, 0, 2, 11, 7, 5, 3],
    #v[11, 8, 12, 0, 5, 2, 15, 13, 10, 14, 3, 6, 7, 1, 9, 4],
    #v[7, 9, 3, 1, 13, 12, 11, 14, 2, 6, 5, 10, 4, 0, 15, 8],
    #v[9, 0, 5, 7, 2, 4, 10, 15, 14, 1, 11, 12, 6, 8, 3, 13],
    #v[2, 12, 6, 10, 0, 11, 8, 3, 4, 13, 7, 5, 15, 14, 1, 9],
    #v[12, 5, 1, 15, 14, 13, 4, 10, 0, 7, 6, 3, 9, 2, 8, 11],
    #v[13, 11, 7, 14, 12, 1, 3, 9, 5, 0, 15, 4, 8, 6, 2, 10],
    #v[6, 15, 14, 9, 11, 3, 0, 8, 12, 2, 13, 7, 1, 4, 10, 5],
    #v[10, 2, 8, 4, 7, 6, 1, 5, 15, 11, 9, 14, 3, 12, 13, 0]]

/-- The rounds of one block: the ten rows of the schedule and the first two again. -/
def rounds : List (Fin 10) := [0, 1, 2, 3, 4, 5, 6, 7, 8, 9, 0, 1]

/-- The four state positions that a mixing step touches, with its two message positions in a row
of the schedule: first the columns, then the diagonals. -/
def lanes : List (Fin 16 × Fin 16 × Fin 16 × Fin 16 × Fin 16 × Fin 16) :=
  [(0, 4, 8, 12, 0, 1), (1, 5, 9, 13, 2, 3), (2, 6, 10, 14, 4, 5), (3, 7, 11, 15, 6, 7),
    (0, 5, 10, 15, 8, 9), (1, 6, 11, 12, 10, 11), (2, 7, 8, 13, 12, 13), (3, 4, 9, 14, 14, 15)]

/-- Rotation to the right. -/
def rotate (x : UInt64) (n : UInt64) : UInt64 :=
  (x >>> n) ||| (x <<< (64 - n))

/-- The mixing step on positions `a b c d` with message words `x y`. -/
def mix (v : Vector UInt64 16) (a b c d : Fin 16) (x y : UInt64) : Vector UInt64 16 :=
  let v := v.set a (v[a] + v[b] + x)
  let v := v.set d (rotate (v[d] ^^^ v[a]) 32)
  let v := v.set c (v[c] + v[d])
  let v := v.set b (rotate (v[b] ^^^ v[c]) 24)
  let v := v.set a (v[a] + v[b] + y)
  let v := v.set d (rotate (v[d] ^^^ v[a]) 16)
  let v := v.set c (v[c] + v[d])
  v.set b (rotate (v[b] ^^^ v[c]) 63)

/-- One round of mixing steps over a block of sixteen words. -/
def round (block : Vector UInt64 16) (v : Vector UInt64 16) (row : Fin 10) : Vector UInt64 16 :=
  lanes.foldl
    (fun v (a, b, c, d, i, j) => mix v a b c d block[schedule[row][i]] block[schedule[row][j]]) v

/-- Folds one block into the state. `count` is the number of bytes taken so far, this block's
included, and `isLast` marks the final block. -/
def compress (h : Vector UInt64 8) (block : Vector UInt64 16) (count : Nat) (isLast : Bool) :
    Vector UInt64 8 :=
  let v := h ++ iv
  let v := v.set 12 (v[12] ^^^ UInt64.ofNat count)
  let v := v.set 13 (v[13] ^^^ UInt64.ofNat (count >>> 64))
  let v := if isLast then v.set 14 (~~~ v[14]) else v
  let v := rounds.foldl (round block) v
  Vector.ofFn fun i : Fin 8 => h[i] ^^^ v[i.val] ^^^ v[i.val + 8]

/-- The number of bytes in a block. -/
def blockSize : Nat := 128

/-- The `i`th 64-bit word of a byte string, least significant byte first; absent bytes are zero. -/
def word (bytes : Bytes) (i : Nat) : UInt64 :=
  UInt64.ofNat (Bytes.toNat ((bytes.drop (8 * i)).take 8))

/-- The first block of a byte string, padded with zeros. -/
def block (bytes : Bytes) : Vector UInt64 16 :=
  Vector.ofFn fun i => word bytes i

/-- Folds in a message of which `count` bytes are already taken. The last block may be partial,
and is empty only if the whole message is. -/
def absorb (h : Vector UInt64 8) (count : Nat) (bytes : Bytes) : Vector UInt64 8 :=
  if bytes.length ≤ blockSize then compress h (block bytes) (count + bytes.length) true
  else absorb (compress h (block bytes) (count + blockSize) false) (count + blockSize)
    (bytes.drop blockSize)
termination_by bytes.length
decreasing_by simp [blockSize] at *; omega

/-- The state before the first block: digest length 64, no key, no tree, and a personalization of
16 bytes. -/
def start (person : Bytes) : Vector UInt64 8 :=
  let h := iv.set 0 (iv[0] ^^^ 0x01010040)
  let h := h.set 6 (h[6] ^^^ word person 0)
  h.set 7 (h[7] ^^^ word person 1)

/-- The 64-byte digest of a message under a personalization of 16 bytes. -/
def digest (person message : Bytes) : Bytes :=
  (absorb (start person) 0 message).toList.flatMap fun w => Bytes.ofNat 8 w.toNat

end Plonkish.Blake2b
