import Mathlib.Analysis.SpecialFunctions.Pow.NthRootLemmas
import Mathlib.Data.Nat.Sqrt
import MoaCrypto.Java.Text

/-!
# RIPEMD160 (`RIPEMD160.java`)

The object keeps a buffer of sixteen words that the bytes of the input are packed into; a full
buffer goes to `compress`.  A Java `int` is a `Word`, and a byte is widened to one with its sign.

The three `update`s and the byte by byte one write the same loop again.  What each leaves behind is
the bytes absorbed in their order and their number added to `msglen` (`absorbAll`), so that the
state depends on the bytes alone and not on the calls that brought them (`run_eq_update`).

The chaining state is of any type here, and `compress` any function on it; those of the class are
`Md` and `compress`.

The standard has no tables of eighty entries: the words of a round are those of the round before
permuted by `ρ`, the rotations go by the round and the word, the functions of the right line are
those of the left from the last to the first, and the constants are roots of small primes.
`compress` is the function that this describes (`compress_eq`).
-/

namespace MoaCrypto.Ripemd

open Java

/-! ## The object -/

abbrev Word := BitVec 32

/-- The words of a block, `int[16]`. -/
abbrev Block := Vector Word 16

/-- The chaining state of the class, `int[5]`. -/
abbrev Md := Vector Word 5

structure RIPEMD160 (β : Type) where
  mdBuf : β
  working : Block
  workingPtr : Nat
  msglen : Word
  ptr_lt : workingPtr < 64

variable {β : Type}

def zeros : Block := Vector.replicate 16 0

/-- `new RIPEMD160()` where `md` is the state it sets. -/
def new (md : β) : RIPEMD160 β := ⟨md, zeros, 0, 0, by decide⟩

/-- `reset()`: nothing of the object is kept. -/
def reset (md : β) (_ : RIPEMD160 β) : RIPEMD160 β := ⟨md, zeros, 0, 0, by decide⟩

def initial : Md := #v[0x67452301, 0xefcdab89, 0x98badcfe, 0x10325476, 0xc3d2e1f0]

/-! ## The compression function -/

def ArgArray : Fin 2 → Vector Nat 80
  | 0 => #v[11, 14, 15, 12, 5, 8, 7, 9, 11, 13, 14, 15, 6, 7, 9, 8,
      7, 6, 8, 13, 11, 9, 7, 15, 7, 12, 15, 9, 11, 7, 13, 12,
      11, 13, 6, 7, 14, 9, 13, 15, 14, 8, 13, 6, 5, 12, 7, 5,
      11, 12, 14, 15, 14, 15, 9, 8, 9, 14, 5, 6, 8, 6, 5, 12,
      9, 15, 5, 11, 6, 8, 13, 12, 5, 12, 13, 14, 11, 8, 5, 6]
  | 1 => #v[8, 9, 9, 11, 13, 15, 15, 5, 7, 7, 8, 11, 14, 14, 12, 6,
      9, 13, 15, 7, 12, 8, 9, 11, 7, 7, 12, 7, 6, 15, 13, 11,
      9, 7, 15, 11, 8, 6, 6, 14, 12, 13, 5, 14, 13, 13, 7, 5,
      15, 5, 8, 11, 14, 14, 6, 14, 6, 9, 12, 9, 12, 5, 15, 8,
      8, 5, 12, 9, 12, 5, 14, 6, 8, 13, 6, 5, 15, 13, 11, 11]

def IndexArray : Fin 2 → Vector (Fin 16) 80
  | 0 => #v[0, 1, 2, 3, 4, 5, 6, 7, 8, 9, 10, 11, 12, 13, 14, 15,
      7, 4, 13, 1, 10, 6, 15, 3, 12, 0, 9, 5, 2, 14, 11, 8,
      3, 10, 14, 4, 9, 15, 8, 1, 2, 7, 0, 6, 13, 11, 5, 12,
      1, 9, 11, 10, 0, 8, 12, 4, 13, 3, 7, 15, 14, 5, 6, 2,
      4, 0, 5, 9, 7, 12, 2, 10, 14, 1, 3, 8, 11, 6, 15, 13]
  | 1 => #v[5, 14, 7, 0, 9, 2, 11, 4, 13, 6, 15, 8, 1, 10, 3, 12,
      6, 11, 3, 7, 0, 13, 5, 10, 14, 15, 8, 12, 4, 9, 1, 2,
      15, 5, 1, 3, 7, 14, 6, 9, 11, 8, 12, 2, 10, 0, 4, 13,
      8, 6, 4, 1, 3, 11, 15, 0, 5, 12, 2, 13, 9, 7, 10, 14,
      12, 15, 10, 4, 1, 5, 8, 7, 6, 2, 13, 14, 0, 3, 9, 11]

/-- `a` to `e`, or `A` to `E`. -/
structure Line where
  a : Word
  b : Word
  c : Word
  d : Word
  e : Word

/-- The functions FF, GG, HH, II and JJ of the rounds of a line, and the constants added to them. -/
def firstLine (b c d : Word) : Fin 5 → Word × Word
  | 0 => (b ^^^ c ^^^ d, 0)
  | 1 => ((b &&& c) ||| (~~~b &&& d), 0x5a827999)
  | 2 => ((b ||| ~~~c) ^^^ d, 0x6ed9eba1)
  | 3 => ((b &&& d) ||| (c &&& ~~~d), 0x8f1bbcdc)
  | 4 => (b ^^^ (c ||| ~~~d), 0xa953fd4e)

/-- JJJ, III, HHH, GGG and FFF. -/
def parallelLine (b c d : Word) : Fin 5 → Word × Word
  | 0 => (b ^^^ (c ||| ~~~d), 0x50a28be6)
  | 1 => ((b &&& d) ||| (c &&& ~~~d), 0x5c4dd124)
  | 2 => ((b ||| ~~~c) ^^^ d, 0x6d703ef3)
  | 3 => ((b &&& c) ||| (~~~b &&& d), 0x7a6d76e9)
  | 4 => (b ^^^ c ^^^ d, 0)

/-- One line through step `index`: `temp`, then the five assignments. -/
def step (line : Fin 2) (f : Word → Word → Word → Fin 5 → Word × Word) (X : Block) (l : Line)
    (index : Fin 80) : Line :=
  let (g, k) := f l.b l.c l.d ⟨index.val / 16, by omega⟩
  let temp := l.a + g + X[(IndexArray line)[index]] + k
  let s := (ArgArray line)[index]
  ⟨l.e, (temp <<< s ||| temp >>> (32 - s)) + l.e, l.b, l.c <<< 10 ||| l.c >>> 22, l.d⟩

def compress (mdBuf : Md) (X : Block) : Md :=
  let start : Line := ⟨mdBuf[0], mdBuf[1], mdBuf[2], mdBuf[3], mdBuf[4]⟩
  let l := (List.finRange 80).foldl (step 0 firstLine X) start
  let L := (List.finRange 80).foldl (step 1 parallelLine X) start
  #v[L.d + (l.c + mdBuf[1]), mdBuf[2] + l.d + L.e, mdBuf[3] + l.e + L.a, mdBuf[4] + l.a + L.b,
    mdBuf[0] + l.b + L.c]

/-! ## Updates -/

section
variable (compress : β → Block → β)

/-- `((int) input) << ((working_ptr & 3) << 3)`. -/
def shifted (input : UInt8) (ptr : Nat) : Word :=
  input.toBitVec.signExtend 32 <<< ((ptr &&& 3) <<< 3)

theorem index_lt {ptr : Nat} (h : ptr < 64) : ptr >>> 2 < 16 := by omega

/-- The body of the loops. -/
def absorb (s : RIPEMD160 β) (input : UInt8) : RIPEMD160 β :=
  have hindex := index_lt s.ptr_lt
  let working :=
    s.working.set (s.workingPtr >>> 2) (s.working[s.workingPtr >>> 2] ^^^ shifted input s.workingPtr)
  if hfull : s.workingPtr + 1 = 64 then
    ⟨compress s.mdBuf working, zeros, 0, s.msglen, by decide⟩
  else
    ⟨s.mdBuf, working, s.workingPtr + 1, s.msglen, by have := s.ptr_lt; omega⟩

/-- `n` times round a loop that is at index `i`. -/
def loop (input : List UInt8) : Nat → Nat → RIPEMD160 β → RIPEMD160 β
  | 0, _, s => s
  | n + 1, i, s => loop input n (i + 1) (absorb compress s (input.getD i 0))

/-- `msglen += n`. -/
def RIPEMD160.addLen (s : RIPEMD160 β) (n : Word) : RIPEMD160 β := { s with msglen := s.msglen + n }

/-- `update(byte)`. -/
def updateByte (s : RIPEMD160 β) (input : UInt8) : RIPEMD160 β := (absorb compress s input).addLen 1

/-- `update(byte[])`. -/
def update (s : RIPEMD160 β) (input : List UInt8) : RIPEMD160 β :=
  (loop compress input input.length 0 s).addLen (.ofNat 32 input.length)

/-- `update(byte[], int, int)`: a range that ends at the end of the array or would go past it is
taken up to there. -/
def updateRange (s : RIPEMD160 β) (input : List UInt8) (offset len : Nat) : RIPEMD160 β :=
  if input.length ≤ offset + len then
    (loop compress input (input.length - offset) offset s).addLen
      (.ofNat 32 input.length - .ofNat 32 offset)
  else (loop compress input len offset s).addLen (.ofNat 32 len)

/-! ## The last blocks and the digest -/

theorem and_fifteen_lt (x : Word) : (x &&& 15).toNat < 16 := by
  rw [BitVec.toNat_and]
  exact Nat.and_lt_two_pow _ (by decide : (15#32).toNat < 2 ^ 4)

/-- `MDfinish`: the chaining state, and the words as it leaves them. -/
def mdFinish (mdBuf : β) (array : Block) (lswlen mswlen : Word) : β × Block :=
  have hindex := and_fifteen_lt (lswlen.sshiftRight 2)
  let index := (lswlen.sshiftRight 2 &&& 15).toNat
  let X := array.set index (array[index] ^^^ (1 : Word) <<< (((lswlen &&& 3) <<< 3) + 7).toNat)
  -- with more than 55 bytes in the last block the length goes to the next one
  let (mdBuf, X) :=
    if 55 < (lswlen &&& 63).toInt then
      (compress mdBuf X, Vector.ofFn fun i : Fin 16 => if i.val < 14 then 0 else X[i])
    else (mdBuf, X)
  let X := (X.set 14 (lswlen <<< 3)).set 15 (lswlen.sshiftRight 29 ||| mswlen <<< 3)
  (compress mdBuf X, X)

/-- `(byte) ((MDbuf[i >> 2] >>> ((i & 3) << 3)) & 0x000000FF)`, for the twenty bytes. -/
def digestBytes (md : Md) : List UInt8 :=
  (List.finRange 20).map fun (i : Fin 20) =>
    have hindex : i.val >>> 2 < 5 := by omega
    UInt8.ofBitVec ((md[i.val >>> 2] >>> ((i.val &&& 3) <<< 3) &&& 0xFF).setWidth 8)

end

/-- `digestBin()`, with the object it leaves. -/
def digestBin (s : RIPEMD160 Md) : List UInt8 × RIPEMD160 Md :=
  let (mdBuf, working) := mdFinish compress s.mdBuf s.working s.msglen 0
  (digestBytes mdBuf, { s with mdBuf, working })

/-- `byteToHex`. -/
def byteToHex (b : UInt8) : List Char :=
  let hexChar (n : Nat) := if 9 < n then Char.ofNat (97 + (n - 10)) else Char.ofNat (48 + n)
  [hexChar ((256 + b.toBitVec.toInt).toNat / 16 &&& 15), hexChar ((256 + b.toBitVec.toInt).toNat &&& 15)]

/-- `digest()`. -/
def digest (s : RIPEMD160 Md) : String × RIPEMD160 Md :=
  let (res, s) := digestBin s
  (String.ofList (res.flatMap byteToHex), s)

theorem byteToHex_ofNat : ∀ n < 256, byteToHex (.ofNat n) = hexByte (.ofNat n) := by decide +kernel

theorem byteToHex_eq_hexByte (b : UInt8) : byteToHex b = hexByte b := by
  have h := byteToHex_ofNat b.toNat b.toNat_lt
  rwa [UInt8.ofNat_toNat] at h

/-- The text of the digest is that of its bytes. -/
theorem digest_eq (s : RIPEMD160 Md) : (digest s).1 = encodeHexString (digestBin s).1 := by
  show String.ofList ((digestBin s).1.flatMap byteToHex) = _
  rw [encodeHexString, funext byteToHex_eq_hexByte]

/-! ## Calls -/

section
variable (compress : β → Block → β)

inductive Call
  | byte (input : UInt8)
  | array (input : List UInt8)
  | range (input : List UInt8) (offset len : Nat) (inside : offset + len ≤ input.length)

/-- The bytes that a call brings. -/
def Call.bytes : Call → List UInt8
  | .byte input => [input]
  | .array input => input
  | .range input offset len _ => (input.drop offset).take len

def call (s : RIPEMD160 β) : Call → RIPEMD160 β
  | .byte input => updateByte compress s input
  | .array input => update compress s input
  | .range input offset len _ => updateRange compress s input offset len

/-- The bytes absorbed and counted. -/
def absorbAll (s : RIPEMD160 β) (bytes : List UInt8) : RIPEMD160 β :=
  (bytes.foldl (absorb compress) s).addLen (.ofNat 32 bytes.length)

theorem loop_eq_foldl (input : List UInt8) (n i : Nat) (s : RIPEMD160 β) (h : i + n ≤ input.length) :
    loop compress input n i s = ((input.drop i).take n).foldl (absorb compress) s := by
  induction n generalizing i s with
  | zero => simp [loop]
  | succ n ih =>
    have hi : i < input.length := by omega
    rw [loop, ih (i + 1) _ (by omega), List.drop_eq_getElem_cons hi, List.take_succ_cons,
      List.foldl_cons, List.getD_eq_getElem?_getD, List.getElem?_eq_getElem hi,
      Option.getD_some]

@[simp]
theorem addLen_addLen (s : RIPEMD160 β) (m n : Word) : (s.addLen m).addLen n = s.addLen (m + n) := by
  rw [RIPEMD160.addLen, RIPEMD160.addLen, RIPEMD160.addLen, BitVec.add_assoc]

/-- The number of bytes so far plays no part in where the next one goes. -/
theorem absorb_addLen (s : RIPEMD160 β) (n : Word) (input : UInt8) :
    absorb compress (s.addLen n) input = (absorb compress s input).addLen n := by
  unfold absorb RIPEMD160.addLen
  split <;> rfl

theorem foldl_absorb_addLen (s : RIPEMD160 β) (n : Word) (bytes : List UInt8) :
    bytes.foldl (absorb compress) (s.addLen n) = (bytes.foldl (absorb compress) s).addLen n := by
  induction bytes generalizing s with
  | nil => rfl
  | cons b bytes ih => rw [List.foldl_cons, absorb_addLen, ih, List.foldl_cons]

theorem absorbAll_append (s : RIPEMD160 β) (xs ys : List UInt8) :
    absorbAll compress s (xs ++ ys) = absorbAll compress (absorbAll compress s xs) ys := by
  rw [absorbAll, absorbAll, absorbAll, foldl_absorb_addLen, addLen_addLen, List.foldl_append,
    List.length_append, BitVec.ofNat_add]

theorem update_eq_absorbAll (s : RIPEMD160 β) (input : List UInt8) :
    update compress s input = absorbAll compress s input := by
  rw [update, loop_eq_foldl compress input _ 0 s (by omega), List.drop_zero, List.take_length, absorbAll]

/-- Each call is its bytes absorbed and counted. -/
theorem call_eq_absorbAll (s : RIPEMD160 β) (c : Call) :
    call compress s c = absorbAll compress s c.bytes := by
  cases c with
  | byte input => rfl
  | array input => exact update_eq_absorbAll compress s input
  | range input offset len inside =>
    rw [call, updateRange, Call.bytes, absorbAll, List.length_take, List.length_drop]
    have hlen : min len (input.length - offset) = len := by omega
    by_cases hend : input.length ≤ offset + len
    · -- the range ends where the array does
      have hto : input.length - offset = len := by omega
      have hsub : BitVec.ofNat 32 input.length - BitVec.ofNat 32 offset = BitVec.ofNat 32 len := by
        rw [show input.length = len + offset by omega, BitVec.ofNat_add, BitVec.add_sub_cancel]
      rw [if_pos hend, hto, loop_eq_foldl compress input len offset s inside, hsub, Nat.min_self]
    · rw [if_neg hend, loop_eq_foldl compress input len offset s inside, hlen]

theorem run_eq_absorbAll (s : RIPEMD160 β) (calls : List Call) :
    calls.foldl (call compress) s = absorbAll compress s (calls.flatMap Call.bytes) := by
  induction calls generalizing s with
  | nil =>
    rw [List.flatMap_nil, List.foldl_nil, absorbAll, RIPEMD160.addLen]
    simp
  | cons c calls ih => rw [List.foldl_cons, List.flatMap_cons, call_eq_absorbAll, ih, absorbAll_append]

end

/-- An object that has been reset is as good as a new one. -/
theorem reset_eq_new (md : β) (s : RIPEMD160 β) : reset md s = new md := rfl

/-- However the bytes are split into calls, the object is the same after the last of them as after
one update with all of them, and so is the digest. -/
theorem run_eq_update (s : RIPEMD160 Md) (calls : List Call) :
    calls.foldl (call compress) s = update compress s (calls.flatMap Call.bytes) ∧
      calls.foldl (call compress) (reset initial s) =
        update compress (new initial) (calls.flatMap Call.bytes) ∧
      digestBin (calls.foldl (call compress) s) =
        digestBin (update compress s (calls.flatMap Call.bytes)) := by
  have hrun (s : RIPEMD160 Md) :
      calls.foldl (call compress) s = update compress s (calls.flatMap Call.bytes) := by
    rw [run_eq_absorbAll, update_eq_absorbAll]
  refine ⟨hrun s, ?_, ?_⟩
  · rw [reset_eq_new, hrun]
  · rw [hrun]

example : (digest (update compress (new initial) [])).1 =
    "9c1185a5c5e9fc54612808977ee8f548b2258d31" := by decide +kernel

/-! ## The compression function of the standard -/

namespace Standard

inductive Side
  | left
  | right

def rho : Vector (Fin 16) 16 := #v[7, 4, 13, 1, 10, 6, 15, 3, 12, 0, 9, 5, 2, 14, 11, 8]

/-- The word of step `i` of a round: `ρ` is gone through once more in every round, and on the right
line after `π`. -/
def word (r : Fin 5) (i : Fin 16) : Side → Fin 16
  | .left => rho.get^[r] i
  | .right => rho.get^[r] (9 * i + 5)

/-- The rotation of a round for a word, the same on both lines. -/
def shifts : Vector (Vector Nat 16) 5 :=
  #v[#v[11, 14, 15, 12, 5, 8, 7, 9, 11, 13, 14, 15, 6, 7, 9, 8],
    #v[12, 13, 11, 15, 6, 9, 9, 7, 12, 15, 11, 13, 7, 8, 7, 7],
    #v[13, 15, 14, 11, 7, 7, 6, 8, 13, 14, 13, 12, 5, 5, 6, 9],
    #v[14, 11, 12, 14, 8, 6, 5, 5, 15, 12, 15, 14, 9, 9, 8, 6],
    #v[15, 12, 13, 13, 9, 5, 8, 6, 14, 11, 12, 11, 8, 6, 5, 5]]

def f (x y z : Word) : Fin 5 → Word
  | 0 => x ^^^ y ^^^ z
  | 1 => (x &&& y) ||| (~~~x &&& z)
  | 2 => (x ||| ~~~y) ^^^ z
  | 3 => (x &&& z) ||| (y &&& ~~~z)
  | 4 => x ^^^ (y ||| ~~~z)

/-- The function of a round. -/
def roundFunction (r : Fin 5) (x y z : Word) : Side → Word
  | .left => f x y z r
  | .right => f x y z r.rev

/-- The integer part of `2 ^ 30` times the square roots of 0, 2, 3, 5 and 7 on the left line, and
times the cube roots of 2, 3, 5, 7 and 0 on the right. -/
def constant (r : Fin 5) : Side → Word
  | .left => .ofNat 32 (Nat.sqrt (2 ^ 60 * #v[0, 2, 3, 5, 7].get r))
  | .right => .ofNat 32 (Nat.nthRoot 3 (2 ^ 90 * #v[2, 3, 5, 7, 0].get r))

/-- Step `i` of round `r`. -/
def step (side : Side) (X : Block) (r : Fin 5) (l : Line) (i : Fin 16) : Line :=
  let j := word r i side
  let t := (l.a + roundFunction r l.b l.c l.d side + X.get j + constant r side).rotateLeft
    ((shifts.get r).get j)
  ⟨l.e, t + l.e, l.b, l.c.rotateLeft 10, l.d⟩

/-- The five rounds of a line. -/
def line (side : Side) (X : Block) (start : Line) : Line :=
  (List.finRange 5).foldl (fun l r => (List.finRange 16).foldl (step side X r) l) start

def combine (h : Md) (l l' : Line) : Md :=
  #v[h[1] + l.c + l'.d, h[2] + l.d + l'.e, h[3] + l.e + l'.a, h[4] + l.a + l'.b, h[0] + l.b + l'.c]

def compress (h : Md) (X : Block) : Md :=
  let start : Line := ⟨h[0], h[1], h[2], h[3], h[4]⟩
  combine h (line .left X start) (line .right X start)

end Standard

open Standard (Side)

/-! ## The tables -/

/-- The line of the code for one of the standard. -/
def lineOf : Side → Fin 2
  | .left => 0
  | .right => 1

def functionsOf : Side → Word → Word → Word → Fin 5 → Word × Word
  | .left => firstLine
  | .right => parallelLine

/-- The place in the tables of step `i` of round `r`. -/
def place (r : Fin 5) (i : Fin 16) : Fin 80 := ⟨16 * r.val + i.val, by omega⟩

theorem IndexArray_eq (side : Side) :
    ∀ r i, (IndexArray (lineOf side)).get (place r i) = Standard.word r i side := by
  cases side <;> decide

theorem ArgArray_eq (side : Side) :
    ∀ r i, (ArgArray (lineOf side)).get (place r i) = (Standard.shifts.get r).get (Standard.word r i side) := by
  cases side <;> decide

theorem ArgArray_lt (side : Side) : ∀ j, (ArgArray (lineOf side)).get j < 32 := by
  cases side <;> decide

theorem finRange_eq_flatMap :
    List.finRange 80 = (List.finRange 5).flatMap fun r => (List.finRange 16).map (place r) := by
  decide

theorem constant_left :
    ∀ r, Standard.constant r .left = #v[0, 0x5a827999, 0x6ed9eba1, 0x8f1bbcdc, 0xa953fd4e].get r := by
  have hroot (n k : Nat) (hle : k * k ≤ n) (hlt : n < (k + 1) * (k + 1)) :
      BitVec.ofNat 32 (Nat.sqrt n) = BitVec.ofNat 32 k := by
    rw [← Nat.eq_sqrt.2 ⟨hle, hlt⟩]
  intro r
  match r with
  | 0 => exact hroot _ 0 (by decide) (by decide)
  | 1 => exact hroot _ 0x5a827999 (by decide) (by decide)
  | 2 => exact hroot _ 0x6ed9eba1 (by decide) (by decide)
  | 3 => exact hroot _ 0x8f1bbcdc (by decide) (by decide)
  | 4 => exact hroot _ 0xa953fd4e (by decide) (by decide)

theorem constant_right :
    ∀ r, Standard.constant r .right = #v[0x50a28be6, 0x5c4dd124, 0x6d703ef3, 0x7a6d76e9, 0].get r := by
  have hroot (n k : Nat) (hle : k ^ 3 ≤ n) (hlt : n < (k + 1) ^ 3) :
      BitVec.ofNat 32 (Nat.nthRoot 3 n) = BitVec.ofNat 32 k := by
    rw [Nat.nthRoot_eq_of_le_of_lt hle hlt]
  intro r
  match r with
  | 0 => exact hroot _ 0x50a28be6 (by decide) (by decide)
  | 1 => exact hroot _ 0x5c4dd124 (by decide) (by decide)
  | 2 => exact hroot _ 0x6d703ef3 (by decide) (by decide)
  | 3 => exact hroot _ 0x7a6d76e9 (by decide) (by decide)
  | 4 => exact hroot _ 0 (by decide) (by decide)

/-- The pairs that the code has of a function and a constant. -/
theorem functionsOf_eq (side : Side) (x y z : Word) (r : Fin 5) :
    functionsOf side x y z r = (Standard.roundFunction r x y z side, Standard.constant r side) := by
  cases side with
  | left =>
    rw [constant_left]
    match r with
    | 0 | 1 | 2 | 3 | 4 => rfl
  | right =>
    rw [constant_right]
    match r with
    | 0 | 1 | 2 | 3 | 4 => rfl

/-! ## The steps -/

/-- `(x << s) | (x >>> (32 - s))`. -/
theorem rotateLeft_eq (x : Word) {s : Nat} (h : s < 32) : x <<< s ||| x >>> (32 - s) = x.rotateLeft s := by
  rw [BitVec.rotateLeft_def, Nat.mod_eq_of_lt h]

theorem step_eq (side : Side) (X : Block) (r : Fin 5) (l : Line) (i : Fin 16) :
    step (lineOf side) (functionsOf side) X l (place r i) = Standard.step side X r l i := by
  have hround : (⟨(place r i).val / 16, by omega⟩ : Fin 5) = r := by
    refine Fin.ext ?_
    show (16 * r.val + i.val) / 16 = r.val
    omega
  have hget {α : Type} {n : Nat} (v : Vector α n) (j : Fin n) : v[j] = v.get j := rfl
  unfold step Standard.step
  simp only [hround, functionsOf_eq, hget]
  rw [rotateLeft_eq _ (ArgArray_lt side _), rotateLeft_eq l.c (by decide : 10 < 32), ArgArray_eq,
    IndexArray_eq]

/-- The eighty steps of a line are its five rounds. -/
theorem line_eq (side : Side) (X : Block) (start : Line) :
    (List.finRange 80).foldl (step (lineOf side) (functionsOf side) X) start =
      Standard.line side X start := by
  have hround (l : Line) (r : Fin 5) :
      ((List.finRange 16).map (place r)).foldl (step (lineOf side) (functionsOf side) X) l =
        (List.finRange 16).foldl (Standard.step side X r) l := by
    rw [List.foldl_map, funext₂ (step_eq side X r)]
  rw [finRange_eq_flatMap, List.foldl_flatMap, Standard.line, funext₂ hround]

/-- "combine results": the first of the sums is the other way round in the standard. -/
theorem combine_eq (h : Md) (l l' : Line) :
    #v[l'.d + (l.c + h[1]), h[2] + l.d + l'.e, h[3] + l.e + l'.a, h[4] + l.a + l'.b, h[0] + l.b + l'.c] =
      Standard.combine h l l' := by
  rw [Standard.combine, BitVec.add_comm l'.d, BitVec.add_comm l.c]

theorem compress_eq (h : Md) (X : Block) : compress h X = Standard.compress h X :=
  (combine_eq h _ _).trans (congrArg₂ (Standard.combine h) (line_eq .left X _) (line_eq .right X _))

end MoaCrypto.Ripemd
