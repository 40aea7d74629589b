import MoaCrypto.Java.Text

/-!
# `MessageDigest.getInstance("SHA-256")`

The digest of a list of bytes: the message is padded to blocks of 64 bytes, and each
block is mixed into the eight words of the hash in 64 rounds.  Words are 32 bits wide
and big-endian.
-/

namespace Java.Sha256

/-! ## Words -/

def rotr (x : UInt32) (n : UInt32) : UInt32 := x >>> n ||| x <<< (32 - n)

def word (a b c d : UInt8) : UInt32 :=
  a.toUInt32 <<< 24 ||| b.toUInt32 <<< 16 ||| c.toUInt32 <<< 8 ||| d.toUInt32

def wordBytes (x : UInt32) : List UInt8 :=
  [(x >>> 24).toUInt8, (x >>> 16).toUInt8, (x >>> 8).toUInt8, x.toUInt8]

/-- Words of a block; what does not fill a word is dropped. -/
def words : List UInt8 → List UInt32
  | a :: b :: c :: d :: bs => word a b c d :: words bs
  | _ => []

/-! ## Padding -/

/-- The message, a one bit, zeros, and the length in bits in eight bytes. -/
def pad (bs : List UInt8) : List UInt8 :=
  bs ++ 0x80 :: List.replicate ((119 - bs.length % 64) % 64) 0 ++
    wordBytes (UInt32.ofNat (8 * bs.length / 2 ^ 32)) ++ wordBytes (UInt32.ofNat (8 * bs.length))

def blocks : Nat → List UInt8 → List (List UInt8)
  | 0, _ => []
  | n + 1, bs => bs.take 64 :: blocks n (bs.drop 64)

/-! ## Rounds -/

def roundConstants : List UInt32 :=
  [0x428a2f98, 0x71374491, 0xb5c0fbcf, 0xe9b5dba5, 0x3956c25b, 0x59f111f1, 0x923f82a4, 0xab1c5ed5,
   0xd807aa98, 0x12835b01, 0x243185be, 0x550c7dc3, 0x72be5d74, 0x80deb1fe, 0x9bdc06a7, 0xc19bf174,
   0xe49b69c1, 0xefbe4786, 0x0fc19dc6, 0x240ca1cc, 0x2de92c6f, 0x4a7484aa, 0x5cb0a9dc, 0x76f988da,
   0x983e5152, 0xa831c66d, 0xb00327c8, 0xbf597fc7, 0xc6e00bf3, 0xd5a79147, 0x06ca6351, 0x14292967,
   0x27b70a85, 0x2e1b2138, 0x4d2c6dfc, 0x53380d13, 0x650a7354, 0x766a0abb, 0x81c2c92e, 0x92722c85,
   0xa2bfe8a1, 0xa81a664b, 0xc24b8b70, 0xc76c51a3, 0xd192e819, 0xd6990624, 0xf40e3585, 0x106aa070,
   0x19a4c116, 0x1e376c08, 0x2748774c, 0x34b0bcb5, 0x391c0cb3, 0x4ed8aa4a, 0x5b9cca4f, 0x682e6ff3,
   0x748f82ee, 0x78a5636f, 0x84c87814, 0x8cc70208, 0x90befffa, 0xa4506ceb, 0xbef9a3f7, 0xc67178f2]

/-- The words of the rounds, the newest first: each is made of those 2, 7, 15 and 16 before it. -/
def extend (ws : List UInt32) : List UInt32 :=
  let w2 := ws.getD 1 0
  let w15 := ws.getD 14 0
  let s0 := rotr w15 7 ^^^ rotr w15 18 ^^^ w15 >>> 3
  let s1 := rotr w2 17 ^^^ rotr w2 19 ^^^ w2 >>> 10
  (ws.getD 15 0 + s0 + ws.getD 6 0 + s1) :: ws

def schedule (block : List UInt8) : List UInt32 :=
  ((List.range 48).foldl (fun ws _ => extend ws) (words block).reverse).reverse

structure Hash where
  a : UInt32
  b : UInt32
  c : UInt32
  d : UInt32
  e : UInt32
  f : UInt32
  g : UInt32
  h : UInt32

def Hash.initial : Hash :=
  ⟨0x6a09e667, 0xbb67ae85, 0x3c6ef372, 0xa54ff53a, 0x510e527f, 0x9b05688c, 0x1f83d9ab, 0x5be0cd19⟩

def round (x : Hash) (kw : UInt32 × UInt32) : Hash :=
  let s1 := rotr x.e 6 ^^^ rotr x.e 11 ^^^ rotr x.e 25
  let ch := (x.e &&& x.f) ^^^ (~~~ x.e &&& x.g)
  let t1 := x.h + s1 + ch + kw.1 + kw.2
  let s0 := rotr x.a 2 ^^^ rotr x.a 13 ^^^ rotr x.a 22
  let maj := (x.a &&& x.b) ^^^ (x.a &&& x.c) ^^^ (x.b &&& x.c)
  ⟨t1 + (s0 + maj), x.a, x.b, x.c, x.d + t1, x.e, x.f, x.g⟩

def Hash.add (x y : Hash) : Hash :=
  ⟨x.a + y.a, x.b + y.b, x.c + y.c, x.d + y.d, x.e + y.e, x.f + y.f, x.g + y.g, x.h + y.h⟩

def compress (x : Hash) (block : List UInt8) : Hash :=
  x.add ((roundConstants.zip (schedule block)).foldl round x)

/-- `md.digest(bs)`. -/
def digest (bs : List UInt8) : List UInt8 :=
  let x := (blocks ((pad bs).length / 64) (pad bs)).foldl compress Hash.initial
  [x.a, x.b, x.c, x.d, x.e, x.f, x.g, x.h].flatMap wordBytes

theorem length_digest (bs : List UInt8) : (digest bs).length = 32 := rfl

example : (digest [0x61, 0x62, 0x63]).take 4 = [0xba, 0x78, 0x16, 0xbf] := by decide +kernel

end Java.Sha256
