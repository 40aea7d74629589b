import MoaCrypto.Wallet.Base58

/-!
# Compressed public keys (`BlockchainECDSACoreAPI.java`)

`compressPubKey` takes the coordinates of a point out of the hexadecimal text of one number.  The
text of a number has no zeros in front, and they are put back where up to three of them are missing;
with more of them missing the text is too short to be cut.  So it is right just for the points whose
`X` has a digit other than zero among its first four (`create_compressed_iff`).
-/

namespace MoaCrypto.BlockchainECDSACoreAPI

open Java Radix
open Wallet (bigInteger)

/-- `s.substring(beginIndex, endIndex)`. -/
def substring (s : List Char) (beginIndex endIndex : Nat) : Option (List Char) :=
  if endIndex ≤ s.length then some ((s.drop beginIndex).take (endIndex - beginIndex)) else none

def compressPubKey (pubKey : Nat) : Option String :=
  let pubKeyYPrefix := if pubKey.testBit 0 then ['0', '3'] else ['0', '2']
  let pubKeyHex := Nat.toDigits 16 pubKey
  let pubKeyHex :=
    if pubKeyHex.length = 125 then ['0', '0', '0'] ++ pubKeyHex
    else if pubKeyHex.length = 126 then ['0', '0'] ++ pubKeyHex
    else if pubKeyHex.length = 127 then ['0'] ++ pubKeyHex
    else pubKeyHex
  (substring pubKeyHex 0 64).bind fun pubKeyX =>
    (substring pubKeyHex 64 128).map fun _ => String.ofList (pubKeyYPrefix ++ pubKeyX)

structure Point where
  x : Nat
  y : Nat

/-- `java.security.KeyPair` of an elliptic curve: `getD()` and `getQ()`. -/
structure KeyPair where
  d : Nat
  q : Point

structure ECKeyPair where
  privateKey : Nat
  publicKey : Nat
deriving DecidableEq

/-- `create`, where `getEncoded` is what a point gives for `getEncoded(false)`; `none` where it
throws. -/
def create (getEncoded : Point → List UInt8) (keyPair : KeyPair) (compressPublicKey : Bool) :
    Option ECKeyPair :=
  let publicKeyBytes := getEncoded keyPair.q
  if compressPublicKey then
    (compressPubKey (bigInteger (publicKeyBytes.drop 1))).bind fun compressPubKeyStr =>
      (decodeHex compressPubKeyStr).map fun compressPubKeyBytes =>
        ⟨keyPair.d, bigInteger compressPubKeyBytes⟩
  else some ⟨keyPair.d, bigInteger publicKeyBytes⟩

/-! ## Digits -/

/-- A number in `w` bytes. -/
def bytes (w n : Nat) : List UInt8 := (fixedRadix 256 w n).map UInt8.ofNat

/-- The hexadecimal form of a number with `w` digits. -/
def hexForm (w n : Nat) : List Char := (fixedRadix 16 w n).map Nat.digitChar

/-- What `getEncoded(false)` is documented to give for coordinates of 32 bytes. -/
def Uncompressed (getEncoded : Point → List UInt8) : Prop :=
  ∀ q : Point, q.x < 2 ^ 256 → q.y < 2 ^ 256 → getEncoded q = 4 :: (bytes 32 q.x ++ bytes 32 q.y)

theorem hexForm_succ (w n : Nat) : hexForm (w + 1) n = hexForm w (n / 16) ++ [Nat.digitChar (n % 16)] := by
  rw [hexForm, fixedRadix, List.map_append, ← hexForm, List.map_singleton]

@[simp]
theorem length_hexForm (w n : Nat) : (hexForm w n).length = w := by
  rw [hexForm, List.length_map, length_fixedRadix]

theorem hexForm_zero (w : Nat) : hexForm w 0 = List.replicate w '0' := by
  induction w with
  | zero => rfl
  | succ w ih => rw [hexForm_succ, Nat.zero_div, ih, List.replicate_succ']; rfl

/-- The text of a number is its digits without the zeros in front. -/
theorem zeros_append_toDigits {w n : Nat} (hw : 0 < w) (h : n < 16 ^ w) :
    List.replicate (w - (Nat.toDigits 16 n).length) '0' ++ Nat.toDigits 16 n = hexForm w n := by
  induction w generalizing n with
  | zero => cases hw
  | succ w ih =>
    by_cases hn : n < 16
    · rw [Nat.toDigits_of_lt_base hn, List.length_singleton, Nat.add_sub_cancel, hexForm_succ,
        Nat.div_eq_of_lt hn, Nat.mod_eq_of_lt hn, hexForm_zero]
    · have hdiv : n / 16 < 16 ^ w := Nat.div_lt_of_lt_mul (by rwa [Nat.pow_succ, Nat.mul_comm] at h)
      have hpos : 0 < w := by
        rcases Nat.eq_zero_or_pos w with rfl | hpos
        · omega
        · exact hpos
      rw [Nat.toDigits_of_base_le (by decide) (by omega), List.length_append, List.length_singleton,
        Nat.add_sub_add_right, ← List.append_assoc, ih hpos hdiv, hexForm_succ]

/-- The text of a key has as many digits as it takes. -/
theorem length_toDigits_le_iff (k n : Nat) (hk : 0 < k) : (Nat.toDigits 16 n).length ≤ k ↔ n < 16 ^ k :=
  Nat.length_toDigits_le_iff (by decide) hk

theorem hexForm_append (w v x : Nat) {y : Nat} (hy : y < 16 ^ v) :
    hexForm (w + v) (x * 16 ^ v + y) = hexForm w x ++ hexForm v y := by
  rw [hexForm, fixedRadix_append (by decide) w v x hy, List.map_append]
  rfl

theorem hexForm_bytes (w n : Nat) : hexForm (2 * w) n = (bytes w n).flatMap hexByte := by
  have hbyte (d : Nat) (hd : d ∈ fixedRadix 256 w n) :
      [d / 16, d % 16].map Nat.digitChar = hexByte (UInt8.ofNat d) := by
    rw [hexByte, UInt8.toNat_ofNat_of_lt' (lt_of_mem_fixedRadix (by decide) hd)]
    rfl
  rw [hexForm, fixedRadix_square, List.map_flatMap, bytes, List.flatMap_map]
  exact List.flatMap_congr hbyte

theorem bigInteger_bytes {w n : Nat} (h : n < 256 ^ w) : bigInteger (bytes w n) = n := by
  have hmap : (bytes w n).map UInt8.toNat = fixedRadix 256 w n := by
    rw [bytes, List.map_map]
    refine (List.map_congr_left fun d hd => ?_).trans (List.map_id _)
    exact UInt8.toNat_ofNat_of_lt' (lt_of_mem_fixedRadix (by decide) hd)
  rw [bigInteger, hmap, ofRadix_fixedRadix 256 w n h]

theorem bytes_append (w v x : Nat) {y : Nat} (hy : y < 256 ^ v) :
    bytes (w + v) (x * 256 ^ v + y) = bytes w x ++ bytes v y := by
  rw [bytes, fixedRadix_append (by decide) w v x hy, List.map_append]
  rfl

/-! ## Compression -/

/-- The text of the sign byte, by the parity of `y`. -/
def yPrefix (y : Nat) : List Char := if y % 2 = 1 then ['0', '3'] else ['0', '2']

def yByte (y : Nat) : UInt8 := if y % 2 = 1 then 3 else 2

/-- The text with the zeros that `compressPubKey` puts back. -/
def padded (pubKeyHex : List Char) : List Char :=
  if pubKeyHex.length = 125 then ['0', '0', '0'] ++ pubKeyHex
  else if pubKeyHex.length = 126 then ['0', '0'] ++ pubKeyHex
  else if pubKeyHex.length = 127 then ['0'] ++ pubKeyHex
  else pubKeyHex

theorem compressPubKey_eq {x y : Nat} :
    compressPubKey (x * 2 ^ 256 + y) =
      (substring (padded (Nat.toDigits 16 (x * 2 ^ 256 + y))) 0 64).bind fun pubKeyX =>
        (substring (padded (Nat.toDigits 16 (x * 2 ^ 256 + y))) 64 128).map fun _ =>
          String.ofList (yPrefix y ++ pubKeyX) := by
  have hbit : (x * 2 ^ 256 + y).testBit 0 = decide (y % 2 = 1) := by
    rw [Nat.testBit_zero]
    congr 1
    apply propext
    omega
  unfold compressPubKey yPrefix
  simp only [hbit, decide_eq_true_eq]
  rfl

/-- With no more than three digits missing the text is made whole. -/
theorem padded_of_le {n : Nat} (hlt : n < 16 ^ 128) (hle : 16 ^ 124 ≤ n) :
    padded (Nat.toDigits 16 n) = hexForm 128 n := by
  have hmax : (Nat.toDigits 16 n).length ≤ 128 := (length_toDigits_le_iff 128 n (by decide)).2 hlt
  have hmin : ¬ (Nat.toDigits 16 n).length ≤ 124 := by
    rw [length_toDigits_le_iff 124 n (by decide)]
    exact Nat.not_lt.2 hle
  rw [← zeros_append_toDigits (by decide : 0 < 128) hlt]
  unfold padded
  rcases (by omega : (Nat.toDigits 16 n).length = 125 ∨ (Nat.toDigits 16 n).length = 126 ∨
      (Nat.toDigits 16 n).length = 127 ∨ (Nat.toDigits 16 n).length = 128) with h | h | h | h
  · rw [if_pos h, h]
    rfl
  · rw [if_neg (by omega), if_pos h, h]
    rfl
  · rw [if_neg (by omega), if_neg (by omega), if_pos h, h]
    rfl
  · rw [if_neg (by omega), if_neg (by omega), if_neg (by omega), h]
    rfl

/-- With more of them missing nothing is put back. -/
theorem length_padded_of_lt {n : Nat} (hlt : n < 16 ^ 124) : (padded (Nat.toDigits 16 n)).length ≤ 124 := by
  have hmax : (Nat.toDigits 16 n).length ≤ 124 := (length_toDigits_le_iff 124 n (by decide)).2 hlt
  unfold padded
  rw [if_neg (by omega), if_neg (by omega), if_neg (by omega)]
  exact hmax

theorem key_lt {x y : Nat} (hx : x < 2 ^ 256) (hy : y < 2 ^ 256) : x * 2 ^ 256 + y < 16 ^ 128 := by
  have hpow : (16 : Nat) ^ 128 = 2 ^ 256 * 2 ^ 256 := by rfl
  rw [hpow]
  omega

theorem le_key_iff {x y : Nat} (hy : y < 2 ^ 256) : 16 ^ 124 ≤ x * 2 ^ 256 + y ↔ 2 ^ 240 ≤ x := by
  have hpow : (16 : Nat) ^ 124 = 2 ^ 240 * 2 ^ 256 := by rfl
  rw [hpow]
  omega

theorem compressPubKey_of_le {x y : Nat} (hx : x < 2 ^ 256) (hy : y < 2 ^ 256) (hlarge : 2 ^ 240 ≤ x) :
    compressPubKey (x * 2 ^ 256 + y) = some (String.ofList (yPrefix y ++ hexForm 64 x)) := by
  have hform : hexForm 128 (x * 2 ^ 256 + y) = hexForm 64 x ++ hexForm 64 y := hexForm_append 64 64 x hy
  rw [compressPubKey_eq, padded_of_le (key_lt hx hy) ((le_key_iff hy).2 hlarge), hform]
  unfold substring
  simp [List.take_left']

theorem compressPubKey_of_lt {x y : Nat} (hy : y < 2 ^ 256) (hsmall : x < 2 ^ 240) :
    compressPubKey (x * 2 ^ 256 + y) = none := by
  have hshort := length_padded_of_lt (Nat.lt_of_not_le fun h => Nat.not_le.2 hsmall ((le_key_iff hy).1 h))
  have hnone : substring (padded (Nat.toDigits 16 (x * 2 ^ 256 + y))) 64 128 = none := if_neg (by omega)
  rw [compressPubKey_eq, hnone]
  simp

/-! ## Keys -/

/-- The compressed key of a point. -/
def compressed (q : Point) : Nat := bigInteger (yByte q.y :: bytes 32 q.x)

theorem compressed_eq {q : Point} (hx : q.x < 2 ^ 256) : compressed q = (yByte q.y).toNat * 2 ^ 256 + q.x := by
  have hbyte : (yByte q.y).toNat < 256 := (yByte q.y).toNat_lt
  have hpow : (256 : Nat) ^ 32 = 2 ^ 256 := by rfl
  have hpow33 : (256 : Nat) ^ 33 = 256 * 2 ^ 256 := by rfl
  have hone : bytes 1 (yByte q.y).toNat = [yByte q.y] := by
    show [UInt8.ofNat ((yByte q.y).toNat % 256)] = _
    rw [Nat.mod_eq_of_lt hbyte, UInt8.ofNat_toNat]
  have hsign : yByte q.y :: bytes 32 q.x = bytes (1 + 32) ((yByte q.y).toNat * 256 ^ 32 + q.x) := by
    rw [bytes_append 1 32 _ (by rw [hpow]; exact hx), hone, List.singleton_append]
  rw [compressed, hsign, bigInteger_bytes, hpow]
  rw [hpow, hpow33]
  omega

/-- The sign and `X` can be told from a compressed key. -/
theorem compressed_injective {q q' : Point} (hx : q.x < 2 ^ 256) (hx' : q'.x < 2 ^ 256)
    (h : compressed q = compressed q') : q.x = q'.x ∧ q.y % 2 = q'.y % 2 := by
  rw [compressed_eq hx, compressed_eq hx'] at h
  have hbyte (y : Nat) : (yByte y).toNat = 2 + y % 2 := by
    unfold yByte
    rcases Nat.mod_two_eq_zero_or_one y with h | h
    · rw [if_neg (by omega), h]
      rfl
    · rw [if_pos h, h]
      rfl
  rw [hbyte, hbyte] at h
  omega

section
variable {getEncoded : Point → List UInt8} (henc : Uncompressed getEncoded)
include henc

theorem create_eq {q : Point} (hx : q.x < 2 ^ 256) (hy : q.y < 2 ^ 256) (d : Nat) :
    create getEncoded ⟨d, q⟩ true =
      (compressPubKey (q.x * 2 ^ 256 + q.y)).bind fun text =>
        (decodeHex text).map fun bs => ⟨d, bigInteger bs⟩ := by
  have hbytes : bytes 32 q.x ++ bytes 32 q.y = bytes 64 (q.x * 2 ^ 256 + q.y) := (bytes_append 32 32 q.x hy).symm
  have hvalue : bigInteger ((getEncoded q).drop 1) = q.x * 2 ^ 256 + q.y := by
    rw [henc q hx hy, List.drop_succ_cons, List.drop_zero, hbytes]
    refine bigInteger_bytes ?_
    rw [show (256 : Nat) ^ 64 = 16 ^ 128 by rw [show 256 = 16 ^ 2 by rfl, ← Nat.pow_mul]]
    exact key_lt hx hy
  rw [create, hvalue]
  rfl

theorem create_of_le {q : Point} (hx : q.x < 2 ^ 256) (hy : q.y < 2 ^ 256) (hlarge : 2 ^ 240 ≤ q.x) (d : Nat) :
    create getEncoded ⟨d, q⟩ true = some ⟨d, compressed q⟩ := by
  have htext : String.ofList (yPrefix q.y ++ hexForm 64 q.x) = encodeHexString (yByte q.y :: bytes 32 q.x) := by
    have hsign : yPrefix q.y = hexByte (yByte q.y) := by
      unfold yPrefix yByte
      split <;> rfl
    rw [encodeHexString, List.flatMap_cons, hsign, ← hexForm_bytes]
  rw [create_eq henc hx hy, compressPubKey_of_le hx hy hlarge, Option.bind_some, htext, decodeHex_encodeHexString]
  rfl

theorem create_of_lt {q : Point} (hy : q.y < 2 ^ 256) (hsmall : q.x < 2 ^ 240) (d : Nat) :
    create getEncoded ⟨d, q⟩ true = none := by
  rw [create_eq henc (by omega) hy, compressPubKey_of_lt hy hsmall]
  rfl

/-- A key is compressed to the sign of `Y` and the digits of `X`, from which both can be told, just
where `X` has no more than three zeros in front. -/
theorem create_compressed_iff {q : Point} (hx : q.x < 2 ^ 256) (hy : q.y < 2 ^ 256) :
    (compressPubKey (q.x * 2 ^ 256 + q.y) = some (String.ofList (yPrefix q.y ++ hexForm 64 q.x)) ∧
        (∀ d, create getEncoded ⟨d, q⟩ true = some ⟨d, compressed q⟩) ∧
        ∀ q' : Point, q'.x < 2 ^ 256 → q'.y < 2 ^ 256 → q'.x ≠ q.x ∨ q'.y % 2 ≠ q.y % 2 →
          ∀ d d', (create getEncoded ⟨d', q'⟩ true).map ECKeyPair.publicKey ≠
            (create getEncoded ⟨d, q⟩ true).map ECKeyPair.publicKey) ↔
      2 ^ 240 ≤ q.x := by
  constructor
  · rintro ⟨htext, -, -⟩
    by_contra hsmall
    rw [compressPubKey_of_lt hy (Nat.lt_of_not_le hsmall)] at htext
    cases htext
  · intro hlarge
    refine ⟨compressPubKey_of_le hx hy hlarge, create_of_le henc hx hy hlarge, fun q' hx' hy' hne d d' heq => ?_⟩
    rw [create_of_le henc hx hy hlarge, Option.map_some] at heq
    by_cases hlarge' : 2 ^ 240 ≤ q'.x
    · rw [create_of_le henc hx' hy' hlarge', Option.map_some] at heq
      have hkey : compressed q' = compressed q := by simpa only [Option.some.injEq] using heq
      obtain ⟨hsame, hparity⟩ := compressed_injective hx' hx hkey
      rcases hne with hne | hne
      · exact hne hsame
      · exact hne hparity
    · rw [create_of_lt henc hy' (Nat.lt_of_not_le hlarge'), Option.map_none] at heq
      cases heq

end

/-- The base point of secp256k1. -/
def basePoint : Point where
  x := 0x79BE667EF9DCBBAC55A06295CE870B07029BFCDB2DCE28D959F2815B16F81798
  y := 0x483ADA7726A3C4655DA4FBFC0E1108A8FD17B448A68554199C47D08FFB10D4B8

theorem create_compressed_iff_base :
    create (fun q => 4 :: (bytes 32 q.x ++ bytes 32 q.y)) ⟨1, basePoint⟩ true = some ⟨1, compressed basePoint⟩ :=
  ((create_compressed_iff (fun _ _ _ => rfl) (by decide) (by decide)).2 (by decide)).2.1 1

/-- The point of secp256k1 with `X = 1`. -/
def pointOne : Point where
  x := 1
  y := 0x4218F20AE6C646B363DB68605822FB14264CA8D2587FDD6FBC750D587E76A7EE

theorem compressPubKey_pointOne : compressPubKey (pointOne.x * 2 ^ 256 + pointOne.y) = none :=
  compressPubKey_of_lt (by decide) (by decide)

end MoaCrypto.BlockchainECDSACoreAPI
