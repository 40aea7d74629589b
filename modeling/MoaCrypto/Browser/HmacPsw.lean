import MoaCrypto.Browser.Auth

/-!
# The encrypted hmac password of the browser (`moaBCWalletLib-v1.0.2.js`)

The functions work on hexadecimal texts and on the words of an array.  The first byte of the words is that of
the array (`head_wordToByteArray`), and folding the digits of an HMAC folds its bytes (`foldHmac_eq`).
-/

namespace MoaCrypto.Browser

open Java

/-- The crypto library with the key derivation and with AES in CBC mode. -/
structure PswLibrary extends Library, AuthLibrary

/-- The words of an array whose length is a multiple of four. -/
def words : List UInt8 → List (BitVec 32)
  | b0 :: b1 :: b2 :: b3 :: bytes =>
    (b0.toBitVec ++ b1.toBitVec ++ b2.toBitVec ++ b3.toBitVec) :: words bytes
  | _ => []

/-- `(word >> 8 * j) & 0xFF` for the four bytes of each word. -/
def wordToByteArray (wordArray : List (BitVec 32)) : List Nat :=
  wordArray.flatMap fun word => [3, 2, 1, 0].map fun j => (word.sshiftRight (8 * j) &&& 0xFF).toNat

/-- In hexadecimal. -/
def generateHmacPsw (c : CryptoJS) (psw : String) : String :=
  let hash := c.SHA256 (utf8 psw)
  let hmac := encodeHexString (c.HmacSHA256 (utf8 psw) hash)
  -- a missing first byte is not even
  if (wordToByteArray (words hash)).head?.any fun first => first % 2 = 0 then substr hmac (14 * 2) (14 * 2)
  else substr hmac 0 (14 * 2)

/-- `number.toString(16)`. -/
def toHexText (number : Nat) : String := String.ofList (Nat.toDigits 16 number)

def decimalToHexString (number : Int) : String :=
  let number := if number < 0 then 0xFF + number + 1 else number
  let text := "00" ++ toHexText number.toNat
  String.ofList (text.toList.drop (text.toList.length - 2))

/-- `parseInt(s, 16)`, up to the first character that is no digit. -/
def parseHexInt (s : String) : Nat :=
  (s.toList.takeWhile fun ch => (hexDigit ch).isSome).foldl (fun n ch => 16 * n + (hexDigit ch).getD 0) 0

/-- The loop of `getEncryptedHmacPsw` over the digits of an HMAC. -/
def foldHmac (hmacEncryptedHmac : String) : String :=
  let length := hmacEncryptedHmac.toList.length
  String.join ((List.range ((length / 2 + 1) / 2)).map fun i =>
    decimalToHexString (parseHexInt (substr hmacEncryptedHmac (2 * i) 2) ^^^
      parseHexInt (substr hmacEncryptedHmac (length / 2 + 2 * i) 2) : Nat))

/-- In hexadecimal; `random` is the byte before the password. -/
def getEncryptedHmacPsw (c : PswLibrary) (random : UInt8) (id psw dateOfBirth : String) : String :=
  let hmac := generateHmacPsw c.toCryptoJS psw
  let derivationKey := encodeHexString (c.PBKDF2 dateOfBirth (utf8 id) 10)
  let encryptedHmac := openSSLStringify c.toCryptoJS none
    (c.encryptCBC (c.parseHex (encodeHexString [random] ++ hmac)) (c.parseHex (substr derivationKey 0 (32 * 2)))
      (c.parseHex (substr derivationKey (32 * 2) (16 * 2))))
  let hmacEncryptedHmac := encodeHexString (c.HmacSHA256 (c.parseBase64 encryptedHmac) (utf8 dateOfBirth))
  encodeHexString (c.parseBase64 encryptedHmac) ++ foldHmac hmacEncryptedHmac

/-! ## Texts and words as bytes -/

theorem word_first (b0 b1 b2 b3 : UInt8) :
    ((b0.toBitVec ++ b1.toBitVec ++ b2.toBitVec ++ b3.toBitVec : BitVec 32).sshiftRight (8 * 3) &&& 0xFF).toNat =
      b0.toNat := by
  have hmask : ∀ i : Fin 32, (0xFF : BitVec 32)[i.val] = decide (i.val < 8) := by decide
  have h : ((b0.toBitVec ++ b1.toBitVec ++ b2.toBitVec ++ b3.toBitVec : BitVec 32).sshiftRight (8 * 3) &&& 0xFF) =
      b0.toBitVec.setWidth 32 := by
    ext i hi
    have hi32 : i < 32 := hi
    rw [BitVec.getElem_and, hmask ⟨i, hi⟩, BitVec.getElem_setWidth, BitVec.getElem_sshiftRight]
    by_cases hlt : i < 8
    · have h24 : 8 * 3 + i < 32 := by omega
      rw [dif_pos h24, BitVec.getElem_append, dif_neg (by omega), BitVec.getElem_append, dif_neg (by omega),
        BitVec.getElem_append, dif_neg (by omega), decide_eq_true hlt, Bool.and_true]
      simp only [show 8 * 3 + i - 8 - 8 - 8 = i by omega]
      exact (BitVec.getLsbD_eq_getElem hlt).symm
    · rw [decide_eq_false hlt, Bool.and_false, BitVec.getLsbD_of_ge _ _ (by omega)]
  rw [h]
  simp

theorem parseHexInt_byte (b : UInt8) : parseHexInt (encodeHexString [b]) = b.toNat := by
  have hb := b.toNat_lt
  have hhigh := hexDigit_digitChar ⟨b.toNat / 16, by omega⟩
  have hlow := hexDigit_digitChar ⟨b.toNat % 16, by omega⟩
  have hdigits : (encodeHexString [b]).toList = [Nat.digitChar (b.toNat / 16), Nat.digitChar (b.toNat % 16)] :=
    String.toList_ofList
  rw [parseHexInt, hdigits, List.takeWhile_cons_of_pos (by rw [hhigh]; rfl),
    List.takeWhile_cons_of_pos (by rw [hlow]; rfl), List.takeWhile_nil, List.foldl_cons, List.foldl_cons,
    List.foldl_nil, hhigh, hlow]
  show 16 * (16 * 0 + b.toNat / 16) + b.toNat % 16 = b.toNat
  omega

/-- The last two digits behind the zeros. -/
theorem decimalToHexString_toNat (b : UInt8) : decimalToHexString (b.toNat : Int) = encodeHexString [b] := by
  have hb := b.toNat_lt
  have hdigits : (encodeHexString [b]).toList = [Nat.digitChar (b.toNat / 16), Nat.digitChar (b.toNat % 16)] :=
    String.toList_ofList
  have htext : ("00" ++ toHexText b.toNat).toList = '0' :: '0' :: Nat.toDigits 16 b.toNat := by
    have hzeros : "00".toList = ['0', '0'] := rfl
    rw [String.toList_append, hzeros, toHexText, String.toList_ofList]
    rfl
  refine String.toList_inj.mp ?_
  rw [decimalToHexString, if_neg (by omega), Int.toNat_natCast, String.toList_ofList, htext, hdigits]
  by_cases hsmall : b.toNat < 16
  · rw [Nat.toDigits_of_lt_base hsmall, Nat.div_eq_of_lt hsmall, Nat.mod_eq_of_lt hsmall]
    rfl
  · rw [Nat.toDigits_of_base_le (by omega) (Nat.not_lt.mp hsmall), Nat.toDigits_of_lt_base (by omega)]
    rfl

/-- One byte of a text of digits. -/
theorem parseHexInt_substr {bytes : List UInt8} {i : Nat} (h : i < bytes.length) :
    parseHexInt (substr (encodeHexString bytes) (2 * i) 2) = bytes[i].toNat := by
  have hone : (bytes.drop i).take 1 = [bytes[i]] := by
    rw [List.drop_eq_getElem_cons h, List.take_succ_cons, List.take_zero]
  have hdigits := substr_encodeHexString bytes i 1
  rw [hone, Nat.one_mul, Nat.mul_comm] at hdigits
  rw [hdigits, parseHexInt_byte]

theorem join_encodeHexString (bytes : List UInt8) :
    String.join (bytes.map fun b => encodeHexString [b]) = encodeHexString bytes := by
  refine String.toList_inj.mp ?_
  rw [String.toList_join, List.flatMap_map]
  simp only [encodeHexString, String.toList_ofList, List.flatMap_singleton]

/-- One step of the loop. -/
theorem foldHmac_step {bytes : List UInt8} (h : bytes.length = 32) {i : Nat} (hi : i < 16) :
    decimalToHexString (parseHexInt (substr (encodeHexString bytes) (2 * i) 2) ^^^
      parseHexInt (substr (encodeHexString bytes) (32 + 2 * i) 2) : Nat) =
      encodeHexString [bytes[i] ^^^ bytes[16 + i]] := by
  have hsecond : 32 + 2 * i = 2 * (16 + i) := by omega
  rw [hsecond, parseHexInt_substr (show i < bytes.length by omega),
    parseHexInt_substr (show 16 + i < bytes.length by omega), ← UInt8.toNat_xor]
  exact decimalToHexString_toNat _

/-- Folding the digits folds the bytes. -/
theorem foldHmac_eq {bytes : List UInt8} (h : bytes.length = 32) :
    foldHmac (encodeHexString bytes) =
      encodeHexString (List.zipWith (· ^^^ ·) (bytes.take 16) (bytes.drop 16)) := by
  have hlength : (encodeHexString bytes).toList.length = 64 := by rw [length_encodeHexString, h]
  rw [foldHmac, hlength, ← join_encodeHexString (List.zipWith _ _ _)]
  refine congrArg String.join (List.ext_getElem ?_ fun i hi hi' => ?_)
  · rw [List.length_map, List.length_map, List.length_range, List.length_zipWith, List.length_take,
      List.length_drop, h]
    rfl
  · rw [List.length_map, List.length_range] at hi
    rw [List.getElem_map, List.getElem_range, List.getElem_map, List.getElem_zipWith, List.getElem_take,
      List.getElem_drop]
    exact foldHmac_step h hi

/-- The first byte of an array of whole words. -/
theorem head_wordToByteArray {bytes : List UInt8} (h : 4 ≤ bytes.length) :
    (wordToByteArray (words bytes)).head? = bytes.head?.map UInt8.toNat := by
  match bytes, h with
  | b0 :: b1 :: b2 :: b3 :: bytes, _ => exact congrArg some (word_first b0 b1 b2 b3)

end MoaCrypto.Browser
