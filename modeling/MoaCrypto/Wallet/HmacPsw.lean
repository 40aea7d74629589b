import MoaCrypto.Wallet.Provider

/-!
# The encrypted hmac password (`MoaWalletAPI.java`)

Fourteen bytes of an HMAC stand for the password.  They are encrypted under a key of the id and the birth
date, after a random byte, and the ciphertext is followed by its own HMAC, folded to half its length.
-/

namespace MoaCrypto.Wallet

open Java

/-- The provider with `cipherAlgforWPsw`, AES in CBC mode with padding. -/
structure PswProvider extends Provider where
  encryptWPsw : (ivBytes keyBytes data : List UInt8) → List UInt8
  decryptWPsw : (ivBytes keyBytes data : List UInt8) → List UInt8

def iterationCountforDBK : Int := 10

def hmacWPswExtractSize : Nat := 14

def randSize : Nat := 1

section Engines

variable (p : PswProvider)

def BCWalletHmacWPswGenCoreEngine (wPswStr : String) : Option (List UInt8) := do
  let hashWPswBytes := p.HashDigest (utf8 wPswStr)
  let hmacWPswBytes := p.HmacDigest (utf8 wPswStr) hashWPswBytes
  let first ← hashWPswBytes.head?
  if (signedByte first).tmod 2 = 0 then arraycopy hmacWPswBytes hmacWPswExtractSize hmacWPswExtractSize
  else arraycopy hmacWPswBytes 0 hmacWPswExtractSize

/-- `rand` is the byte before the password. -/
def BCWalletEncryptWPswGenCoreEngine (rand : UInt8) (idStr wPswStr dateOfBirthStr : String) :
    Option String := do
  let (dbkBytes, dbkIVBytes) := p.derivedKey dateOfBirthStr (utf8 idStr) iterationCountforDBK
  let hashMoapayPswBytes := p.HashDigest (utf8 wPswStr)
  let hmacBCWPsw14Bytes ← BCWalletHmacWPswGenCoreEngine p wPswStr
  let encryptRandAndHMACwPsw14Bytes := p.encryptWPsw dbkIVBytes dbkBytes (rand :: hmacBCWPsw14Bytes)
  let hmac16Bytes ← xorSixteen (p.HmacDigest encryptRandAndHMACwPsw14Bytes (utf8 dateOfBirthStr))
  some (p.toBase64String hashMoapayPswBytes ++ "$" ++ p.toBase64String hmacBCWPsw14Bytes ++ "$" ++
    p.toBase64String (encryptRandAndHMACwPsw14Bytes ++ hmac16Bytes))

def BCWalletWPswVerifyAndDecryptCoreEngine (idStr dateOfBirthStr encryptHmacWPswAndMACB64str : String) :
    Option String := do
  let existBytes ← p.decodeBase64 encryptHmacWPswAndMACB64str
  let existEncHmacWPswBytes := existBytes.take (existBytes.length / 2)
  let existHmac16Bytes := (existBytes.drop (existBytes.length / 2)).take (existBytes.length / 2)
  let newHmac16Bytes ← xorSixteen (p.HmacDigest existEncHmacWPswBytes (utf8 dateOfBirthStr))
  if existHmac16Bytes ≠ newHmac16Bytes then some ("0x5114" ++ "$" ++ "null")
  else do
    let (dbkBytes, dbkIVBytes) := p.derivedKey dateOfBirthStr (utf8 idStr) iterationCountforDBK
    let decRandAndHashPswBytes := p.decryptWPsw dbkIVBytes dbkBytes existEncHmacWPswBytes
    let hmacwPsw14Bytes ← arraycopy decRandAndHashPswBytes randSize hmacWPswExtractSize
    some ("0x5113" ++ "$" ++ p.toBase64String hmacwPsw14Bytes)

end Engines

end MoaCrypto.Wallet
