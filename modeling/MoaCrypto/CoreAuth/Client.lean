import MoaCrypto.Java.Tokenizer

/-!
# The core-auth client (`MoaClientCoreAuthLib.java`)

Messages are texts of `$`-separated fields behind a header.  The digests, the cipher
and the Base64 codec are those of the crypto provider; `Crypto` collects what the
code uses of them, for the algorithms that the properties file names.  A client login
request carries the id, the hash of the encrypted password, its HMAC with the id, and
the nonce of the server.
-/

namespace MoaCrypto.CoreAuth

open Java

/-- The provider's algorithms, and the texts that bytes decode to.  A digest is long enough for
the sixteen bytes of a key. -/
structure Crypto where
  HashDigest : List UInt8 → List UInt8
  HmacDigest : (dataBytes hmacKeyBytes : List UInt8) → List UInt8
  strongHmacDigest : (dataBytes hmacKeyBytes : List UInt8) → List UInt8
  SymmetricEncryptData : (keyBytes data : List UInt8) → List UInt8
  toBase64String : List UInt8 → String
  decode : String → Option (List UInt8)
  newString : List UInt8 → String
  newStringUTF8 : List UInt8 → String
  length_HashDigest : ∀ x, 16 ≤ (HashDigest x).length

/-- What the texts of the provider give back, and no `$` in Base64. -/
structure Codec (cr : Crypto) : Prop where
  decode : ∀ bytes, cr.decode (cr.toBase64String bytes) = some bytes
  base64 : ∀ bytes, '$' ∉ (cr.toBase64String bytes).toList
  base64_ne : ∀ bytes, bytes ≠ [] → cr.toBase64String bytes ≠ ""
  newString : ∀ s, cr.newString (utf8 s) = s
  newStringUTF8 : ∀ s, cr.newStringUTF8 (utf8 s) = s

/-! ## Headers -/

def moaCORE_IDExist_STR : String := "4D4F410001"
def moaCORE_IDExistAck_STR : String := "4D4F410002"
def moaCORE_IdPswRegReq_STR : String := "4D4F410003"
def moaCORE_IdPswRegRes_STR : String := "4D4F410004"
def moaMANAGER_IdPswRegReq_STR : String := "4D4F410013"
def moaMANAGER_IdPswRegRes_STR : String := "4D4F410014"
def moaCORE_IdPswLogInStartReq_STR : String := "4D4F412001"
def moaCORE_IdPswLogInSTartRes_STR : String := "4D4F412002"
def moaCORE_IdPswLogInReq_STR : String := "4D4F412003"
def moaCORE_IdPswLogInRes_STR : String := "4D4F412004"
def moaMANAGER_IdPswLogInReq_STR : String := "4D4F412013"
def moaMANAGER_IdPswLogInRes_STR : String := "4D4F412014"
def moaCORE_ChangePswReq_STR : String := "4D4F413001"
def moaCORE_ChangePswRes_STR : String := "4D4F413002"
def moaCORE_UnRegistReq_STR : String := "4D4F413007"
def moaCORE_UnRegistRes_STR : String := "4D4F413008"

/-- `toUpperCase()`; only ASCII letters matter to a comparison with a header. -/
def toUpperCase (s : String) : String := String.ofList (s.toList.map Char.toUpper)

theorem tokens_join (s t : String) : tokens '$' (s ++ "$" ++ t) = tokens '$' s ++ tokens '$' t :=
  tokens_append '$' s t

/-! ## Parser -/

/-- `coreAuthClientMsgPacketParser`: `none` where a token is missing, `some none` (the reference
`null`) for an unknown header. -/
def coreAuthClientMsgPacketParser (receiveManagerAuthMsgStr : String) : Option (Option String) :=
  match tokens '$' receiveManagerAuthMsgStr with
  | [] => none
  | msgHeaderIDStr :: fields =>
    let header := toUpperCase msgHeaderIDStr
    if header = moaCORE_IDExistAck_STR ∨ header = moaCORE_IdPswRegRes_STR ∨
        header = moaMANAGER_IdPswRegRes_STR ∨ header = moaCORE_IdPswLogInSTartRes_STR ∨
        header = moaCORE_UnRegistRes_STR then
      match fields with
      | result :: _ => some (some result)
      | _ => none
    else if header = moaCORE_IdPswLogInRes_STR ∨ header = moaCORE_ChangePswRes_STR then
      match fields with
      | first :: second :: _ => some (some (first ++ "$" ++ second))
      | _ => none
    else if header = moaMANAGER_IdPswLogInRes_STR then
      match fields with
      | first :: second :: third :: _ => some (some (first ++ "$" ++ second ++ "$" ++ third))
      | _ => none
    else some none

/-! ## Messages -/

/-- `Hash(AES(Key, Password))`, the key being the first sixteen bytes of the hash of the id. -/
def hashPswBytes (cr : Crypto) (idStr passwordStr : String) : List UInt8 :=
  let keyBytes := (cr.HashDigest (utf8 idStr)).take 16
  cr.HashDigest (cr.SymmetricEncryptData keyBytes (utf8 passwordStr))

/-- `Hmac(ID, Hash(Password))`. -/
def hmacPswBytes (cr : Crypto) (idStr passwordStr : String) : List UInt8 :=
  cr.HmacDigest (utf8 idStr) (hashPswBytes cr idStr passwordStr)

def coreIdExistRegistRequestMsgGenProcess (cr : Crypto) (idStr : String) : String :=
  moaCORE_IDExist_STR ++ "$" ++ cr.toBase64String (utf8 idStr)

/-- The request of a franchise, or with a level that of a manager. -/
def coreIdPswRegistRequestMsgGenProcess (cr : Crypto) (managerLevelStr : Option String)
    (idStr passwordStr : String) : String :=
  let fields := cr.toBase64String (utf8 idStr) ++ "$" ++
    cr.toBase64String (hashPswBytes cr idStr passwordStr) ++ "$" ++
    cr.toBase64String (hmacPswBytes cr idStr passwordStr)
  match managerLevelStr with
  | none => moaCORE_IdPswRegReq_STR ++ "$" ++ fields
  | some level => moaMANAGER_IdPswRegReq_STR ++ "$" ++ level ++ "$" ++ fields

def coreIdPswLogInStartRequestMsgGenProcess : String := moaCORE_IdPswLogInStartReq_STR

def coreIdPswLogInRequestMsgGenProcess (cr : Crypto) (idStr passwordStr nonceBase64Str : String)
    (trueFlasFlag : Bool) : String :=
  (if trueFlasFlag then moaMANAGER_IdPswLogInReq_STR else moaCORE_IdPswLogInReq_STR) ++ "$" ++
    cr.toBase64String (utf8 idStr) ++ "$" ++
    cr.toBase64String (hashPswBytes cr idStr passwordStr) ++ "$" ++
    cr.toBase64String (hmacPswBytes cr idStr passwordStr) ++ "$" ++ nonceBase64Str

def coreIdPswHashPswAndHamcPswGen (cr : Crypto) (idStr existOrNewPswStr : String) : String :=
  cr.toBase64String (hashPswBytes cr idStr existOrNewPswStr) ++ "$" ++
    cr.toBase64String (hmacPswBytes cr idStr existOrNewPswStr)

def coreIdPswChangePswRequestMsgGenProcess (cr : Crypto) (idStr existPswStr newPswStr : String) :
    String :=
  moaCORE_ChangePswReq_STR ++ "$" ++ cr.toBase64String (utf8 idStr) ++ "$" ++
    coreIdPswHashPswAndHamcPswGen cr idStr existPswStr ++ "$" ++
    coreIdPswHashPswAndHamcPswGen cr idStr newPswStr

def coreIdPswUnRegistRequestMsgGenProcess (cr : Crypto) (idStr : String) : String :=
  moaCORE_UnRegistReq_STR ++ "$" ++ cr.toBase64String (utf8 idStr)

end MoaCrypto.CoreAuth
