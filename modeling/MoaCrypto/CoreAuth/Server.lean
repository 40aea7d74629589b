import MoaCrypto.CoreAuth.Client

/-!
# The core-auth server (`MoaServerCoreAuthLib.java`)

The parser answers `none` where it throws and `some none` where it returns `null`.
`randomBytes` are the next bytes of the secure generator.
-/

namespace MoaCrypto.CoreAuth

open Java

variable (cr : Crypto)

/-! ## What is stored -/

/-- `dg.HmacDigest(strongHmacAlg, ..)`; a key has at least one byte. -/
def strongHmac (dataBytes hmacKeyBytes : List UInt8) : Option (List UInt8) :=
  if hmacKeyBytes = [] then none else some (cr.strongHmacDigest dataBytes hmacKeyBytes)

/-- An even salt signs the hash under the HMAC, an odd salt the HMAC under the hash. -/
def authInfoGen (saltBase64Str hashPswBase64Str hmacPswBase64Str : String) : Option String := do
  let saltBytes ← cr.decode saltBase64Str
  let hashPswBytes ← cr.decode hashPswBase64Str
  let hmacPswBytes ← cr.decode hmacPswBase64Str
  let first ← saltBytes.head?
  let digest ← if first.toNat % 2 = 0 then strongHmac cr (saltBytes ++ hashPswBytes) hmacPswBytes
    else strongHmac cr (saltBytes ++ hmacPswBytes) hashPswBytes
  some (cr.toBase64String digest)

def coreIdPswRegistAuthInfoGen (genSaltBase64Str hashDigestBase64Str hmacDigestBase64Str : String) :
    Option String :=
  authInfoGen cr genSaltBase64Str hashDigestBase64Str hmacDigestBase64Str

def coreIdPswLogInAuthInfoGen (storagedSaltBase64Str hashPswBase64Str hmacPswBase64Str : String) :
    Option String :=
  authInfoGen cr storagedSaltBase64Str hashPswBase64Str hmacPswBase64Str

/-! ## Parser -/

/-- The two login cases: the nonce is compared, the other fields are passed on. -/
def parseLogIn (fields : List String) (serverNonceBase64Str : Option String) :
    Option (Option String) :=
  match fields with
  | id :: hashPsw :: hmacPsw :: nonce :: _ =>
    if some nonce ≠ serverNonceBase64Str then
      some (some ("0x6031" ++ "$" ++ "0000" ++ "$" ++ "0000" ++ "$" ++ "0000"))
    else some (some ("0x6030" ++ "$" ++ id ++ "$" ++ hashPsw ++ "$" ++ hmacPsw))
  | _ => none

/-- The two registration cases, from the id on: salt and stored value are appended. -/
def parseRegist (randomBytes : List UInt8) (fields : List String) : Option String :=
  match fields with
  | id :: hashPsw :: hmacPsw :: _ =>
    let salt := cr.toBase64String randomBytes
    (coreIdPswRegistAuthInfoGen cr salt hashPsw hmacPsw).map fun cipheredPsw =>
      id ++ "$" ++ salt ++ "$" ++ cipheredPsw
  | _ => none

/-- The cases that decode an id. -/
def parseId (fields : List String) : Option (Option String) :=
  match fields with
  | id :: _ => (cr.decode id).map fun idBytes => some (cr.newStringUTF8 idBytes)
  | _ => none

def coreAuthServerMsgPacketParser (randomBytes : List UInt8) (receiveAuthMsgStr : String)
    (serverNonceBase64Str : Option String) : Option (Option String) :=
  match tokens '$' receiveAuthMsgStr with
  | [] => none
  | msgHeaderIDStr :: fields =>
    let header := toUpperCase msgHeaderIDStr
    if header = moaCORE_IDExist_STR then parseId cr fields
    else if header = moaCORE_IdPswRegReq_STR then
      (parseRegist cr randomBytes fields).map some
    else if header = moaMANAGER_IdPswRegReq_STR then
      match fields with
      | level :: fields => (parseRegist cr randomBytes fields).map fun info =>
          some (level ++ "$" ++ info)
      | _ => none
    else if header = moaCORE_IdPswLogInStartReq_STR then
      some (some (cr.toBase64String randomBytes))
    else if header = moaCORE_IdPswLogInReq_STR then parseLogIn fields serverNonceBase64Str
    else if header = moaMANAGER_IdPswLogInReq_STR then parseLogIn fields serverNonceBase64Str
    else if header = moaCORE_ChangePswReq_STR then
      match fields with
      | id :: hashPsw :: hmacPsw :: newHashPsw :: newHmacPsw :: _ =>
        some (some (id ++ "$" ++ hashPsw ++ "$" ++ hmacPsw ++ "$" ++ newHashPsw ++ "$" ++
          newHmacPsw))
      | _ => none
    else if header = moaCORE_UnRegistReq_STR then parseId cr fields
    else some none

/-! ## Messages -/

def coreIdExistAckMsgGenProcess (idExgistInfo : String) : String :=
  moaCORE_IDExistAck_STR ++ "$" ++ idExgistInfo

def coreIdPswRegistResponseMsgGenProcess (idPswRegistSFInfo : String) (fmFlag : Bool) : String :=
  (if fmFlag then moaMANAGER_IdPswRegRes_STR else moaCORE_IdPswRegRes_STR) ++ "$" ++ idPswRegistSFInfo

def coreIdPswLoginStartResponseMsgGenProcess (nonceBase64Str : String) : String :=
  moaCORE_IdPswLogInSTartRes_STR ++ "$" ++ nonceBase64Str

/-- The response to a franchise, or with a level to a manager. -/
def coreIdPswLogInResponseMsgGenProcess (nonceVerifySFStr managerFranchiseAuthSFStr : String)
    (managerLevelStr : Option String) : String :=
  match managerLevelStr with
  | none => moaCORE_IdPswLogInRes_STR ++ "$" ++ nonceVerifySFStr ++ "$" ++ managerFranchiseAuthSFStr
  | some level => moaMANAGER_IdPswLogInRes_STR ++ "$" ++ nonceVerifySFStr ++ "$" ++
      managerFranchiseAuthSFStr ++ "$" ++ level

def coreIdPswChangePswResponseMsgGenProcess
    (existPswVerifyResultStr cipheredPswUpdateResultStr : String) : String :=
  moaCORE_ChangePswRes_STR ++ "$" ++ existPswVerifyResultStr ++ "$" ++ cipheredPswUpdateResultStr

def coreIdPswUnRegistResponseMsgGenProcess (managerOrFranchiseIdAuthDBRemoveSFStr : String) : String :=
  moaCORE_UnRegistRes_STR ++ "$" ++ managerOrFranchiseIdAuthDBRemoveSFStr

end MoaCrypto.CoreAuth
