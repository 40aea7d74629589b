import MoaCrypto.Browser.Keys
import MoaCrypto.CoreAuth.Messages

/-!
# The core-auth client of the browser (`moaClientCoreAuthLib-v1.0.1.js`)

The browser has an auth client of its own.  It makes the digests of a request in one function and cuts
them apart again for a change of the password; a response is parsed by its first `$` only.  Where the
crypto libraries agree, its requests are those of the Java client, and both parsers return the same text on
the server's responses (`clients_agree`).
-/

namespace MoaCrypto.Browser

open Java

/-- The crypto library with AES in CBC mode and its padding, as `AES.encrypt` uses it by default. -/
structure AuthLibrary extends CryptoJS where
  encryptCBC : (message key iv : List UInt8) → List UInt8

/-! ## Headers -/

def moaCORE_IDExist_STR : String := "4D4F410001"
def moaCORE_IDExistAck_STR : String := "4D4F410002"
def moaCORE_IdPswRegReq_STR : String := "4D4F410003"
def moaCORE_IdPswRegRes_STR : String := "4D4F410004"
def moaMANAGER_IdPswRegReq_STR : String := "4D4F410013"
def moaMANAGER_IdPswRegRes_STR : String := "4D4F410014"
def moaCORE_IdPswLogInStartReq_STR : String := "4D4F412001"
def moaCORE_IdPswLogInSTartRes_STR : String := "4D4F412002"
def moaCORE_IdPswLogInReq_STR : String := "4D4F412003"
def moaCORE_IdPswLogInRes_STR : String := "4D4F412004"
def moaMANAGER_IdPswLogInReq_STR : String := "4D4F412013"
def moaMANAGER_IdPswLogInRes_STR : String := "4D4F412014"
def moaCORE_ChagePswReq_STR : String := "4D4F413001"
def moaCORE_ChagePswRes_STR : String := "4D4F413002"
def moaCORE_UnRegistReq_STR : String := "4D4F413007"
def moaCORE_UnRegistRes_STR : String := "4D4F413008"

def iv : String := "00FF0000FF00FF000000FFFF000000FF"

/-! ## Parser -/

/-- The headers that `checkHeader` looks for. -/
def responseHeaders : List String :=
  [moaCORE_IDExistAck_STR, moaCORE_IdPswRegRes_STR, moaMANAGER_IdPswRegRes_STR, moaCORE_IdPswLogInSTartRes_STR,
    moaCORE_IdPswLogInRes_STR, moaMANAGER_IdPswLogInRes_STR, moaCORE_ChagePswRes_STR, moaCORE_UnRegistRes_STR]

/-- `header.indexOf(..) == 0` for one of them. -/
def checkHeader (header : String) : Bool :=
  responseHeaders.any fun known => known.toList.isPrefixOf header.toList

/-- `s.substring(0, s.indexOf(delim))`, where there is one. -/
def beforeFirst (delim : Char) (s : String) : String := String.ofList (s.toList.takeWhile fun ch => ch ≠ delim)

/-- `s.substring(s.indexOf(delim) + 1, s.length)`. -/
def afterFirst (delim : Char) (s : String) : String :=
  if delim ∈ s.toList then String.ofList ((s.toList.dropWhile fun ch => ch ≠ delim).drop 1) else s

def coreMsgPacketParser (message : String) : String :=
  if '$' ∉ message.toList then ""
  else if checkHeader (CoreAuth.toUpperCase (beforeFirst '$' message)) then afterFirst '$' message
  else ""

/-! ## Messages -/

section Messages

variable (c : AuthLibrary)

/-- The id, the hash of the encrypted password and its HMAC with the id. -/
def getEncryptedMergeMsg (id psw : String) : String :=
  let key := c.parseHex (substr (encodeHexString (c.SHA256 (utf8 id))) 0 iv.length)
  let hashEncryptedPsw := c.SHA256 (c.encryptCBC (utf8 psw) key (c.parseHex iv))
  let hmacId := c.HmacSHA256 (utf8 id) hashEncryptedPsw
  c.stringifyBase64 (utf8 id) ++ "$" ++ c.stringifyBase64 hashEncryptedPsw ++ "$" ++ c.stringifyBase64 hmacId

def coreIdExistRegistRequestMsgGenProcess (id : String) : String :=
  moaCORE_IDExist_STR ++ "$" ++ c.stringifyBase64 (utf8 id)

def coreIdPswRegistRequestMsgGenProcess (managerLevel : Option String) (id psw : String) : String :=
  match managerLevel with
  | none => moaCORE_IdPswRegReq_STR ++ "$" ++ getEncryptedMergeMsg c id psw
  | some managerLevel =>
    moaMANAGER_IdPswRegReq_STR ++ "$" ++ managerLevel ++ "$" ++ getEncryptedMergeMsg c id psw

def coreIdPswLogInStartRequestMsgGenProcess : String := moaCORE_IdPswLogInStartReq_STR

def coreIdPswLogInRequestMsgGenProcess (id psw nonce : String) (isManager : Bool) : String :=
  if isManager then moaMANAGER_IdPswLogInReq_STR ++ "$" ++ getEncryptedMergeMsg c id psw ++ "$" ++ nonce
  else moaCORE_IdPswLogInReq_STR ++ "$" ++ getEncryptedMergeMsg c id psw ++ "$" ++ nonce

def coreIdPswChangePswRequestMsgGenProcess (id psw newPsw : String) : String :=
  let cipheredNewPswMsg := getEncryptedMergeMsg c id newPsw
  moaCORE_ChagePswReq_STR ++ "$" ++ getEncryptedMergeMsg c id psw ++ "$" ++ afterFirst '$' cipheredNewPswMsg

def coreIdPswUnRegistRequestMsgGenProcess (id : String) : String :=
  moaCORE_UnRegistReq_STR ++ "$" ++ c.stringifyBase64 (utf8 id)

end Messages

/-! ## The first separator -/

theorem takeWhile_ne_append {delim : Char} {cs : List Char} (h : delim ∉ cs) (ds : List Char) :
    (cs ++ delim :: ds).takeWhile (fun ch => ch ≠ delim) = cs := by
  have hall : ∀ ch ∈ cs, decide (ch ≠ delim) = true := by
    intro ch hch
    refine decide_eq_true ?_
    rintro rfl
    exact h hch
  rw [List.takeWhile_append_of_pos hall, List.takeWhile_cons_of_neg (by simp), List.append_nil]

theorem dropWhile_ne_append {delim : Char} {cs : List Char} (h : delim ∉ cs) (ds : List Char) :
    (cs ++ delim :: ds).dropWhile (fun ch => ch ≠ delim) = delim :: ds := by
  have hall : ∀ ch ∈ cs, decide (ch ≠ delim) = true := by
    intro ch hch
    refine decide_eq_true ?_
    rintro rfl
    exact h hch
  rw [List.dropWhile_append_of_pos hall, List.dropWhile_cons_of_neg (by simp)]

theorem beforeFirst_append {delim : Char} {s : String} (h : delim ∉ s.toList) (t : String) :
    beforeFirst delim (s ++ String.ofList [delim] ++ t) = s := by
  rw [beforeFirst, toList_separated, takeWhile_ne_append h, String.ofList_toList]

theorem afterFirst_append {delim : Char} {s : String} (h : delim ∉ s.toList) (t : String) :
    afterFirst delim (s ++ String.ofList [delim] ++ t) = t := by
  rw [afterFirst, toList_separated, if_pos (List.mem_append_right _ List.mem_cons_self), dropWhile_ne_append h]
  exact String.ofList_toList

/-! ## Agreement with the Java client -/

/-- The two crypto libraries agree on equal inputs. -/
structure Agree (c : AuthLibrary) (cr : CoreAuth.Crypto) : Prop where
  SHA256 : ∀ bytes, c.SHA256 bytes = cr.HashDigest bytes
  HmacSHA256 : ∀ message key, c.HmacSHA256 message key = cr.HmacDigest message key
  encryptCBC : ∀ key data, c.encryptCBC data key (c.parseHex iv) = cr.SymmetricEncryptData key data
  parseHex : ∀ bytes, c.parseHex (encodeHexString bytes) = bytes
  stringifyBase64 : ∀ bytes, c.stringifyBase64 bytes = Base64.encode bytes
  toBase64String : ∀ bytes, cr.toBase64String bytes = Base64.encode bytes

section Agreement

variable {c : AuthLibrary} {cr : CoreAuth.Crypto} (h : Agree c cr)

include h in
theorem Agree.base64 (bytes : List UInt8) : c.stringifyBase64 bytes = cr.toBase64String bytes := by
  rw [h.stringifyBase64, h.toBase64String]

include h in
/-- The digests are those of the Java client: thirty-two digits are the sixteen bytes of the key. -/
theorem getEncryptedMergeMsg_eq (id psw : String) :
    getEncryptedMergeMsg c id psw = cr.toBase64String (utf8 id) ++ "$" ++
      CoreAuth.coreIdPswHashPswAndHamcPswGen cr id psw := by
  have hdigits := substr_encodeHexString (c.SHA256 (utf8 id)) 0 16
  rw [Nat.zero_mul, List.drop_zero] at hdigits
  have hlength : iv.length = 16 * 2 := by decide
  have hkey : c.parseHex (substr (encodeHexString (c.SHA256 (utf8 id))) 0 iv.length) =
      (cr.HashDigest (utf8 id)).take 16 := by
    rw [hlength, hdigits, h.parseHex, h.SHA256]
  have hhash : c.SHA256 (c.encryptCBC (utf8 psw) (c.parseHex (substr (encodeHexString (c.SHA256 (utf8 id))) 0
      iv.length)) (c.parseHex iv)) = CoreAuth.hashPswBytes cr id psw := by
    rw [hkey, h.encryptCBC, h.SHA256]
    rfl
  unfold getEncryptedMergeMsg CoreAuth.coreIdPswHashPswAndHamcPswGen
  simp only [hhash, h.HmacSHA256, h.base64, CoreAuth.hmacPswBytes, String.append_assoc]

include h in
theorem afterFirst_getEncryptedMergeMsg (id psw : String) :
    afterFirst '$' (getEncryptedMergeMsg c id psw) = CoreAuth.coreIdPswHashPswAndHamcPswGen cr id psw := by
  rw [getEncryptedMergeMsg_eq h]
  refine afterFirst_append ?_ _
  rw [h.toBase64String]
  exact Base64.not_mem_encode foreign_dollar _

include h in
theorem registRequest_eq (managerLevel : Option String) (id psw : String) :
    coreIdPswRegistRequestMsgGenProcess c managerLevel id psw =
      CoreAuth.coreIdPswRegistRequestMsgGenProcess cr managerLevel id psw := by
  cases managerLevel with
  | none =>
    simp only [coreIdPswRegistRequestMsgGenProcess, getEncryptedMergeMsg_eq h,
      CoreAuth.coreIdPswRegistRequestMsgGenProcess, CoreAuth.coreIdPswHashPswAndHamcPswGen, String.append_assoc]
    rfl
  | some managerLevel =>
    simp only [coreIdPswRegistRequestMsgGenProcess, getEncryptedMergeMsg_eq h,
      CoreAuth.coreIdPswRegistRequestMsgGenProcess, CoreAuth.coreIdPswHashPswAndHamcPswGen, String.append_assoc]
    rfl

include h in
theorem logInRequest_eq (id psw nonce : String) (isManager : Bool) :
    coreIdPswLogInRequestMsgGenProcess c id psw nonce isManager =
      CoreAuth.coreIdPswLogInRequestMsgGenProcess cr id psw nonce isManager := by
  cases isManager with
  | false =>
    simp only [coreIdPswLogInRequestMsgGenProcess, getEncryptedMergeMsg_eq h,
      CoreAuth.coreIdPswLogInRequestMsgGenProcess, CoreAuth.coreIdPswHashPswAndHamcPswGen, String.append_assoc,
      Bool.false_eq_true, if_false]
    rfl
  | true =>
    simp only [coreIdPswLogInRequestMsgGenProcess, getEncryptedMergeMsg_eq h,
      CoreAuth.coreIdPswLogInRequestMsgGenProcess, CoreAuth.coreIdPswHashPswAndHamcPswGen, String.append_assoc,
      if_true]
    rfl

include h in
/-- The digests of the new password are those after the id. -/
theorem changePswRequest_eq (id psw newPsw : String) :
    coreIdPswChangePswRequestMsgGenProcess c id psw newPsw =
      CoreAuth.coreIdPswChangePswRequestMsgGenProcess cr id psw newPsw := by
  show moaCORE_ChagePswReq_STR ++ "$" ++ getEncryptedMergeMsg c id psw ++ "$" ++
    afterFirst '$' (getEncryptedMergeMsg c id newPsw) = _
  rw [afterFirst_getEncryptedMergeMsg h, getEncryptedMergeMsg_eq h,
    CoreAuth.coreIdPswChangePswRequestMsgGenProcess]
  simp only [String.append_assoc]
  rfl

end Agreement

/-- The headers of the server's responses pass. -/
theorem checkHeader_response (m : CoreAuth.ServerMessage) :
    '$' ∉ m.header.toList ∧ checkHeader (CoreAuth.toUpperCase m.header) = true := by
  have hall : ∀ header ∈ [CoreAuth.moaCORE_IDExistAck_STR, CoreAuth.moaCORE_IdPswRegRes_STR,
      CoreAuth.moaMANAGER_IdPswRegRes_STR, CoreAuth.moaCORE_IdPswLogInSTartRes_STR,
      CoreAuth.moaCORE_IdPswLogInRes_STR, CoreAuth.moaMANAGER_IdPswLogInRes_STR, CoreAuth.moaCORE_ChangePswRes_STR,
      CoreAuth.moaCORE_UnRegistRes_STR],
      '$' ∉ header.toList ∧ checkHeader (CoreAuth.toUpperCase header) = true := by decide
  refine hall m.header ?_
  cases m with
  | registResponse code manager => cases manager <;> simp [CoreAuth.ServerMessage.header]
  | logInResponse nonceVerify auth level => cases level <;> simp [CoreAuth.ServerMessage.header]
  | _ => simp [CoreAuth.ServerMessage.header]

/-- The text of a response after its first separator. -/
theorem coreMsgPacketParser_response (m : CoreAuth.ServerMessage) :
    coreMsgPacketParser m.text = CoreAuth.joined m.values := by
  obtain ⟨hseparator, hcheck⟩ := checkHeader_response m
  have htext : m.text = m.header ++ String.ofList ['$'] ++ CoreAuth.joined m.values := by
    rw [CoreAuth.ServerMessage.text_eq]
    cases m with
    | logInResponse nonceVerify auth level => cases level <;> rfl
    | _ => rfl
  have hmem : '$' ∈ m.text.toList := by
    rw [htext, toList_separated]
    exact List.mem_append_right _ List.mem_cons_self
  rw [coreMsgPacketParser, if_neg (not_not.mpr hmem), htext, beforeFirst_append hseparator, if_pos hcheck,
    afterFirst_append hseparator]

/-- **The two clients agree** on every request, and their parsers on every response of the server. -/
theorem clients_agree {c : AuthLibrary} {cr : CoreAuth.Crypto} (h : Agree c cr) :
    (∀ id, coreIdExistRegistRequestMsgGenProcess c id = CoreAuth.coreIdExistRegistRequestMsgGenProcess cr id) ∧
    (∀ managerLevel id psw, coreIdPswRegistRequestMsgGenProcess c managerLevel id psw =
      CoreAuth.coreIdPswRegistRequestMsgGenProcess cr managerLevel id psw) ∧
    coreIdPswLogInStartRequestMsgGenProcess = CoreAuth.coreIdPswLogInStartRequestMsgGenProcess ∧
    (∀ id psw nonce isManager, coreIdPswLogInRequestMsgGenProcess c id psw nonce isManager =
      CoreAuth.coreIdPswLogInRequestMsgGenProcess cr id psw nonce isManager) ∧
    (∀ id psw newPsw, coreIdPswChangePswRequestMsgGenProcess c id psw newPsw =
      CoreAuth.coreIdPswChangePswRequestMsgGenProcess cr id psw newPsw) ∧
    (∀ id, coreIdPswUnRegistRequestMsgGenProcess c id = CoreAuth.coreIdPswUnRegistRequestMsgGenProcess cr id) ∧
    ∀ m : CoreAuth.ServerMessage,
      CoreAuth.coreAuthClientMsgPacketParser m.text = some (some (coreMsgPacketParser m.text)) := by
  refine ⟨?_, registRequest_eq h, rfl, logInRequest_eq h, changePswRequest_eq h, ?_, ?_⟩
  · intro id
    rw [coreIdExistRegistRequestMsgGenProcess, h.base64]
    rfl
  · intro id
    rw [coreIdPswUnRegistRequestMsgGenProcess, h.base64]
    rfl
  · intro m
    rw [m.parsed, coreMsgPacketParser_response]

/-- The provider of the Java client in the browser. -/
def wireJS : AuthLibrary where
  SHA256 := CoreAuth.wireCrypto.HashDigest
  HmacSHA256 := CoreAuth.wireCrypto.HmacDigest
  parseHex s := (decodeHex s).getD []
  parseBase64 s := (CoreAuth.wireCrypto.decode s).getD []
  stringifyBase64 := CoreAuth.wireCrypto.toBase64String
  encryptCBC message key _ := CoreAuth.wireCrypto.SymmetricEncryptData key message

theorem wireJS_agree : Agree wireJS CoreAuth.wireCrypto where
  SHA256 _ := rfl
  HmacSHA256 _ _ := rfl
  encryptCBC _ _ := rfl
  parseHex bytes := by
    show (decodeHex (encodeHexString bytes)).getD [] = bytes
    rw [decodeHex_encodeHexString, Option.getD_some]
  stringifyBase64 _ := rfl
  toBase64String _ := rfl

/-- An id outside ASCII changes its password. -/
theorem clients_agree_wire : coreIdPswChangePswRequestMsgGenProcess wireJS "홍길동" "pw" "비밀" =
    CoreAuth.coreIdPswChangePswRequestMsgGenProcess CoreAuth.wireCrypto "홍길동" "pw" "비밀" :=
  (clients_agree wireJS_agree).2.2.2.2.1 "홍길동" "pw" "비밀"

end MoaCrypto.Browser
