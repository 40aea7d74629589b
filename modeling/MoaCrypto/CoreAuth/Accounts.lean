import MoaCrypto.CoreAuth.IdInjection
import MoaCrypto.CoreAuth.Messages

/-!
# The account flows (`FranchiseRegistTest.java`, `FranchiseLoginTest.java`, ..)

Registration, login, password change and removal of a franchise or a manager, one pass of the
program's loop each: the client's messages, what the server's parser makes of them, the database file
and the responses.  The programs of franchises and managers differ in the level, which a manager's
messages and records have in front.

`none` in the middle of a pass is an exception, which ends the loop.
-/

namespace MoaCrypto.AuthDB

open Java CoreAuth

/-- How a pass ends: the program reports success or failure and goes on, says neither, returns, or
has thrown an exception. -/
inductive Ended
  | success
  | failure
  | silent
  | returned
  | thrown
  deriving DecidableEq, Repr

section

variable (cr : Crypto) (kind : Kind)

/-! ## Registration -/

def moaGeneralManager : String := "0x63"

/-- The level that the flow registers with. -/
def managerLevelInfoStr : Kind → Option String
  | .franchise => none
  | .manager => some moaGeneralManager

/-- Steps 1.3 to 1.5.0: whether the id is in the database already. -/
def idExist (randomBytes : List UInt8) (file : Option String) (idStr : String) : Option Bool := do
  let idExistMsgStr := coreIdExistRegistRequestMsgGenProcess cr idStr
  -- with the header of this message the parser never returns `null`
  let idExistMsgParserResultStr ← (coreAuthServerMsgPacketParser cr randomBytes idExistMsgStr none).join
  let idExistAuthDBSearchResultStr ← (search kind file idExistMsgParserResultStr).join
  if idExistAuthDBSearchResultStr = "0x6010" then some true
  else do
    let idExistAckMsgStr := coreIdExistAckMsgGenProcess idExistAuthDBSearchResultStr
    let idExistAckParserResultStr ← (coreAuthClientMsgPacketParser idExistAckMsgStr).join
    some (idExistAckParserResultStr = "0x6010")

/-- Steps 1.5 and 1.6.0: the record of the request, `randomBytes` being its salt. -/
def registRecord (randomBytes : List UInt8) (LastModifiedDatetime idStr passwordStr : String) :
    Option String := do
  let idPswRegReqMsgGenStr :=
    coreIdPswRegistRequestMsgGenProcess cr (managerLevelInfoStr kind) idStr passwordStr
  let idPswRegReqMsgParserResultStr ←
    (coreAuthServerMsgPacketParser cr randomBytes idPswRegReqMsgGenStr none).join
  match kind, tokens '$' idPswRegReqMsgParserResultStr with
  | .franchise, franchiseIdBase64Str :: saltBase64Str :: cipheredPswBase64Str :: _ => do
    let idBytes ← cr.decode franchiseIdBase64Str
    some (franchiseAuthDBAddProcess (cr.newString idBytes) saltBase64Str cipheredPswBase64Str 0
      LastModifiedDatetime)
  | .manager, managerLevelStr :: managerIdBase64Str :: saltBase64Str :: cipheredPswBase64Str :: _ => do
    let idBytes ← cr.decode managerIdBase64Str
    some (ManagerAuthDBAddProcess managerLevelStr (cr.newString idBytes) saltBase64Str
      cipheredPswBase64Str 0 LastModifiedDatetime)
  | _, _ => none

def regist (os : OS) (randomBytes : List UInt8) (LastModifiedDatetime idStr passwordStr : String)
    (file : Option String) : Option String × Ended :=
  match idExist cr kind randomBytes file idStr with
  | none => (file, .thrown)
  | some true => (file, .failure)
  | some false =>
    match registRecord cr kind randomBytes LastModifiedDatetime idStr passwordStr with
    | none => (file, .thrown)
    | some record =>
      let (file, authDBAddResultStr) := storage kind os file record
      if authDBAddResultStr = "0x6021" then (file, .returned)
      else
        let idPswRegResMsgGenStr :=
          coreIdPswRegistResponseMsgGenProcess authDBAddResultStr (kind = .manager)
        match (coreAuthClientMsgPacketParser idPswRegResMsgGenStr).join with
        | none => (file, .thrown)
        -- the code is compared with a word that no message contains
        | some idPswRegResParserResultStr =>
          (file, if idPswRegResParserResultStr = "ox6021" then .failure else .success)

/-! ## Login -/

/-- Salt and ciphered password of a lookup's text, which a level precedes for a manager. -/
def saltAndCiphered (serverSaltAndCipheredBase64Str : String) : Option (Option String × String × String) :=
  match kind, tokens '$' serverSaltAndCipheredBase64Str with
  | .franchise, authDBSaltBase64Str :: authDBCipheredPswBase64Str :: _ =>
    some (none, authDBSaltBase64Str, authDBCipheredPswBase64Str)
  | .manager, authDBManagerLevelStr :: authDBSaltBase64Str :: authDBCipheredPswBase64Str :: _ =>
    some (some authDBManagerLevelStr, authDBSaltBase64Str, authDBCipheredPswBase64Str)
  | _, _ => none

/-- Steps 2.8 and 2.9 of a login that the server has found good. -/
def logInResponse (nonceVefirySFStr : String) (authDBManagerLevelStr : Option String) : Option Ended := do
  let idPswLoginResMsgStr :=
    coreIdPswLogInResponseMsgGenProcess nonceVefirySFStr "0x6040" authDBManagerLevelStr
  let idPswLoginResultStr ← (coreAuthClientMsgPacketParser idPswLoginResMsgStr).join
  match kind, tokens '$' idPswLoginResultStr with
  | .franchise, nonceVerifySFStr :: franchiseAuthSFStr :: _ =>
    some (if nonceVerifySFStr = "0x6030" ∧ franchiseAuthSFStr = "0x6040" then .success else .failure)
  | .manager, nonceVerifySFStr :: managerAuthSFStr :: _ :: _ =>
    some (if nonceVerifySFStr = "0x6030" ∧ managerAuthSFStr = "0x6040" then .success else .failure)
  | _, _ => none

/-- The nonce is made of `randomBytes`. -/
def logInPass (randomBytes : List UInt8) (file : Option String) (logInIdStr logInPswStr : String) :
    Option Ended := do
  let idPswLogInStartReqMsgGenStr := coreIdPswLogInStartRequestMsgGenProcess
  let nonceStr ← (coreAuthServerMsgPacketParser cr randomBytes idPswLogInStartReqMsgGenStr none).join
  let idPswLogInStartResMsgStr := coreIdPswLoginStartResponseMsgGenProcess nonceStr
  let idPswLoginStartResParserResultStr ← (coreAuthClientMsgPacketParser idPswLogInStartResMsgStr).join
  let idPswLogInReqMsgGenStr := coreIdPswLogInRequestMsgGenProcess cr logInIdStr logInPswStr
    idPswLoginStartResParserResultStr (kind = .manager)
  let idPswLoginReqPaserResultStr ←
    (coreAuthServerMsgPacketParser cr randomBytes idPswLogInReqMsgGenStr (some nonceStr)).join
  match tokens '$' idPswLoginReqPaserResultStr with
  | nonceVefirySFStr :: idBase64Str :: hashPswBase64Str :: hmacPswBase64Str :: _ =>
    if nonceVefirySFStr = "0x6031" then some .returned
    else do
      match ← get cr kind file idBase64Str with
      | none => some .failure
      | some serverSaltAndCipheredBase64Str => do
        let (level, authDBSaltBase64Str, authDBCipheredPswBase64Str) ←
          saltAndCiphered kind serverSaltAndCipheredBase64Str
        let cipheredPswBase64Str ←
          coreIdPswLogInAuthInfoGen cr authDBSaltBase64Str hashPswBase64Str hmacPswBase64Str
        if cipheredPswBase64Str = authDBCipheredPswBase64Str then
          logInResponse kind nonceVefirySFStr level
        else some .failure
  | _ => none

def logIn (randomBytes : List UInt8) (file : Option String) (logInIdStr logInPswStr : String) : Ended :=
  (logInPass cr kind randomBytes file logInIdStr logInPswStr).getD .thrown

/-! ## Password change -/

/-- The new value is computed and not stored: the update of the record is a comment. -/
def changePswPass (randomBytes : List UInt8) (file : Option String)
    (loginIDStr currentPswStr changePswStr : String) : Option Ended := do
  let changePswRequestMsgGenStr :=
    coreIdPswChangePswRequestMsgGenProcess cr loginIDStr currentPswStr changePswStr
  let changePswRequestMsgParserResultStr ←
    (coreAuthServerMsgPacketParser cr randomBytes changePswRequestMsgGenStr none).join
  match tokens '$' changePswRequestMsgParserResultStr with
  | idBase64Str :: currentHashPswBase64Str :: currentHmacPswBase64Str :: newHashPswBase64Str ::
      newHmacPswBase64Str :: _ => do
    -- a tokenizer of `null` throws
    let authDBRecordDataGenStr ← (get cr kind file idBase64Str).join
    let (_, authDBSaltBase64Str, authDBCipheredPswBase64Str) ← saltAndCiphered kind authDBRecordDataGenStr
    let currentCipheredPswBase64Str ←
      coreIdPswLogInAuthInfoGen cr authDBSaltBase64Str currentHashPswBase64Str currentHmacPswBase64Str
    let (currentPswVerifySFStr, newCipheredUpdateSFStr) ←
      if currentCipheredPswBase64Str = authDBCipheredPswBase64Str then
        (coreIdPswLogInAuthInfoGen cr authDBSaltBase64Str newHashPswBase64Str newHmacPswBase64Str).map
          fun _ => ("0x6060", "0x06070")
      else some ("0x6061", "0x06071")
    let changePswResponseMsgGenStr :=
      coreIdPswChangePswResponseMsgGenProcess currentPswVerifySFStr newCipheredUpdateSFStr
    let changePswResponseMsgParserResultStr ←
      (coreAuthClientMsgPacketParser changePswResponseMsgGenStr).join
    match tokens '$' changePswResponseMsgParserResultStr with
    | existPswVerifyResultStr :: cipheredPswUpdateResultStr :: _ =>
      some (if existPswVerifyResultStr = "0x6060" ∧ cipheredPswUpdateResultStr = "0x06070" then .success
        else .failure)
    | _ => none
  | _ => none

def changePsw (randomBytes : List UInt8) (file : Option String)
    (loginIDStr currentPswStr changePswStr : String) : Ended :=
  (changePswPass cr kind randomBytes file loginIDStr currentPswStr changePswStr).getD .thrown

/-! ## Removal -/

/-- Step 4.3. -/
def unRegistResponse (authDBRemoveResultStr : String) : Ended :=
  match (coreAuthClientMsgPacketParser
      (coreIdPswUnRegistResponseMsgGenProcess authDBRemoveResultStr)).join with
  | none => .thrown
  | some unRegistResponseMsgParserResultStr =>
    if unRegistResponseMsgParserResultStr = "0x6051" then .failure
    else if unRegistResponseMsgParserResultStr = "0x6050" then .success
    else .silent

def unRegist (os : OS) (randomBytes : List UInt8) (removeTargerIDStr : String) (file : Option String) :
    Option String × Ended :=
  if removeTargerIDStr = "" then (file, .failure)
  else
    let unRegistRequestMsgGenStr := coreIdPswUnRegistRequestMsgGenProcess cr removeTargerIDStr
    match (coreAuthServerMsgPacketParser cr randomBytes unRegistRequestMsgGenStr none).join with
    | none => (file, .thrown)
    | some unRegistMsgParserResultStr =>
      match remove kind os file unRegistMsgParserResultStr with
      | (file, none) => (file, .thrown)
      | (file, some authDBRemoveResultStr) => (file, unRegistResponse authDBRemoveResultStr)

end

/-! ## Runs -/

/-- A pass of one of the four programs, with what it takes from the user, the secure generator and
the clock. -/
inductive Flow
  | regist (idStr passwordStr : String) (salt : List UInt8) (LastModifiedDatetime : String)
  | logIn (idStr passwordStr : String) (nonce : List UInt8)
  | changePsw (idStr currentPswStr changePswStr : String) (randomBytes : List UInt8)
  | unRegist (idStr : String) (randomBytes : List UInt8)

def Flow.pass (cr : Crypto) (kind : Kind) (os : OS) (file : Option String) : Flow → Option String × Ended
  | .regist idStr passwordStr salt date => AuthDB.regist cr kind os salt date idStr passwordStr file
  | .logIn idStr passwordStr nonce => (file, AuthDB.logIn cr kind nonce file idStr passwordStr)
  | .changePsw idStr currentPswStr changePswStr randomBytes =>
    (file, AuthDB.changePsw cr kind randomBytes file idStr currentPswStr changePswStr)
  | .unRegist idStr randomBytes => AuthDB.unRegist cr kind os randomBytes idStr file

/-- The database file after a pass. -/
def Flow.file (cr : Crypto) (kind : Kind) (os : OS) (file : Option String) (flow : Flow) : Option String :=
  (flow.pass cr kind os file).1

def Flow.ended (cr : Crypto) (kind : Kind) (os : OS) (file : Option String) (flow : Flow) : Ended :=
  (flow.pass cr kind os file).2

end MoaCrypto.AuthDB
