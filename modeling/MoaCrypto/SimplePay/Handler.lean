import MoaCrypto.SimplePay.Store

/-!
# The handlers (`ActionHandlerImpl.java`)

Every handler is a program over the queries of the store, in the order in which the
source makes them.  A reply is built in the `result` object; an exception of the
body is caught and becomes a bad request with its message.  Console output and the
creation date of a memory entry, which nothing reads, are left out.
-/

namespace MoaCrypto.SimplePay

open Java QueryProg

/-- A `PaymentException`, or any other exception with what `getMessage()` returns. -/
inductive HandlerException
  | payment (message : String) (errCode : Int)
  | other (message : Option String)
  deriving DecidableEq

def nullPointer : HandlerException := .other none

/-- `throw new Exception(message)`. -/
def exception (message : String) : HandlerException := .other (some message)

abbrev HandlerProg (ρ : Type) := Prog Query Answer HandlerException ρ

/-- One query. -/
abbrev ask (q : Query) : HandlerProg (Answer q) := Prog.query q

/-- `request.get(key).getAsString()`. -/
def getAsString (request : JsonObject) (key : String) : HandlerProg String :=
  Prog.orFail nullPointer (request.get key)

def getMemberId (request : JsonObject) : HandlerProg String := getAsString request "memberId"

def getCardNick (request : JsonObject) : HandlerProg String := getAsString request "cardNick"

def setSuccessRequest (jsonObj : JsonObject) : JsonObject :=
  (jsonObj.addProperty "result" "200").addProperty "resultMsg" "성공"

def setBadRequest (jsonObj : JsonObject) (ErrorCode message : String) : JsonObject :=
  (jsonObj.addProperty "result" ErrorCode).addProperty "resultMsg" message

@[simp] theorem get_setSuccessRequest (jsonObj : JsonObject) :
    (setSuccessRequest jsonObj).get "result" = some "200" := by
  rw [setSuccessRequest, JsonObject.get_addProperty_ne _ _ (by decide),
    JsonObject.get_addProperty_self]

@[simp] theorem get_setBadRequest (jsonObj : JsonObject) (ErrorCode message : String) :
    (setBadRequest jsonObj ErrorCode message).get "result" = some ErrorCode := by
  rw [setBadRequest, JsonObject.get_addProperty_ne _ _ (by decide),
    JsonObject.get_addProperty_self]

/-- Success adds only its own members. -/
theorem get_setSuccessRequest_ne (jsonObj : JsonObject) {key : String} (h₁ : key ≠ "result")
    (h₂ : key ≠ "resultMsg") : (setSuccessRequest jsonObj).get key = jsonObj.get key := by
  rw [setSuccessRequest, JsonObject.get_addProperty_ne _ _ h₂, JsonObject.get_addProperty_ne _ _ h₁]

def intText (n : Int) : String := String.ofList (intDigits n)

/-- `(e.getMessage() == null) ? "" : e.getMessage()`. -/
def HandlerException.text : HandlerException → String
  | .payment message _ => message
  | .other message => message.getD ""

/-! ## The DAO behind its exceptions -/

/-- `cardDao.addUserCard`, -1 where it throws. -/
def savaUserCardInfo (cardVo : CardVo) : HandlerProg Int := do
  let iRet ← ask (.addCardInfo cardVo)
  .ret (iRet.getD (-1))

/-- What `cardDao.getUserCardOne` makes of the rows: no row ends in a null pointer, two rows in an
exception of `selectOne`, and both are caught. -/
def selectOne : Option (List CardVo) → Option CardVo
  | some [row] => some row
  | _ => none

def getUserCardInfoOne (cardVo : CardVo) : HandlerProg (Option CardVo) := do
  let rows ← ask (.getCardInfo cardVo)
  .ret (selectOne rows)

def confirmkUserCardPwd (cardVo : CardVo) : HandlerProg Int := do
  let matchCount ← ask (.confirmkUserCardPwd cardVo)
  .ret (matchCount.getD 0)

def updateUserCardInfoOne (cardVo : CardVo) : HandlerProg Int := do
  let ret ← ask (.updateCardInfo cardVo)
  .ret (ret.getD (-1))

def changeUserCardPwd (cardVo : CardVo) : HandlerProg Int := do
  let ret ← ask (.changePwdSimplePay cardVo)
  .ret (ret.getD (-1))

def addCardChgPwdHis (vo : CardChgPwdHisVo) : HandlerProg Int := do
  let ret ← ask (.addCardChgPwdHis vo)
  .ret (ret.getD (-1))

/-! ## Cards -/

def registCard (env : Env) (request result : JsonObject) : HandlerProg JsonObject :=
  Prog.tryCatch (do
    let strActStep ← getAsString request "step"
    if strActStep = "1" then do
      let memberId ← getMemberId request
      let cardNick ← getCardNick request
      let secretKey ← getAsString request "secretKey"
      let token ← ask .randomUUID
      let result := (result.addProperty "token" token).addProperty "returnURL"
        env.cardRegistReturnUrl
      let iRet ← savaUserCardInfo
        { MEMBER_ID := memberId, CARD_NICK := cardNick, SECRET_KEY := secretKey,
          CARD_TOKEN := token, BILL_KEY := token }
      .ret (if iRet < 0 then setBadRequest result "400" "Bad Request"
        else setSuccessRequest result)
    else if strActStep = "2" then do
      let resCd ← getAsString request "r_res_cd"
      if resCd ≠ "0000" then do
        let resMsg ← getAsString request "r_res_msg"
        .fail (exception resMsg)
      else do
        let token ← getAsString request "r_order_no"
        let cardVo ← getUserCardInfoOne { CARD_TOKEN := token }
        let cardVo ← Prog.orFail (exception "Invalid CardToken 001") cardVo
        if cardVo.USE_FLAG ≠ "N" then .fail (exception "Not avable 001")
        else do
          let billKey ← getAsString request "r_card_no"
          let issuerCd ← getAsString request "r_issuer_cd"
          let issuerNm ← getAsString request "r_issuer_nm"
          let cno ← getAsString request "r_cno"
          let ret ← updateUserCardInfoOne
            { cardVo with BILL_KEY := billKey, ISSUER_CD := issuerCd, ISSUER_NM := issuerNm,
                          CNO := cno, USE_FLAG := "Y" }
          if ret < 0 then .fail (exception "CardRegist Bad Request : 003")
          else .ret (setSuccessRequest result)
    else .fail (exception "CardRegist Bad Request : 001"))
  fun e => .ret (setBadRequest result "400" (match e with
    | .other none => "CardRegist Bad Request : 002"
    | e => e.text))

def changeCardNick (request result : JsonObject) : HandlerProg JsonObject :=
  Prog.tryCatch (do
    let strActStep ← getAsString request "step"
    if strActStep = "1" then do
      let memberId ← getMemberId request
      let cardToken ← getAsString request "cardToken"
      let cardNick ← getAsString request "cardNick"
      let cardVo ← getUserCardInfoOne { CARD_TOKEN := cardToken }
      let cardVo ← Prog.orFail nullPointer cardVo
      if memberId ≠ cardVo.MEMBER_ID then .fail (exception "mismatch 001")
      else do
        let ret ← updateUserCardInfoOne { cardVo with CARD_NICK := cardNick }
        if ret < 0 then .fail (exception "changeCardNick Bad Request : 001")
        else .ret (setSuccessRequest result)
    else .ret (setBadRequest result "400" "W001"))
  fun e => .ret (setBadRequest result "400" ("changeCardNick Bad Reqeust 025 : " ++ e.text))

def deleteCardOne (request result : JsonObject) : HandlerProg JsonObject :=
  Prog.tryCatch (do
    let strActStep ← getAsString request "step"
    if strActStep = "1" then do
      let memberId ← getMemberId request
      let cardToken ← getAsString request "cardToken"
      let cardVo ← getUserCardInfoOne { CARD_TOKEN := cardToken }
      let cardVo ← Prog.orFail (exception "Invalid CardToken 002") cardVo
      if memberId ≠ cardVo.MEMBER_ID then .fail (exception "Not abable E001")
      else if cardVo.USE_FLAG = "D" then .fail (exception "Not abable E002")
      else do
        let ret ← updateUserCardInfoOne { cardVo with USE_FLAG := "D" }
        if ret < 0 then .fail (exception "fail to delete E003")
        else .ret (setSuccessRequest result)
    else .fail (exception "W001"))
  fun e => .ret (setBadRequest result "400" ("Payment Bad Reqeust 023 : " ++ e.text))

/-- The list is answered as a text, which is left out of the reply. -/
def getCardList (request result : JsonObject) : HandlerProg JsonObject :=
  Prog.tryCatch (do
    let strActStep ← getAsString request "step"
    if strActStep = "1" then do
      let memberId ← getMemberId request
      let listCardVo ← ask (.getUserCardList memberId)
      let _ ← Prog.orFail nullPointer listCardVo
      .ret (setSuccessRequest (result.addProperty "memberId" memberId))
    else .ret (setBadRequest result "400" "CardList Bad Reqeust 011"))
  fun _ => .ret (setBadRequest result "400" "CardList Bad Reqeust 012")

/-! ## Passwords -/

def changePasswordSimplePay (request result : JsonObject) : HandlerProg JsonObject :=
  Prog.tryCatch (do
    let strActStep ← getAsString request "step"
    if strActStep = "1" then do
      let memberId ← getMemberId request
      let secOrgin ← getAsString request "secretKeyOrg"
      let secNew ← getAsString request "secretKeyNew"
      let matchCount ← confirmkUserCardPwd { MEMBER_ID := memberId, SECRET_KEY := secOrgin }
      if matchCount < 1 then .fail (exception "mismatch password 002")
      else do
        let _ ← changeUserCardPwd { MEMBER_ID := memberId, SECRET_KEY := secNew }
        let _ ← addCardChgPwdHis ⟨memberId, "002", "UserRequestChangePassword"⟩
        .ret (setSuccessRequest result)
    else .ret (setBadRequest result "400" "W001"))
  fun e => .ret (setBadRequest result "400" ("Payment Bad Reqeust 024 : " ++ e.text))

/-- The entry of the memory stays, whatever the outcome. -/
def initializePasswordStep2 (userId kgId nonce : String) : HandlerProg JsonObject := do
  let memVo ← ask (.memGet userId)
  let json := (JsonObject.addProperty [] "actionType" "InitializePwdSimplePay").addProperty "step" "2"
  let memVo ← Prog.orFail nullPointer memVo
  if memVo.actionType = "InitializePwdSimplePay" ∧ memVo.memory1 = nonce then do
    let _ ← changeUserCardPwd { MEMBER_ID := userId, SECRET_KEY := memVo.memory2 }
    let _ ← addCardChgPwdHis ⟨userId, "001", kgId⟩
    .ret (setSuccessRequest json)
  else .ret (setBadRequest json "400" "InitializePwdSimplePay Bad Request 026")

def initializePassword (request result : JsonObject) : HandlerProg JsonObject :=
  Prog.tryCatch (do
    let strActStep ← getAsString request "step"
    if strActStep = "1" then do
      let memberId ← getMemberId request
      let listCardVo ← ask (.getUserCardList memberId)
      let listCardVo ← Prog.orFail nullPointer listCardVo
      if 0 < listCardVo.length then do
        let nonce ← ask .randomUUID
        let secretKeyNew ← getAsString request "secretKeyNew"
        ask (.memPut memberId ⟨"InitializePwdSimplePay", "1", nonce, secretKeyNew⟩)
        .ret (setSuccessRequest (result.addProperty "nonce" nonce))
      else .fail (exception "001")
    else if strActStep = "ini" then do
      let memberId ← getMemberId request
      let nonce ← getAsString request "nonce"
      let iniResult ← initializePasswordStep2 memberId "test_KGID" nonce
      .ret (if iniResult.get "result" = some "200" then setSuccessRequest result
        else setBadRequest result "400" "Bad Request")
    else .ret (setBadRequest result "400" "W001"))
  fun e => .ret (setBadRequest result "400"
    ("InitializePwdSimplePay Bad Reqeust 025 : " ++ e.text))

/-! ## Payments -/

/-- `s.length()`: supplementary characters are two `char`s. -/
def utf16Length (s : String) : Nat :=
  (s.toList.map fun c => if 0x10000 ≤ c.toNat then 2 else 1).sum

/-- The digested bytes: the decoded key and as many bytes of the text as it has `char`s. -/
def mergeByte (targetData : String) (decodeKey : List UInt8) : List UInt8 :=
  decodeKey ++ (utf8 targetData).take (utf16Length targetData)

def getMessageDigestForSecureKey (targetData secretKey : String) : HandlerProg String := do
  let decodeKey ← Prog.orFail (exception "Illegal base64 character") (Base64.decode secretKey)
  .ret (Base64.encode (Sha256.digest (mergeByte targetData decodeKey)))

/-- The text of a challenge: nonce, member and order. -/
def combinedStr (memoryVo : MoaMemoryVo) (memberId : String) : String :=
  memoryVo.memory1 ++ memberId ++ memoryVo.memory2

def verifySecureKey (request : JsonObject) : HandlerProg String := do
  let memberId ← getMemberId request
  let memoryVo ← ask (.memGet memberId)
  ask (.memRemove memberId)
  let memoryVo ← Prog.orFail nullPointer memoryVo
  let cardToken ← getAsString request "cardToken"
  let cardVo ← getUserCardInfoOne { CARD_TOKEN := cardToken }
  let secretKey ← getAsString request "secretKey"
  if utf16Length secretKey < 5 then .fail (.payment "The secret key is not valid" 400)
  else do
    let cardVo ← Prog.orFail nullPointer cardVo
    if secretKey ≠ cardVo.SECRET_KEY then .fail (.payment "The secret key is not matched" 401)
    else do
      let encodedString ← getMessageDigestForSecureKey (combinedStr memoryVo memberId)
        cardVo.SECRET_KEY
      let secureKey ← getAsString request "secureKey"
      if encodedString = secureKey then .ret cardVo.BILL_KEY
      else .fail (.payment "verify (002)" 400)

def getKiccSendVoSetted (userPayInfo : JsonObject) (card_no client_ip : String) :
    KiccTranSendVo where
  card_txtype := "41"
  req_type := "0"
  wcc := "@"
  noint := "00"
  install_period := "00"
  tr_cd := "00101000"
  mall_id := userPayInfo.get "mall_id"
  order_no := userPayInfo.get "order_no"
  currency := userPayInfo.get "currency"
  product_nm := userPayInfo.get "product_nm"
  product_amt := userPayInfo.get "product_amt"
  tot_amt := userPayInfo.get "product_amt"
  card_amt := userPayInfo.get "product_amt"
  user_id := userPayInfo.get "user_id"
  memb_user_no := userPayInfo.get "memb_user_no"
  user_nm := userPayInfo.get "user_nm"
  user_mail := userPayInfo.get "user_mail"
  user_phone1 := userPayInfo.get "user_phone1"
  user_phone2 := userPayInfo.get "user_phone2"
  user_addr := userPayInfo.get "user_addr"
  product_type := userPayInfo.get "product_type"
  card_no := card_no
  client_ip := client_ip

def getKiccTranSendVo (request : JsonObject) (billKey : String) : HandlerProg KiccTranSendVo := do
  let orderId ← getAsString request "orderId"
  let userPayInfo ← ask (.getUserPayInfo orderId)
  let userPayInfo ← Prog.orFail nullPointer userPayInfo
  let userPayInfo ← Prog.orFail (exception ("Bad ID : " ++ orderId)) userPayInfo
  if userPayInfo.get "orderIdAbailable" = some "Y" then
    .fail (exception ("Can not cancel the order ID : " ++ orderId))
  else do
    let client_ip ← getAsString request "client_ip"
    .ret (getKiccSendVoSetted userPayInfo billKey client_ip)

/-- `KiccTransaction.easypayRun` of a payment: an approval that the merchant does not
acknowledge is cancelled. -/
def easypayRun (sendVo : KiccTranSendVo) : HandlerProg KiccTranResultVo := do
  let resultVo ← ask (.easypay_run sendVo)
  let resultVo ← Prog.orFail nullPointer resultVo
  if resultVo.r_res_cd = "0000" then do
    let ack ← ask (.payCallBack resultVo)
    let ack ← Prog.orFail nullPointer ack
    if ack < 1 then do
      let cancelled ← ask (.cancle resultVo.r_order_no sendVo.client_ip)
      let _ ← Prog.orFail nullPointer cancelled
      .ret { resultVo with r_canc_date := "cancle" }
    else .ret resultVo
  else .ret resultVo

def sendRequestToKICC (sendVo : KiccTranSendVo) : HandlerProg Unit := do
  let kiccResultVo ← easypayRun sendVo
  if kiccResultVo.r_res_cd = "0000" then
    if kiccResultVo.r_canc_date ≠ "" then .fail (exception "Cancel Payment after B2C Server Error")
    else .ret ()
  else .fail (exception ("[KICC]" ++ kiccResultVo.r_res_cd ++ " : " ++ kiccResultVo.r_res_msg))

/-- The two catch clauses of `requestPayment`. -/
def badPayment (result : JsonObject) : HandlerException → JsonObject
  | .payment message errCode => setBadRequest result (intText errCode) message
  | .other none => setBadRequest result "400" "Payment Error Code E022 "
  | .other (some message) => setBadRequest result "400" ("Payment Error Code E022 : " ++ message)

def requestPayment (request result : JsonObject) : HandlerProg JsonObject :=
  Prog.tryCatch (do
    let strActStep ← getAsString request "step"
    let memberId ← getMemberId request
    if strActStep = "1" then do
      let payKind ← getAsString request "payKind"
      if payKind ≠ "CARD" then .fail (exception "(Bad Payment kind)")
      else do
        let orderId ← getAsString request "orderId"
        let nonce ← ask .randomUUID
        ask (.memPut memberId ⟨"requestPayment", "1", nonce, orderId⟩)
        let testVo ← ask (.memGet memberId)
        let _ ← Prog.orFail nullPointer testVo
        .ret (setSuccessRequest (result.addProperty "nonce" nonce))
    else if strActStep = "2" then do
      let billKey ← verifySecureKey request
      let sendVo ← getKiccTranSendVo request billKey
      sendRequestToKICC sendVo
      .ret (setSuccessRequest result)
    else .ret (setBadRequest result "400" "Bad Request"))
  fun e => .ret (badPayment result e)

/-! ## Dispatch -/

/-- The public methods that a request may reach; the dispatcher offers all but the password
change. -/
inductive Operation
  | registCard
  | getCardList
  | requestPayment
  | deleteCardOne
  | changeCardNick
  | initializePassword
  | changePasswordSimplePay
  deriving DecidableEq

/-- A request to one of the methods. -/
structure Call where
  operation : Operation
  request : JsonObject
  deriving DecidableEq

/-- The reply of a call. -/
def handle (env : Env) (call : Call) : HandlerProg JsonObject :=
  match call.operation with
  | .registCard => registCard env call.request []
  | .getCardList => getCardList call.request []
  | .requestPayment => requestPayment call.request []
  | .deleteCardOne => deleteCardOne call.request []
  | .changeCardNick => changeCardNick call.request []
  | .initializePassword => initializePassword call.request []
  | .changePasswordSimplePay => changePasswordSimplePay call.request []

end MoaCrypto.SimplePay
