import MoaCrypto.SimplePay.CardColumns
import MoaCrypto.SimplePay.Server

/-!
# The controller (`PGController.java`)

The merchant's server hands requests to `PGController`, which sends them on to the handlers by their
action type, and the result of an identity check straight to `initializePasswordStep2`.  What a call
has done can be read off the call and its reply (`ControllerCall.deed`), and `Did` says what that is
in the store: `did`.

Parsing and printing of the texts is Gson's and left out; requests and replies are objects.
-/

namespace MoaCrypto.SimplePay

open Java QueryProg

/-- `switchAction`; the case of the password change is commented out. -/
def switchAction (env : Env) (request result : JsonObject) : HandlerProg JsonObject := do
  let strActType ← getAsString request "actionType"
  if strActType = "CardRegist" then registCard env request result
  else if strActType = "SelectCardList" then getCardList request result
  else if strActType = "RequestPay" then requestPayment request result
  else if strActType = "DeleteCardOne" then deleteCardOne request result
  else if strActType = "ChangeCardNickname" then changeCardNick request result
  else if strActType = "InitializePwdSimplePay" then initializePassword request result
  else .ret (setBadRequest result "400" "Bad Request")

def cloneJsonCommon (jsonObj : JsonObject) : HandlerProg JsonObject :=
  Prog.tryCatch (do
    let actionType ← getAsString jsonObj "actionType"
    let step ← getAsString jsonObj "step"
    .ret ((JsonObject.addProperty [] "actionType" actionType).addProperty "step" step))
  fun _ => .fail (exception "PGE001")

/-- `"…" + e.getMessage()`. -/
def HandlerException.getMessage : HandlerException → String
  | .payment message _ => message
  | .other message => message.getD "null"

def handleCardRequest (env : Env) (clientIp : String) (jsonObjectRequest : JsonObject) :
    HandlerProg JsonObject :=
  let requestJsonObj := jsonObjectRequest.addProperty "client_ip" clientIp
  Prog.tryCatch (do
    let resultJsonObj ← cloneJsonCommon requestJsonObj
    switchAction env requestJsonObj resultJsonObj)
  fun e => .ret ((JsonObject.addProperty [] "result" "400").addProperty "resultMsg"
    ("Handler Bad Request : " ++ e.getMessage))

/-- After KICC has issued a bill key. -/
def handleRegistBillKey (env : Env) (clientIp : String) (requestJsonObj : JsonObject) :
    HandlerProg JsonObject :=
  handleCardRequest env clientIp
    ((requestJsonObj.addProperty "actionType" "CardRegist").addProperty "step" "2")

/-- The calls of the merchant's server, with the `clientIp` that is set. -/
inductive ControllerCall
  | handleCardRequest (clientIp : String) (jsonObjectRequest : JsonObject)
  | handleRegistBillKey (clientIp : String) (requestJsonObj : JsonObject)
  | initializePasswordStep2 (userId kgId nonce : String)
  deriving DecidableEq

def ControllerCall.prog (env : Env) : ControllerCall → HandlerProg JsonObject
  | .handleCardRequest clientIp request => MoaCrypto.SimplePay.handleCardRequest env clientIp request
  | .handleRegistBillKey clientIp request => MoaCrypto.SimplePay.handleRegistBillKey env clientIp request
  | .initializePasswordStep2 userId kgId nonce =>
    MoaCrypto.SimplePay.initializePasswordStep2 userId kgId nonce

/-- The store and the calls with what they returned or threw, the newest first. -/
structure ControllerWorld where
  store : Store
  done : List (ControllerCall × Except HandlerException JsonObject)

/-- One call, alone. -/
def control (env : Env) (w : ControllerWorld) (call : ControllerCall) : ControllerWorld :=
  ⟨((call.prog env).run (perform env) w.store).2,
    (call, ((call.prog env).run (perform env) w.store).1) :: w.done⟩

def ControllerWorld.start (cards : List CardVo) : ControllerWorld := ⟨(World.start cards).store, []⟩

/-! ## What a call has done -/

/-- What is done to cards and challenges. -/
inductive Deed
  | cardRegistered (memberId cardNick secretKey token : String)
  | cardCompleted (token billKey cno : String)
  | cardRenamed (token cardNick : String)
  | cardDeleted (token : String)
  | resetOpened (memberId nonce secretKeyNew : String)
  | passwordReset (memberId nonce : String)
  | paymentOpened (memberId nonce orderId : String)
  | paymentClosed (memberId : String)
  deriving DecidableEq

/-- Read off a request and a reply of success. -/
def successOf (actionType step : String) (request reply : JsonObject) : Option Deed := do
  if actionType = "CardRegist" ∧ step = "1" then
    return .cardRegistered (← request.get "memberId") (← request.get "cardNick")
      (← request.get "secretKey") (← reply.get "token")
  else if actionType = "CardRegist" ∧ step = "2" then
    return .cardCompleted (← request.get "r_order_no") (← request.get "r_card_no")
      (← request.get "r_cno")
  else if actionType = "ChangeCardNickname" then
    return .cardRenamed (← request.get "cardToken") (← request.get "cardNick")
  else if actionType = "DeleteCardOne" then
    return .cardDeleted (← request.get "cardToken")
  else if actionType = "InitializePwdSimplePay" ∧ step = "1" then
    return .resetOpened (← request.get "memberId") (← reply.get "nonce")
      (← request.get "secretKeyNew")
  else if actionType = "InitializePwdSimplePay" ∧ step = "ini" then
    return .passwordReset (← request.get "memberId") (← request.get "nonce")
  else if actionType = "RequestPay" ∧ step = "1" then
    return .paymentOpened (← request.get "memberId") (← reply.get "nonce") (← request.get "orderId")
  else none

/-- Read off a request and its reply: a second step of a payment counts however it is answered,
everything else if it is answered with success. -/
def deedOf (request reply : JsonObject) : Option Deed := do
  let actionType ← request.get "actionType"
  let step ← request.get "step"
  if actionType = "RequestPay" ∧ step = "2" then
    return .paymentClosed (← request.get "memberId")
  else if reply.get "result" ≠ some "200" then none
  else successOf actionType step request reply

/-- The request that the dispatch sees. -/
def ControllerCall.request : ControllerCall → Option JsonObject
  | .handleCardRequest clientIp request => request.addProperty "client_ip" clientIp
  | .handleRegistBillKey clientIp request =>
    ((request.addProperty "actionType" "CardRegist").addProperty "step" "2").addProperty
      "client_ip" clientIp
  | .initializePasswordStep2 _ _ _ => none

def ControllerCall.deed (call : ControllerCall) : Except HandlerException JsonObject → Option Deed
  | .error _ => none
  | .ok reply =>
    match call with
    | .initializePasswordStep2 userId _ nonce =>
      if reply.get "result" = some "200" then some (.passwordReset userId nonce) else none
    | call => call.request.bind fun request => deedOf request reply

/-- What has been done, the newest first. -/
def ControllerWorld.deeds (w : ControllerWorld) : List Deed := w.done.filterMap fun d => d.1.deed d.2

/-- What a deed has found in the store and what it leaves there. -/
inductive Did (env : Env) (s : Store) : Option Deed → Store → Prop
  | nothing {s' : Store} (hm : s'.memory = s.memory) (hc : s'.cards = s.cards) : Did env s none s'
  | cardRegistered {memberId cardNick secretKey token : String} {s' : Store} (hm : s'.memory = s.memory)
      (hc : s'.cards = s.cards ++ [env.insertedCard
        { MEMBER_ID := memberId, CARD_NICK := cardNick, SECRET_KEY := secretKey, CARD_TOKEN := token,
          BILL_KEY := token }]) :
      Did env s (some (.cardRegistered memberId cardNick secretKey token)) s'
  | cardCompleted {token billKey cno issuerCd issuerNm : String} {card : CardVo} {s' : Store}
      (hcard : oneCard s.cards token = some card) (hflag : card.USE_FLAG = "N")
      (hm : s'.memory = s.memory)
      (hc : s'.cards = s.cards.map (CardVo.update
        { card with BILL_KEY := billKey, ISSUER_CD := issuerCd, ISSUER_NM := issuerNm, CNO := cno,
                    USE_FLAG := "Y" })) :
      Did env s (some (.cardCompleted token billKey cno)) s'
  | cardRenamed {token cardNick : String} {card : CardVo} {s' : Store}
      (hcard : oneCard s.cards token = some card) (hm : s'.memory = s.memory)
      (hc : s'.cards = s.cards.map (CardVo.update { card with CARD_NICK := cardNick })) :
      Did env s (some (.cardRenamed token cardNick)) s'
  | cardDeleted {token : String} {card : CardVo} {s' : Store}
      (hcard : oneCard s.cards token = some card) (hflag : card.USE_FLAG ≠ "D")
      (hm : s'.memory = s.memory)
      (hc : s'.cards = s.cards.map (CardVo.update { card with USE_FLAG := "D" })) :
      Did env s (some (.cardDeleted token)) s'
  | resetOpened {memberId nonce secretKeyNew : String} {s' : Store}
      (hm : s'.memory = Function.update s.memory memberId
        (some ⟨"InitializePwdSimplePay", "1", nonce, secretKeyNew⟩)) (hc : s'.cards = s.cards) :
      Did env s (some (.resetOpened memberId nonce secretKeyNew)) s'
  | passwordReset {memberId nonce : String} {memVo : MoaMemoryVo} {s' : Store}
      (hentry : s.memory memberId = some memVo)
      (hmatch : memVo.actionType = "InitializePwdSimplePay" ∧ memVo.memory1 = nonce)
      (hm : s'.memory = s.memory)
      (hc : s'.cards = s.cards.map
        (CardVo.changePwd { MEMBER_ID := memberId, SECRET_KEY := memVo.memory2 })) :
      Did env s (some (.passwordReset memberId nonce)) s'
  | paymentOpened {memberId nonce orderId : String} {s' : Store}
      (hm : s'.memory = Function.update s.memory memberId
        (some ⟨"requestPayment", "1", nonce, orderId⟩)) (hc : s'.cards = s.cards) :
      Did env s (some (.paymentOpened memberId nonce orderId)) s'
  | paymentClosed {memberId : String} {s' : Store}
      (hm : s'.memory = Function.update s.memory memberId none) (hc : s'.cards = s.cards) :
      Did env s (some (.paymentClosed memberId)) s'

/-! ## Reading a deed off -/

section

variable {request reply : JsonObject}

/-- A failure has done nothing, unless it is that of a payment. -/
theorem deedOf_refused (hreply : reply.get "result" ≠ some "200")
    (hstay : request.get "actionType" = some "RequestPay" → request.get "step" = some "2" →
      request.get "memberId" = none) : deedOf request reply = none := by
  unfold deedOf
  cases hact : request.get "actionType" with
  | none => rfl
  | some actionType =>
    cases hstep : request.get "step" with
    | none => rfl
    | some step =>
      show (if actionType = "RequestPay" ∧ step = "2" then _ else _) = none
      split
      · next h => rw [hstay (hact.trans (by rw [h.1])) (hstep.trans (by rw [h.2]))]; rfl
      · rfl

theorem deedOf_success {actionType step : String} (hact : request.get "actionType" = some actionType)
    (hstep : request.get "step" = some step) (hpay : ¬ (actionType = "RequestPay" ∧ step = "2"))
    (hreply : reply.get "result" = some "200") :
    deedOf request reply = successOf actionType step request reply := by
  unfold deedOf
  rw [hact, hstep]
  show (if _ then _ else if _ then _ else _) = _
  rw [if_neg hpay, if_neg (not_not.mpr hreply)]

theorem deedOf_closed {memberId : String} (hact : request.get "actionType" = some "RequestPay")
    (hstep : request.get "step" = some "2") (hmember : request.get "memberId" = some memberId) :
    deedOf request reply = some (.paymentClosed memberId) := by
  unfold deedOf
  rw [hact, hstep, hmember]
  rfl

end

/-! ## The handlers -/

/-- The program replies, and has done what can be read off its reply. -/
def Does (env : Env) (request : JsonObject) (p : HandlerProg JsonObject) (s : Store) : Prop :=
  Prog.Ends (perform env) (fun reply s' => Did env s (deedOf request reply) s') (fun _ _ => False) p s

section

variable {env : Env} {request result : JsonObject} {s : Store}

/-- A bad request that is answered where nothing has changed. -/
theorem did_bad {code message : String} {s' : Store} (hsame : s.Same s') (hcode : code ≠ "200")
    (hstay : request.get "actionType" = some "RequestPay" → request.get "step" = some "2" →
      request.get "memberId" = none) :
    Did env s (deedOf request (setBadRequest result code message)) s' := by
  rw [deedOf_refused (by rw [get_setBadRequest]; simpa using hcode) hstay]
  exact .nothing hsame.1 hsame.2.1

/-- Thrown before anything has changed, an exception is a refusal. -/
theorem does_of_body {body : HandlerProg JsonObject} {message : HandlerException → String}
    (hbody : Prog.Ends (perform env) (fun reply s' => Did env s (deedOf request reply) s')
      (fun _ s' => s.Same s') body s)
    (hstay : request.get "actionType" ≠ some "RequestPay") :
    Does env request (Prog.tryCatch body fun e => .ret (setBadRequest result "400" (message e))) s := by
  apply Prog.Ends.tryCatch hbody
  intro e s' hsame
  exact did_bad hsame (by decide) fun h => absurd h hstay

theorem did_as {reply : JsonObject} {deed : Option Deed} {s' : Store} (hdeed : deedOf request reply = deed)
    (h : Did env s deed s') : Did env s (deedOf request reply) s' := by
  rw [hdeed]
  exact h

theorem stay_of_actionType {actionType : String} (hact : request.get "actionType" = some actionType)
    (hne : actionType ≠ "RequestPay") : request.get "actionType" ≠ some "RequestPay" := by
  rw [hact]
  exact fun h => hne (Option.some.inj h)

theorem does_getCardList (hact : request.get "actionType" = some "SelectCardList") :
    Does env request (getCardList request result) s := by
  have hstay := stay_of_actionType hact (by decide)
  refine does_of_body ?_ hstay
  apply ends_getAsString
  intro step hstep
  apply Prog.Ends.ite
  · rintro rfl
    apply ends_getAsString
    intro memberId hmember
    have hnone : deedOf request (setSuccessRequest (result.addProperty "memberId" memberId)) = none :=
      deedOf_success hact hstep (by decide) (by simp)
    exact did_as hnone (.nothing rfl rfl)
  · intro h1
    exact did_bad (Store.Same.refl s) (by decide) fun h => absurd h hstay

theorem does_changeCardNick (hact : request.get "actionType" = some "ChangeCardNickname") :
    Does env request (changeCardNick request result) s := by
  have hstay := stay_of_actionType hact (by decide)
  refine does_of_body ?_ hstay
  apply ends_getAsString
  intro step hstep
  apply Prog.Ends.ite
  · rintro rfl
    apply ends_getAsString
    intro memberId hmember
    apply ends_getAsString
    intro token htoken
    apply ends_getAsString
    intro nick hnick
    apply Prog.Ends.bind_ok (run_getUserCardInfoOne env _ s)
    refine Prog.Ends.orFail_bind (fun _ => Store.Same.refl s) ?_
    intro card hcard
    refine Prog.Ends.ite (fun _ => Store.Same.refl s) ?_
    intro hown
    apply ends_update
    have hdeed : deedOf request (setSuccessRequest result) = some (.cardRenamed token nick) := by
      rw [deedOf_success hact hstep (by decide) (by simp)]
      simp [successOf, htoken, hnick]
    exact did_as hdeed (.cardRenamed hcard rfl rfl)
  · intro h1
    exact did_bad (Store.Same.refl s) (by decide) fun h => absurd h hstay

theorem does_deleteCardOne (hact : request.get "actionType" = some "DeleteCardOne") :
    Does env request (deleteCardOne request result) s := by
  refine does_of_body ?_ (stay_of_actionType hact (by decide))
  apply ends_getAsString
  intro step hstep
  refine Prog.Ends.ite ?_ (fun _ => Store.Same.refl s)
  rintro rfl
  apply ends_getAsString
  intro memberId hmember
  apply ends_getAsString
  intro token htoken
  apply Prog.Ends.bind_ok (run_getUserCardInfoOne env _ s)
  refine Prog.Ends.orFail_bind (fun _ => Store.Same.refl s) ?_
  intro card hcard
  refine Prog.Ends.ite (fun _ => Store.Same.refl s) ?_
  intro hown
  refine Prog.Ends.ite (fun _ => Store.Same.refl s) ?_
  intro hflag
  apply ends_update
  have hdeed : deedOf request (setSuccessRequest result) = some (.cardDeleted token) := by
    rw [deedOf_success hact hstep (by decide) (by simp)]
    simp [successOf, htoken]
  exact did_as hdeed (.cardDeleted hcard hflag rfl rfl)

theorem does_registCard (hact : request.get "actionType" = some "CardRegist") :
    Does env request (registCard env request result) s := by
  refine does_of_body ?_ (stay_of_actionType hact (by decide))
  apply ends_getAsString
  intro step hstep
  apply Prog.Ends.ite
  · rintro rfl
    apply ends_getAsString
    intro memberId hmember
    apply ends_getAsString
    intro cardNick hnick
    apply ends_getAsString
    intro secretKey hsecret
    have hdeed : deedOf request (setSuccessRequest ((result.addProperty "token" (env.uuid s.calls)).addProperty
        "returnURL" env.cardRegistReturnUrl)) =
          some (.cardRegistered memberId cardNick secretKey (env.uuid s.calls)) := by
      rw [deedOf_success hact hstep (by decide) (by simp)]
      simp [successOf, hmember, hnick, hsecret, get_setSuccessRequest_ne, JsonObject.get_addProperty_ne]
    exact did_as hdeed (.cardRegistered rfl rfl)
  intro h1
  refine Prog.Ends.ite ?_ (fun _ => Store.Same.refl s)
  rintro rfl
  apply ends_getAsString
  intro resCd hcd
  apply Prog.Ends.ite
  · intro hbad
    apply ends_getAsString
    intro resMsg hmsg
    exact Store.Same.refl s
  intro hok
  apply ends_getAsString
  intro token htoken
  apply Prog.Ends.bind_ok (run_getUserCardInfoOne env _ s)
  refine Prog.Ends.orFail_bind (fun _ => Store.Same.refl s) ?_
  intro card hcard
  refine Prog.Ends.ite (fun _ => Store.Same.refl s) ?_
  intro hflag
  apply ends_getAsString
  intro billKey hbill
  apply ends_getAsString
  intro issuerCd hissuer
  apply ends_getAsString
  intro issuerNm hname
  apply ends_getAsString
  intro cno hcno
  apply ends_update
  have hdeed : deedOf request (setSuccessRequest result) = some (.cardCompleted token billKey cno) := by
    rw [deedOf_success hact hstep (by decide) (by simp)]
    simp [successOf, htoken, hbill, hcno]
  exact did_as hdeed (.cardCompleted hcard (not_not.mp hflag) rfl rfl)

/-- The second step resets the password if the entry is one of a reset and has the nonce, and
otherwise changes nothing. -/
theorem reset_ends (env : Env) (userId kgId nonce : String) (s : Store) :
    Prog.Ends (perform env)
      (fun reply s' => (reply.get "result" ≠ some "200" ∧ s.Same s') ∨
        reply.get "result" = some "200" ∧ Did env s (some (.passwordReset userId nonce)) s')
      (fun _ s' => s.Same s') (initializePasswordStep2 userId kgId nonce) s := by
  apply Prog.Ends.query_bind
  refine Prog.Ends.orFail_bind (fun _ => Store.Same.refl s) ?_
  intro memVo hentry
  apply Prog.Ends.ite
  · intro hmatch
    exact Or.inr ⟨by simp, .passwordReset hentry hmatch rfl rfl⟩
  · intro hdiffers
    exact Or.inl ⟨by simp, Store.Same.refl s⟩

theorem does_initializePassword (hact : request.get "actionType" = some "InitializePwdSimplePay") :
    Does env request (initializePassword request result) s := by
  have hstay := stay_of_actionType hact (by decide)
  refine does_of_body ?_ hstay
  apply ends_getAsString
  intro step hstep
  apply Prog.Ends.ite
  · rintro rfl
    apply ends_getAsString
    intro memberId hmember
    apply Prog.Ends.query_bind
    refine Prog.Ends.orFail_bind (fun _ => Store.Same.refl s) ?_
    intro listCardVo hlist
    refine Prog.Ends.ite ?_ (fun _ => Store.Same.refl s)
    intro hsome
    apply Prog.Ends.query_bind
    refine Prog.Ends.orFail_bind (fun _ => ⟨rfl, rfl, rfl⟩) ?_
    intro secretKeyNew hnew
    have hdeed : deedOf request (setSuccessRequest (result.addProperty "nonce" (env.uuid s.calls))) =
        some (.resetOpened memberId (env.uuid s.calls) secretKeyNew) := by
      rw [deedOf_success hact hstep (by decide) (by simp)]
      simp [successOf, hmember, hnew, get_setSuccessRequest_ne]
    exact did_as hdeed (.resetOpened rfl rfl)
  intro h1
  apply Prog.Ends.ite
  · rintro rfl
    apply ends_getAsString
    intro memberId hmember
    apply ends_getAsString
    intro nonce hnonce
    apply Prog.Ends.bind (reset_ends env memberId _ nonce s)
    rintro reply s' (⟨hbad, hsame⟩ | ⟨hgood, hdid⟩)
    · rw [if_neg hbad]
      exact did_bad hsame (by decide) fun h => absurd h hstay
    · rw [if_pos hgood]
      have hdeed : deedOf request (setSuccessRequest result) = some (.passwordReset memberId nonce) := by
        rw [deedOf_success hact hstep (by decide) (by simp)]
        simp [successOf, hmember, hnonce]
      exact did_as hdeed hdid
  · intro hini
    exact did_bad (Store.Same.refl s) (by decide) fun h => absurd h hstay

/-- The first step of a payment stores its challenge, and after the second step there is none,
however it is answered. -/
theorem does_requestPayment (hact : request.get "actionType" = some "RequestPay") :
    Does env request (requestPayment request result) s := by
  refine Prog.Ends.tryCatch
    (?_ : Prog.Ends _ _ (fun e s' => Did env s (deedOf request (badPayment result e)) s') _ s)
    (fun _ _ h => h)
  refine Prog.Ends.orFail_bind (fun hnone => did_bad (Store.Same.refl s) (by decide) ?_) ?_
  · intro _ hstep
    cases hnone.symm.trans hstep
  intro step hstep
  refine Prog.Ends.orFail_bind (fun hnone => did_bad (Store.Same.refl s) (by decide) fun _ _ => hnone) ?_
  intro memberId hmember
  apply Prog.Ends.ite
  · rintro rfl
    have hstay : request.get "actionType" = some "RequestPay" → request.get "step" = some "2" →
        request.get "memberId" = none := by
      rw [hstep]
      exact fun _ h => absurd h (by decide)
    refine Prog.Ends.orFail_bind (fun _ => did_bad (Store.Same.refl s) (by decide) hstay) ?_
    intro payKind hkind
    refine Prog.Ends.ite (fun _ => did_bad (Store.Same.refl s) (by decide) hstay) ?_
    intro hcard
    refine Prog.Ends.orFail_bind (fun _ => did_bad (Store.Same.refl s) (by decide) hstay) ?_
    intro orderId horder
    apply Prog.Ends.query_bind
    apply Prog.Ends.query_bind
    apply Prog.Ends.query_bind
    simp only [perform, Function.update_self]
    have hdeed : deedOf request (setSuccessRequest (result.addProperty "nonce" (env.uuid s.calls))) =
        some (.paymentOpened memberId (env.uuid s.calls) orderId) := by
      rw [deedOf_success hact hstep (by decide) (by simp)]
      simp [successOf, hmember, horder, get_setSuccessRequest_ne]
    exact did_as hdeed (.paymentOpened rfl rfl)
  intro h1
  apply Prog.Ends.ite
  · rintro rfl
    have hclosed {reply : JsonObject} {s' : Store}
        (hm : s'.memory = Function.update s.memory memberId none) (hc : s'.cards = s.cards) :
        Did env s (deedOf request reply) s' :=
      did_as (deedOf_closed hact hstep hmember) (.paymentClosed hm hc)
    refine Prog.Ends.bind ((verifySecureKey_ends hmember).mono (fun _ _ h => h) ?_) ?_
    · rintro e _ rfl
      exact hclosed rfl rfl
    rintro _ _ ⟨rfl, memoryVo, cardVo, hverifies, rfl⟩
    refine Prog.Ends.bind ((getKiccTranSendVo_ends env request _ _).mono (fun _ _ h => h) ?_) ?_
    · rintro e s₁ ⟨hm₁, hc₁, ha₁⟩
      exact hclosed hm₁ hc₁
    rintro vo s₁ ⟨⟨hm₁, hc₁, ha₁⟩, orderId, n, info, ip, horder, hinfo, hvo⟩
    apply Prog.Ends.bind ((sendRequestToKICC_ends env vo s₁).mono (fun _ _ h => h)
      (fun e _ h => hclosed (h.1.trans hm₁) (h.2.1.trans hc₁)))
    intro _ s₂ h
    exact hclosed (h.1.trans hm₁) (h.2.1.trans hc₁)
  · intro h2
    refine did_bad (Store.Same.refl s) (by decide) fun _ h => ?_
    exact absurd (Option.some.inj (hstep.symm.trans h)) h2

/-- The dispatch, on a request that has an action type. -/
theorem does_switchAction {actionType : String} (hact : request.get "actionType" = some actionType) :
    Does env request (switchAction env request result) s := by
  refine Prog.Ends.orFail_bind_some hact ?_
  refine Prog.Ends.ite (fun h => does_registCard (by rw [hact, h])) (fun h1 => ?_)
  refine Prog.Ends.ite (fun h => does_getCardList (by rw [hact, h])) (fun h2 => ?_)
  refine Prog.Ends.ite (fun h => does_requestPayment (by rw [hact, h])) (fun h3 => ?_)
  refine Prog.Ends.ite (fun h => does_deleteCardOne (by rw [hact, h])) (fun h4 => ?_)
  refine Prog.Ends.ite (fun h => does_changeCardNick (by rw [hact, h])) (fun h5 => ?_)
  refine Prog.Ends.ite (fun h => does_initializePassword (by rw [hact, h])) (fun h6 => ?_)
  exact did_bad (Store.Same.refl s) (by decide) fun h => absurd h (stay_of_actionType hact h3)

end

/-! ## The controller -/

/-- The address that is added hides no other member. -/
theorem get_client_ip {request : JsonObject} {key value : String} (clientIp : String)
    (hne : key ≠ "client_ip") (h : request.get key = some value) :
    (request.addProperty "client_ip" clientIp).get key = some value := by
  rw [JsonObject.get_addProperty_ne _ _ hne, h]

theorem run_cloneJsonCommon (env : Env) (s : Store) {request : JsonObject} {actionType step : String}
    (hact : request.get "actionType" = some actionType) (hstep : request.get "step" = some step) :
    (cloneJsonCommon request).run (perform env) s =
      (.ok ((JsonObject.addProperty [] "actionType" actionType).addProperty "step" step), s) := by
  rw [cloneJsonCommon, getAsString, getAsString, hact, hstep]
  rfl

/-- The common members are there, or nothing can be read off. -/
theorem cloneJsonCommon_ends (env : Env) (request : JsonObject) (s : Store) :
    Prog.Ends (perform env)
      (fun _ s' => s' = s ∧ ∃ actionType, request.get "actionType" = some actionType)
      (fun _ s' => s' = s ∧ ∀ reply, deedOf request reply = none) (cloneJsonCommon request) s := by
  cases hact : request.get "actionType" with
  | none =>
    have hnone (reply : JsonObject) : deedOf request reply = none := by
      rw [deedOf, hact]
      rfl
    rw [cloneJsonCommon, getAsString, hact]
    exact ⟨rfl, hnone⟩
  | some actionType =>
    cases hstep : request.get "step" with
    | none =>
      have hnone (reply : JsonObject) : deedOf request reply = none := by
        rw [deedOf, hact, hstep]
        rfl
      rw [cloneJsonCommon, getAsString, getAsString, hact, hstep]
      exact ⟨rfl, hnone⟩
    | some step =>
      unfold Prog.Ends
      rw [run_cloneJsonCommon env s hact hstep]
      exact ⟨rfl, actionType, rfl⟩

theorem does_handleCardRequest (env : Env) (clientIp : String) (jsonObjectRequest : JsonObject)
    (s : Store) :
    Does env (jsonObjectRequest.addProperty "client_ip" clientIp)
      (handleCardRequest env clientIp jsonObjectRequest) s := by
  unfold handleCardRequest
  generalize jsonObjectRequest.addProperty "client_ip" clientIp = request
  refine Prog.Ends.tryCatch
    (?_ : Prog.Ends _ _ (fun _ s' => s' = s ∧ ∀ reply, deedOf request reply = none) _ s) ?_
  · refine Prog.Ends.bind (cloneJsonCommon_ends env request s) ?_
    rintro resultJsonObj _ ⟨rfl, actionType, hact⟩
    exact (does_switchAction hact).mono (fun _ _ h => h) fun _ _ h => h.elim
  · rintro e _ ⟨rfl, hnone⟩
    exact did_as (hnone _) (.nothing rfl rfl)

/-- **What a call has done** can be read off what it returned or threw. -/
theorem did (env : Env) (call : ControllerCall) (s : Store) :
    Did env s (call.deed ((call.prog env).run (perform env) s).1)
      ((call.prog env).run (perform env) s).2 := by
  cases call with
  | handleCardRequest clientIp request =>
    obtain ⟨reply, s', hrun, hdid⟩ := (does_handleCardRequest env clientIp request s).returns
    rw [ControllerCall.prog, hrun]
    exact hdid
  | handleRegistBillKey clientIp request =>
    obtain ⟨reply, s', hrun, hdid⟩ := (does_handleCardRequest env clientIp _ s).returns
    rw [ControllerCall.prog, handleRegistBillKey, hrun]
    exact hdid
  | initializePasswordStep2 userId kgId nonce =>
    have hends := reset_ends env userId kgId nonce s
    unfold Prog.Ends at hends
    rw [ControllerCall.prog]
    rcases hrun : (initializePasswordStep2 userId kgId nonce).run (perform env) s with ⟨e | reply, s'⟩
    · rw [hrun] at hends
      exact .nothing hends.1 hends.2.1
    · rw [hrun] at hends
      rcases hends with ⟨hbad, hsame⟩ | ⟨hgood, hdid⟩
      · have hnone : (ControllerCall.initializePasswordStep2 userId kgId nonce).deed (.ok reply) = none :=
          if_neg hbad
        rw [hnone]
        exact .nothing hsame.1 hsame.2.1
      · have hdeed : (ControllerCall.initializePasswordStep2 userId kgId nonce).deed (.ok reply) =
            some (.passwordReset userId nonce) := if_pos hgood
        rw [hdeed]
        exact hdid

end MoaCrypto.SimplePay
