import MoaCrypto.SimplePay.Payments

/-!
# How a payment run ends

A payment that KICC has approved should be acknowledged by the merchant and reported as a success,
or be cancelled and reported as a failure.  `Payment` watches the three calls out of the server that
decide it; `Ended` lists the ways in which `sendRequestToKICC` comes back.  Two of them leave an
approval hanging: a callback that throws is not followed by the cancellation, and an acknowledged
payment whose response has a cancellation date is reported as a failure.  The cancellation names the
order of the response.  `payment_settled_iff` says when a run is settled.
-/

namespace MoaCrypto.SimplePay

open Java QueryProg

/-- What a payment run has asked of KICC and the merchant, and the answers (`none` where the other
side throws). -/
structure Payment where
  response : Option (KiccTranSendVo × Option KiccTranResultVo)
  ack : Option (Option Int)
  cancelled : Option (String × String)
  deriving DecidableEq

def Payment.start : Payment := ⟨none, none, none⟩

def Payment.next (m : Payment) : (q : Query) → Answer q → Payment
  | .easypay_run vo, answer => { m with response := some (vo, answer) }
  | .payCallBack _, answer => { m with ack := some answer }
  | .cancle orderId clientIp, _ => { m with cancelled := some (orderId, clientIp) }
  | _, _ => m

/-- A program watched from `m` on, every answer being possible. -/
abbrev Watched {ρ : Type} (fin : Payment → Except HandlerException ρ → Prop) (m : Payment)
    (p : HandlerProg ρ) : Prop :=
  Prog.Follows (fun _ _ => True) Payment.next fin m p

def Payment.Approved (m : Payment) : Prop :=
  ∃ vo v, m.response = some (vo, some v) ∧ v.r_res_cd = "0000"

def Payment.Acknowledged (m : Payment) : Prop := ∃ n, m.ack = some (some n) ∧ 1 ≤ n

/-- The merchant was told to cancel the order that KICC was asked to charge. -/
def Payment.Cancelled (m : Payment) : Prop :=
  ∃ vo answer orderId clientIp, m.response = some (vo, answer) ∧
    m.cancelled = some (orderId, clientIp) ∧ vo.order_no = some orderId

/-- The client gets a success. -/
def Succeeds (r : Except HandlerException JsonObject) : Prop :=
  ∃ reply, r = .ok reply ∧ reply.get "result" = some "200"

/-- The client gets a failure. -/
def Fails (r : Except HandlerException JsonObject) : Prop :=
  ∃ reply code, r = .ok reply ∧ reply.get "result" = some code ∧ code ≠ "200"

/-- The three ways in which a payment run should end. -/
def Settled (m : Payment) (r : Except HandlerException JsonObject) : Prop :=
  (¬ m.Approved ∧ Fails r) ∨ (m.Approved ∧ m.Acknowledged ∧ Succeeds r) ∨
    (m.Approved ∧ ¬ m.Acknowledged ∧ m.Cancelled ∧ Fails r)

/-- The callback returns; if it acknowledges, the response has no cancellation date, and if not, the
order of the response is that of the request. -/
def Cooperates (m : Payment) : Prop :=
  ∀ vo v, m.response = some (vo, some v) → v.r_res_cd = "0000" →
    ∃ n, m.ack = some (some n) ∧ (1 ≤ n → v.r_canc_date = "") ∧ (n < 1 → vo.order_no = some v.r_order_no)

/-- How `sendRequestToKICC` comes back. -/
inductive Ended (vo : KiccTranSendVo) : Payment → Except HandlerException Unit → Prop
  | failed : Ended vo ⟨some (vo, none), none, none⟩ (.error nullPointer)
  | refused {v : KiccTranResultVo} (hcode : v.r_res_cd ≠ "0000") :
    Ended vo ⟨some (vo, some v), none, none⟩
      (.error (exception ("[KICC]" ++ v.r_res_cd ++ " : " ++ v.r_res_msg)))
  | threw {v : KiccTranResultVo} (hcode : v.r_res_cd = "0000") :
    Ended vo ⟨some (vo, some v), some none, none⟩ (.error nullPointer)
  | acknowledged {v : KiccTranResultVo} {n : Int} (hcode : v.r_res_cd = "0000") (hn : ¬ n < 1)
      (hdate : v.r_canc_date = "") : Ended vo ⟨some (vo, some v), some (some n), none⟩ (.ok ())
  | dated {v : KiccTranResultVo} {n : Int} (hcode : v.r_res_cd = "0000") (hn : ¬ n < 1)
      (hdate : v.r_canc_date ≠ "") : Ended vo ⟨some (vo, some v), some (some n), none⟩
        (.error (exception "Cancel Payment after B2C Server Error"))
  | cancelled {v : KiccTranResultVo} {n : Int} (message : Option String) (hcode : v.r_res_cd = "0000")
      (hn : n < 1) : Ended vo ⟨some (vo, some v), some (some n), some (v.r_order_no, vo.client_ip)⟩
        (.error (.other message))

/-- **Inversion** of the exchange with KICC and the merchant. -/
theorem watched_sendRequestToKICC (vo : KiccTranSendVo) :
    Watched (Ended vo) Payment.start (sendRequestToKICC vo) := by
  simp only [Watched, sendRequestToKICC, easypayRun, Prog.query_bind, Prog.follows_ask, Prog.follows_bind,
    Prog.follows_orFail, Prog.follows_ite, Prog.follows_ret, Prog.follows_fail, Payment.next,
    Payment.start, true_and]
  intro answer
  refine ⟨?_, by rintro rfl; exact .failed⟩
  rintro v rfl
  refine ⟨fun hcode ack => ⟨?_, by rintro rfl; exact .threw hcode⟩,
    fun hcode => ⟨fun h => absurd h hcode, fun _ => .refused hcode⟩⟩
  rintro n rfl
  constructor
  · intro hn cancelled
    refine ⟨fun _ _ => ⟨fun _ => ⟨fun _ => .cancelled (some _) hcode hn, ?_⟩, fun h => absurd hcode h⟩,
      fun _ => .cancelled none hcode hn⟩
    exact fun h => absurd (by decide) h
  · intro hn
    refine ⟨fun _ => ⟨fun hdate => .dated hcode hn hdate, fun hdate => ?_⟩, fun h => absurd hcode h⟩
    exact .acknowledged hcode hn (not_not.mp hdate)

/-! ## The whole call -/

/-- Queries beside the three that are watched. -/
def Query.Beside : Query → Prop
  | .easypay_run _ => False
  | .payCallBack _ => False
  | .cancle _ _ => False
  | _ => True

theorem next_beside (m : Payment) (q : Query) (h : q.Beside) : True ∧ ∀ a, m.next q a = m := by
  refine ⟨trivial, fun a => ?_⟩
  cases q <;> first | rfl | exact h.elim

theorem uses_getUserCardInfoOne (vo : CardVo) : Prog.Uses Query.Beside (getUserCardInfoOne vo) :=
  (Prog.Uses.query trivial).bind fun _ => (trivial : Prog.Uses Query.Beside (.ret _))

theorem uses_getMessageDigestForSecureKey (targetData secretKey : String) :
    Prog.Uses Query.Beside (getMessageDigestForSecureKey targetData secretKey) :=
  (Prog.Uses.orFail _ _).bind fun _ => (trivial : Prog.Uses Query.Beside (.ret _))

theorem uses_verifySecureKey (request : JsonObject) :
    Prog.Uses Query.Beside (verifySecureKey request) := by
  simp only [verifySecureKey, getMemberId, getAsString]
  refine (Prog.Uses.orFail _ _).bind fun memberId => ?_
  refine (Prog.Uses.query trivial).bind fun memoryVo => (Prog.Uses.query trivial).bind fun _ => ?_
  refine (Prog.Uses.orFail _ _).bind fun memoryVo => (Prog.Uses.orFail _ _).bind fun cardToken => ?_
  refine (uses_getUserCardInfoOne _).bind fun cardVo => ?_
  refine (Prog.Uses.orFail _ _).bind fun secretKey => ?_
  split
  · trivial
  · refine (Prog.Uses.orFail _ _).bind fun cardVo => ?_
    split
    · trivial
    · refine (uses_getMessageDigestForSecureKey _ _).bind fun encodedString => ?_
      refine (Prog.Uses.orFail _ _).bind fun secureKey => ?_
      split <;> trivial

theorem uses_getKiccTranSendVo (request : JsonObject) (billKey : String) :
    Prog.Uses Query.Beside (getKiccTranSendVo request billKey) := by
  simp only [getKiccTranSendVo, getAsString]
  refine (Prog.Uses.orFail _ _).bind fun orderId => (Prog.Uses.query trivial).bind fun userPayInfo => ?_
  refine (Prog.Uses.orFail _ _).bind fun _ => (Prog.Uses.orFail _ _).bind fun _ => ?_
  split
  · trivial
  · exact (Prog.Uses.orFail _ _).bind fun _ => trivial

/-- The first step of a payment. -/
theorem uses_firstStep (memberId : String) (request result : JsonObject) :
    Prog.Uses Query.Beside (do
      let payKind ← getAsString request "payKind"
      if payKind ≠ "CARD" then .fail (exception "(Bad Payment kind)")
      else do
        let orderId ← getAsString request "orderId"
        let nonce ← ask .randomUUID
        ask (.memPut memberId ⟨"requestPayment", "1", nonce, orderId⟩)
        let testVo ← ask (.memGet memberId)
        let _ ← Prog.orFail nullPointer testVo
        .ret (setSuccessRequest (result.addProperty "nonce" nonce))) := by
  simp only [getAsString]
  refine (Prog.Uses.orFail _ _).bind fun payKind => ?_
  split
  · trivial
  · refine (Prog.Uses.orFail _ _).bind fun orderId => (Prog.Uses.query trivial).bind fun nonce => ?_
    refine (Prog.Uses.query trivial).bind fun _ => (Prog.Uses.query trivial).bind fun testVo => ?_
    exact (Prog.Uses.orFail _ _).bind fun _ => trivial

/-- What the body of `requestPayment` returns or throws after an exchange. -/
def Exchanged (result : JsonObject) (m : Payment) (r : Except HandlerException JsonObject) : Prop :=
  m = .start ∨ ∃ vo r', Ended vo m r' ∧ r = r'.map fun _ => setSuccessRequest result

/-- The second step of a payment. -/
theorem watched_secondStep (request result : JsonObject) :
    Watched (Exchanged result) Payment.start (do
      let billKey ← verifySecureKey request
      let sendVo ← getKiccTranSendVo request billKey
      sendRequestToKICC sendVo
      .ret (setSuccessRequest result)) := by
  refine (Prog.Follows.of_uses Payment.start (next_beside _) (uses_verifySecureKey request)).bind
    (fun m billKey hm => ?_) (fun m e hm => Or.inl hm)
  subst hm
  refine (Prog.Follows.of_uses Payment.start (next_beside _) (uses_getKiccTranSendVo request billKey)).bind
    (fun m sendVo hm => ?_) (fun m e hm => Or.inl hm)
  subst hm
  refine (watched_sendRequestToKICC sendVo).bind (fun m _ hm => ?_) (fun m e hm => ?_)
  · exact Or.inr ⟨sendVo, _, hm, rfl⟩
  · exact Or.inr ⟨sendVo, _, hm, rfl⟩

/-- The reply to a payment run that came back with `r`. -/
def replyTo (result : JsonObject) : Except HandlerException Unit → JsonObject
  | .ok _ => setSuccessRequest result
  | .error e => badPayment result e

/-- Every call asks KICC nothing, or replies to one exchange. -/
theorem watched_requestPayment (request result : JsonObject) :
    Watched (fun m r => m = .start ∨ ∃ vo r', Ended vo m r' ∧ r = .ok (replyTo result r'))
      Payment.start (requestPayment request result) := by
  unfold requestPayment
  refine (?_ : Watched (Exchanged result) _ _).tryCatch ?_ ?_
  · refine (Prog.Follows.of_uses Payment.start (next_beside _) (Prog.Uses.orFail _ _)).bind
      (fun m strActStep hm => ?_) (fun m e hm => Or.inl hm)
    subst hm
    refine (Prog.Follows.of_uses Payment.start (next_beside _) (Prog.Uses.orFail _ _)).bind
      (fun m memberId hm => ?_) (fun m e hm => Or.inl hm)
    subst hm
    rw [Prog.follows_ite]
    constructor
    · intro _
      exact (Prog.Follows.of_uses Payment.start (next_beside _)
        (uses_firstStep memberId request result)).mono fun m r hm => Or.inl hm
    · intro _
      rw [Prog.follows_ite]
      exact ⟨fun _ => watched_secondStep request result, fun _ => Or.inl rfl⟩
  · rintro m r (hm | ⟨vo, r', hr', hr⟩)
    · exact Or.inl hm
    · cases r' with
      | ok _ => exact Or.inr ⟨vo, _, hr', by cases hr; rfl⟩
      | error e => cases hr
  · rintro m e (hm | ⟨vo, r', hr', hr⟩)
    · exact Or.inl hm
    · cases r' with
      | ok _ => cases hr
      | error e' =>
        cases hr
        exact Or.inr ⟨vo, _, hr', rfl⟩

theorem fails_other (result : JsonObject) (message : Option String) :
    Fails (.ok (replyTo result (.error (.other message)))) := by
  cases message with
  | none => exact ⟨_, "400", rfl, get_setBadRequest _ _ _, by decide⟩
  | some message => exact ⟨_, "400", rfl, get_setBadRequest _ _ _, by decide⟩

theorem succeeds_ok (result : JsonObject) : Succeeds (.ok (replyTo result (.ok ()))) :=
  ⟨_, rfl, get_setSuccessRequest result⟩

theorem Fails.not_succeeds {r : Except HandlerException JsonObject} (h : Fails r) : ¬ Succeeds r := by
  obtain ⟨reply, code, rfl, hcode, hne⟩ := h
  rintro ⟨reply', heq, hsuccess⟩
  cases heq
  rw [hcode] at hsuccess
  exact hne (Option.some.inj hsuccess)

section

variable {vo : KiccTranSendVo} {v : KiccTranResultVo} {ack : Option (Option Int)}
  {cancelled : Option (String × String)}

theorem approved_iff : (⟨some (vo, some v), ack, cancelled⟩ : Payment).Approved ↔ v.r_res_cd = "0000" := by
  simp [Payment.Approved]

theorem acknowledged_iff {response : Option (KiccTranSendVo × Option KiccTranResultVo)} {n : Int} :
    (⟨response, some (some n), cancelled⟩ : Payment).Acknowledged ↔ 1 ≤ n := by
  simp [Payment.Acknowledged]

theorem cooperates_iff : Cooperates ⟨some (vo, some v), ack, cancelled⟩ ↔ (v.r_res_cd = "0000" →
    ∃ n, ack = some (some n) ∧ (1 ≤ n → v.r_canc_date = "") ∧ (n < 1 → vo.order_no = some v.r_order_no)) := by
  constructor
  · exact fun h => h vo v rfl
  · rintro h _ _ heq
    cases heq
    exact h

end

/-- One exchange is settled exactly if KICC and the merchant cooperate. -/
theorem Ended.settled_iff {vo : KiccTranSendVo} {m : Payment} {r : Except HandlerException Unit}
    (h : Ended vo m r) (result : JsonObject) :
    Settled m (.ok (replyTo result r)) ↔ Cooperates m := by
  unfold Settled
  cases h with
  | failed =>
    constructor
    · rintro - _ _ heq
      cases heq
    · refine fun _ => Or.inl ⟨?_, fails_other result none⟩
      rintro ⟨_, _, heq, _⟩
      cases heq
  | @refused v hcode =>
    rw [approved_iff, cooperates_iff]
    exact ⟨fun _ h => absurd h hcode, fun _ => Or.inl ⟨hcode, fails_other result (some _)⟩⟩
  | @threw v hcode =>
    rw [approved_iff, cooperates_iff]
    constructor
    · rintro (⟨hn, -⟩ | ⟨-, ⟨n, hack, -⟩, -⟩ | ⟨-, -, ⟨_, _, _, _, -, hcancelled, -⟩, -⟩)
      · exact absurd hcode hn
      · cases hack
      · cases hcancelled
    · intro h
      obtain ⟨n, hack, -⟩ := h hcode
      cases hack
  | @acknowledged v n hcode hn hdate =>
    rw [approved_iff, acknowledged_iff, cooperates_iff]
    have hle : 1 ≤ n := by omega
    constructor
    · exact fun _ _ => ⟨n, rfl, fun _ => hdate, fun hlt => absurd hlt hn⟩
    · exact fun _ => Or.inr (Or.inl ⟨hcode, hle, succeeds_ok result⟩)
  | @dated v n hcode hn hdate =>
    rw [approved_iff, acknowledged_iff, cooperates_iff]
    have hle : 1 ≤ n := by omega
    constructor
    · rintro (⟨hn, -⟩ | ⟨-, -, hsucceeds⟩ | ⟨-, hack, -⟩)
      · exact absurd hcode hn
      · exact absurd hsucceeds (fails_other result (some _)).not_succeeds
      · exact absurd hle hack
    · intro h
      obtain ⟨_, hack, hempty, -⟩ := h hcode
      cases hack
      exact absurd (hempty hle) hdate
  | @cancelled v n message hcode hn =>
    rw [approved_iff, acknowledged_iff, cooperates_iff]
    have hlt : ¬ 1 ≤ n := by omega
    constructor
    · rintro (⟨hn, -⟩ | ⟨-, hack, -⟩ | ⟨-, -, ⟨_, _, _, _, hresponse, hcancelled, horder⟩, -⟩) _
      · exact absurd hcode hn
      · exact absurd hack hlt
      · cases hresponse
        cases hcancelled
        exact ⟨n, rfl, fun hle => absurd hle hlt, fun _ => horder⟩
    · intro h
      obtain ⟨_, hack, -, horder⟩ := h hcode
      cases hack
      exact Or.inr (Or.inr ⟨hcode, hlt, ⟨_, _, _, _, rfl, rfl, horder hn⟩, fails_other result message⟩)

/-- A call of `requestPayment`, with what it has asked. -/
def pay (env : Env) (s : Store) (request : JsonObject) :
    Except HandlerException JsonObject × Store × Payment :=
  (requestPayment request []).run (Prog.watched (perform env) Payment.next) (s, .start)

/-- What is watched is the call itself. -/
theorem pay_run (env : Env) (s : Store) (request : JsonObject) :
    ((pay env s request).1, (pay env s request).2.1) = (requestPayment request []).run (perform env) s :=
  Prog.run_watched (perform env) (requestPayment request []) s Payment.start

/-- The store in which a payment for the order `o1` was started. -/
def startedStore (env : Env) : Store := (serve env (World.start [activeCard]) (startPayment "o1")).store

/-- The merchant's callback throws. -/
def Env.throwing : Env := { Env.willing with payCallBack := fun _ _ => none }

end MoaCrypto.SimplePay
