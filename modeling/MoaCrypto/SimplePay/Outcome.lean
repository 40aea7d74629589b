import MoaCrypto.SimplePay.Handler

/-!
# What a call alone does

`Outcome env s call reply s'` lists every way in which a call from store `s` can
end, with what it has checked and what it leaves in the memory, in the card table
and at the gateway.  `outcome` says that each call ends in one of them; the handlers
are taken apart here and nowhere else.

    verifySecureKey_ends    what the secure-key check decides, and that it uses up the entry
    outcome                 every call
-/

namespace MoaCrypto.SimplePay

open Java QueryProg

/-- The row that `getUserCardOne` finds: the only one of the token. -/
def oneCard (cards : List CardVo) (token : String) : Option CardVo :=
  selectOne (some (cards.filter fun row => row.CARD_TOKEN = token))

theorem selectOne_eq_some {rows : Option (List CardVo)} {row : CardVo} :
    selectOne rows = some row ↔ rows = some [row] := by
  unfold selectOne
  split
  · next r => simp
  · next hne =>
    constructor
    · intro h
      cases h
    · intro h
      exact absurd h (hne row)

theorem oneCard_eq_some {cards : List CardVo} {token : String} {card : CardVo} :
    oneCard cards token = some card ↔
      (cards.filter fun row => row.CARD_TOKEN = token) = [card] := by
  rw [oneCard, selectOne_eq_some, Option.some.injEq]

theorem mem_of_oneCard {cards : List CardVo} {token : String} {card : CardVo}
    (h : oneCard cards token = some card) : card ∈ cards ∧ card.CARD_TOKEN = token := by
  have hmem : card ∈ cards.filter fun row => row.CARD_TOKEN = token := by
    rw [oneCard_eq_some.mp h]
    exact List.mem_cons_self
  simpa using List.mem_filter.mp hmem

theorem eq_of_oneCard {cards : List CardVo} {token : String} {card row : CardVo}
    (h : oneCard cards token = some card) (hrow : row ∈ cards) (htoken : row.CARD_TOKEN = token) :
    row = card := by
  have hmem : row ∈ cards.filter fun row => row.CARD_TOKEN = token :=
    List.mem_filter.mpr ⟨hrow, by simpa using htoken⟩
  rw [oneCard_eq_some.mp h] at hmem
  exact List.mem_singleton.mp hmem

@[simp] theorem run_getUserCardInfoOne (env : Env) (vo : CardVo) (s : Store) :
    (getUserCardInfoOne vo).run (perform env) s = (.ok (oneCard s.cards vo.CARD_TOKEN), s) := rfl

/-- An update counts rows, so it is never reported as failed. -/
theorem run_updateUserCardInfoOne (env : Env) (vo : CardVo) (s : Store) :
    ∃ ret : Int, 0 ≤ ret ∧ (updateUserCardInfoOne vo).run (perform env) s =
      (.ok ret, { s with cards := s.cards.map vo.update }) :=
  ⟨_, Int.natCast_nonneg _, rfl⟩

/-! ## The secure-key check -/

/-- The check passes: the member's entry and the card of the token are there, the secret key is
the card's, and the secure key is the digest of the challenge under it. -/
structure Verifies (s : Store) (request : JsonObject) (memberId : String)
    (memoryVo : MoaMemoryVo) (cardVo : CardVo) : Prop where
  member : request.get "memberId" = some memberId
  entry : s.memory memberId = some memoryVo
  card : ∃ token, request.get "cardToken" = some token ∧ oneCard s.cards token = some cardVo
  secret : request.get "secretKey" = some cardVo.SECRET_KEY
  long : 5 ≤ utf16Length cardVo.SECRET_KEY
  digest : ∃ key, Base64.decode cardVo.SECRET_KEY = some key ∧
    request.get "secureKey" =
      some (Base64.encode (Sha256.digest (mergeByte (combinedStr memoryVo memberId) key)))

theorem getMessageDigestForSecureKey_ends (env : Env) (targetData secretKey : String)
    (s : Store) : Prog.Ends (perform env)
      (fun digest s' => s' = s ∧ ∃ key, Base64.decode secretKey = some key ∧
        digest = Base64.encode (Sha256.digest (mergeByte targetData key)))
      (fun _ s' => s' = s) (getMessageDigestForSecureKey targetData secretKey) s := by
  refine Prog.Ends.orFail_bind (fun _ => rfl) ?_
  intro key hkey
  exact ⟨rfl, key, hkey, rfl⟩

/-- **`verifySecureKey`** uses up the member's entry whatever it decides, changes nothing else,
and returns a bill key only if the check passes, that of the card. -/
theorem verifySecureKey_ends {env : Env} {request : JsonObject} {memberId : String} {s : Store}
    (hmember : request.get "memberId" = some memberId) :
    Prog.Ends (perform env)
      (fun billKey s' => s' = { s with memory := Function.update s.memory memberId none } ∧
        ∃ memoryVo cardVo, Verifies s request memberId memoryVo cardVo ∧ billKey = cardVo.BILL_KEY)
      (fun _ s' => s' = { s with memory := Function.update s.memory memberId none })
      (verifySecureKey request) s := by
  unfold verifySecureKey getMemberId getAsString
  rw [hmember]
  -- the entry is looked up and removed before anything is checked
  apply Prog.Ends.query_bind
  apply Prog.Ends.query_bind
  refine Prog.Ends.orFail_bind (fun _ => rfl) ?_
  intro memoryVo hentry
  refine Prog.Ends.orFail_bind (fun _ => rfl) ?_
  intro token htoken
  apply Prog.Ends.bind_ok (run_getUserCardInfoOne env _ _)
  refine Prog.Ends.orFail_bind (fun _ => rfl) ?_
  intro secretKey hsecret
  refine Prog.Ends.ite (fun _ => rfl) ?_
  intro hlong
  refine Prog.Ends.orFail_bind (fun _ => rfl) ?_
  intro cardVo hcard
  refine Prog.Ends.ite (fun _ => rfl) ?_
  intro hmatch
  obtain rfl := not_not.mp hmatch
  apply Prog.Ends.bind (getMessageDigestForSecureKey_ends env _ _ _)
  rintro _ _ ⟨rfl, key, hkey, rfl⟩
  refine Prog.Ends.orFail_bind (fun _ => rfl) ?_
  intro secureKey hsecure
  apply Prog.Ends.ite
  · rintro rfl
    exact ⟨rfl, memoryVo, cardVo, ⟨hmember, hentry, ⟨token, htoken, hcard⟩, hsecret,
      Nat.not_lt.mp hlong, key, hkey, hsecure⟩, rfl⟩
  · intro hdiffers
    exact rfl

/-! ## The approval request -/

/-- The parts of the store that the handlers check. -/
def Store.Same (s s' : Store) : Prop :=
  s'.memory = s.memory ∧ s'.cards = s.cards ∧ s'.approvals = s.approvals

theorem Store.Same.refl (s : Store) : s.Same s := ⟨rfl, rfl, rfl⟩

/-- What is sent for an order: a verified request's bill key and the pay information that the
merchant has for its order. -/
def Approved (env : Env) (s : Store) (request : JsonObject) (memberId : String)
    (vo : KiccTranSendVo) : Prop :=
  ∃ memoryVo cardVo orderId n info ip, Verifies s request memberId memoryVo cardVo ∧
    request.get "orderId" = some orderId ∧ env.getUserPayInfo n orderId = some (some info) ∧
    vo = getKiccSendVoSetted info cardVo.BILL_KEY ip

def Query.IsSettlement : Query → Prop
  | .payCallBack _ => True
  | .cancle _ _ => True
  | _ => False

theorem same_of_settlement (env : Env) (q : Query) (s : Store) (h : q.IsSettlement) :
    s.Same (perform env q s).2 := by
  cases q with
  | payCallBack => exact ⟨rfl, rfl, rfl⟩
  | cancle => exact ⟨rfl, rfl, rfl⟩
  | _ => cases h

theorem Store.Same.trans (s₁ s₂ s₃ : Store) (h₁ : s₁.Same s₂) (h₂ : s₂.Same s₃) : s₁.Same s₃ :=
  ⟨h₂.1.trans h₁.1, h₂.2.1.trans h₁.2.1, h₂.2.2.trans h₁.2.2⟩

/-- A request to KICC is sent once, whatever the gateway and the merchant answer. -/
theorem sendRequestToKICC_ends (env : Env) (vo : KiccTranSendVo) (s : Store) :
    Prog.Ends (perform env)
      (fun _ s' => Store.Same { s with approvals := s.approvals ++ [vo] } s')
      (fun _ s' => Store.Same { s with approvals := s.approvals ++ [vo] } s')
      (sendRequestToKICC vo) s := by
  obtain ⟨k, hk, huses⟩ : ∃ k, sendRequestToKICC vo = .ask (.easypay_run vo) k ∧
      ∀ a, Prog.Uses Query.IsSettlement (k a) := by
    refine ⟨_, rfl, ?_⟩
    intro resultVo
    apply Prog.Uses.bind
    · apply Prog.Uses.bind (Prog.Uses.orFail _ _)
      intro resultVo
      split
      · apply Prog.Uses.bind (Prog.Uses.query trivial)
        intro ack
        apply Prog.Uses.bind (Prog.Uses.orFail _ _)
        intro ack
        split
        · apply Prog.Uses.bind (Prog.Uses.query trivial)
          intro cancelled
          apply Prog.Uses.bind (Prog.Uses.orFail _ _)
          intro _
          trivial
        · trivial
      · trivial
    · intro resultVo
      split
      · split
        · trivial
        · trivial
      · trivial
  rw [hk]
  -- what follows the request only settles it
  exact Prog.Ends.of_uses Store.Same.refl Store.Same.trans (same_of_settlement env)
    (huses (perform env (.easypay_run vo) s).1) (perform env (.easypay_run vo) s).2

/-- The pay information is only read. -/
theorem getKiccTranSendVo_ends (env : Env) (request : JsonObject) (billKey : String) (s : Store) :
    Prog.Ends (perform env)
      (fun vo s' => s.Same s' ∧ ∃ orderId n info ip, request.get "orderId" = some orderId ∧
        env.getUserPayInfo n orderId = some (some info) ∧
        vo = getKiccSendVoSetted info billKey ip)
      (fun _ s' => s.Same s') (getKiccTranSendVo request billKey) s := by
  refine Prog.Ends.orFail_bind (fun _ => Store.Same.refl s) ?_
  intro orderId horder
  apply Prog.Ends.query_bind
  refine Prog.Ends.orFail_bind (fun _ => ⟨rfl, rfl, rfl⟩) ?_
  intro known hknown
  refine Prog.Ends.orFail_bind (fun _ => ⟨rfl, rfl, rfl⟩) ?_
  rintro info rfl
  refine Prog.Ends.ite (fun _ => ⟨rfl, rfl, rfl⟩) ?_
  intro hfree
  refine Prog.Ends.orFail_bind (fun _ => ⟨rfl, rfl, rfl⟩) ?_
  intro ip hip
  exact ⟨⟨rfl, rfl, rfl⟩, orderId, s.calls, info, ip, horder, hknown, rfl⟩

/-! ## Every way a call can end -/

/-- The second step of a payment of the member. -/
def Call.EndsPayment (call : Call) (memberId : String) : Prop :=
  call.operation = .requestPayment ∧ call.request.get "step" = some "2" ∧
    call.request.get "memberId" = some memberId

/-- How a call from `s` ends. -/
inductive Outcome (env : Env) (s : Store) : Call → JsonObject → Store → Prop
  | refused {call : Call} {reply : JsonObject} {s' : Store}
      (hreply : reply.get "result" ≠ some "200") (hsame : s.Same s')
      (hstay : ∀ memberId, ¬ call.EndsPayment memberId) : Outcome env s call reply s'
  | listed {request reply : JsonObject} : Outcome env s ⟨.getCardList, request⟩ reply s
  | cardStarted {request reply : JsonObject} {memberId token : String} {row : CardVo} {s' : Store}
      (hstep : request.get "step" = some "1") (hmember : request.get "memberId" = some memberId)
      (htoken : reply.get "token" = some token)
      (hrow : row.MEMBER_ID = memberId ∧ row.CARD_TOKEN = token)
      (hm : s'.memory = s.memory) (hc : s'.cards = s.cards ++ [row])
      (ha : s'.approvals = s.approvals) : Outcome env s ⟨.registCard, request⟩ reply s'
  | cardCompleted {request reply : JsonObject} {token : String} {card vo : CardVo}
      (hstep : request.get "step" = some "2") (htoken : request.get "r_order_no" = some token)
      (hcard : oneCard s.cards token = some card) (hflag : card.USE_FLAG = "N")
      (hvo : vo.CARD_TOKEN = card.CARD_TOKEN ∧ vo.USE_FLAG = "Y") :
      Outcome env s ⟨.registCard, request⟩ reply { s with cards := s.cards.map vo.update }
  | cardRenamed {request reply : JsonObject} {token nick : String} {card : CardVo}
      (hcard : oneCard s.cards token = some card) :
      Outcome env s ⟨.changeCardNick, request⟩ reply
        { s with cards := s.cards.map (CardVo.update { card with CARD_NICK := nick }) }
  | cardDeleted {request reply : JsonObject} {token : String} {card : CardVo}
      (hreply : reply.get "result" = some "200")
      (htoken : request.get "cardToken" = some token) (hcard : oneCard s.cards token = some card) :
      Outcome env s ⟨.deleteCardOne, request⟩ reply
        { s with cards := s.cards.map (CardVo.update { card with USE_FLAG := "D" }) }
  | passwordReset {request reply : JsonObject} {vo : CardVo} {s' : Store} (hm : s'.memory = s.memory)
      (hc : s'.cards = s.cards.map vo.changePwd) (ha : s'.approvals = s.approvals) :
      Outcome env s ⟨.initializePassword, request⟩ reply s'
  | resetStarted {request reply : JsonObject} {memberId : String} {vo : MoaMemoryVo} {s' : Store}
      (hmember : request.get "memberId" = some memberId)
      (htype : vo.actionType = "InitializePwdSimplePay")
      (hm : s'.memory = Function.update s.memory memberId (some vo))
      (hc : s'.cards = s.cards) (ha : s'.approvals = s.approvals) :
      Outcome env s ⟨.initializePassword, request⟩ reply s'
  | paymentStarted {request reply : JsonObject} {memberId orderId nonce : String} {s' : Store}
      (hstep : request.get "step" = some "1") (hmember : request.get "memberId" = some memberId)
      (horder : request.get "orderId" = some orderId) (hreply : reply.get "result" = some "200")
      (hnonce : reply.get "nonce" = some nonce)
      (hm : s'.memory =
        Function.update s.memory memberId (some ⟨"requestPayment", "1", nonce, orderId⟩))
      (hc : s'.cards = s.cards) (ha : s'.approvals = s.approvals) :
      Outcome env s ⟨.requestPayment, request⟩ reply s'
  | paymentEnded {request reply : JsonObject} {memberId : String} {s' : Store}
      (hstep : request.get "step" = some "2") (hmember : request.get "memberId" = some memberId)
      (hm : s'.memory = Function.update s.memory memberId none) (hc : s'.cards = s.cards)
      (ha : s'.approvals = s.approvals ∨ ∃ vo, Approved env s request memberId vo ∧
        s'.approvals = s.approvals ++ [vo]) :
      Outcome env s ⟨.requestPayment, request⟩ reply s'

/-- A call of another method ends no payment. -/
theorem not_endsPayment {operation : Operation} {request : JsonObject} (h : operation ≠ .requestPayment)
    (memberId : String) : ¬ (⟨operation, request⟩ : Call).EndsPayment memberId := fun hends => h hends.1

theorem Outcome.bad {env : Env} {s s' : Store} {call : Call} {jsonObj : JsonObject}
    {ErrorCode message : String} (hcode : ErrorCode ≠ "200") (hsame : s.Same s')
    (hstay : ∀ memberId, ¬ call.EndsPayment memberId) :
    Outcome env s call (setBadRequest jsonObj ErrorCode message) s' :=
  .refused (by rw [get_setBadRequest]; simpa using hcode) hsame hstay

/-- A call ends where its body does, or where its catch clause goes from there. -/
theorem outcome_of_ends {env : Env} {s : Store} {call : Call} {body : HandlerProg JsonObject}
    {bad : HandlerException → JsonObject}
    (hbody : Prog.Ends (perform env) (Outcome env s call)
      (fun e s' => Outcome env s call (bad e) s') body s) :
    ∃ reply s', (Prog.tryCatch body fun e => .ret (bad e)).run (perform env) s = (.ok reply, s') ∧
      Outcome env s call reply s' := by
  apply Prog.Ends.returns
  apply Prog.Ends.tryCatch hbody
  intro e s' hout
  exact hout

/-- Thrown before anything that the handlers check has changed, an exception is a refusal. -/
theorem outcome_of_body {env : Env} {s : Store} {call : Call} {body : HandlerProg JsonObject}
    {message : HandlerException → String}
    (hbody : Prog.Ends (perform env) (Outcome env s call) (fun _ s' => s.Same s') body s)
    (hstay : ∀ memberId, ¬ call.EndsPayment memberId) :
    ∃ reply s', (Prog.tryCatch body fun e => .ret (setBadRequest [] "400" (message e))).run
        (perform env) s = (.ok reply, s') ∧ Outcome env s call reply s' := by
  apply outcome_of_ends
  apply hbody.mono (fun _ _ h => h)
  intro e s' hsame
  exact .bad (by decide) hsame hstay

/-- A member of the request that is missing throws where nothing has changed yet. -/
theorem ends_getAsString {env : Env} {ok : JsonObject → Store → Prop} {request : JsonObject}
    {key : String} {f : String → HandlerProg JsonObject} {s : Store}
    (hget : ∀ value, request.get key = some value →
      Prog.Ends (perform env) ok (fun _ s' => s.Same s') (f value) s) :
    Prog.Ends (perform env) ok (fun _ s' => s.Same s') (getAsString request key >>= f) s :=
  Prog.Ends.orFail_bind (fun _ => Store.Same.refl s) hget

/-- An update counts rows, so its caller goes on as if it had succeeded. -/
theorem ends_update {env : Env} {ok : JsonObject → Store → Prop}
    {err : HandlerException → Store → Prop} {vo : CardVo} {p p' : HandlerProg JsonObject} {s : Store}
    (hp : Prog.Ends (perform env) ok err p' { s with cards := s.cards.map vo.update }) :
    Prog.Ends (perform env) ok err
      (updateUserCardInfoOne vo >>= fun ret => if ret < 0 then p else p') s := by
  obtain ⟨ret, hret, hrun⟩ := run_updateUserCardInfoOne env vo s
  apply Prog.Ends.bind_ok hrun
  rw [if_neg (Int.not_lt.mpr hret)]
  exact hp

theorem outcome_getCardList (env : Env) (request : JsonObject) (s : Store) :
    ∃ reply s', (getCardList request []).run (perform env) s = (.ok reply, s') ∧
      Outcome env s ⟨.getCardList, request⟩ reply s' := by
  refine outcome_of_body ?_ (not_endsPayment (by decide))
  apply ends_getAsString
  intro step hstep
  apply Prog.Ends.ite
  · intro h1
    apply ends_getAsString
    intro memberId hmember
    exact .listed
  · intro h1
    exact Outcome.bad (by decide) (Store.Same.refl s) (not_endsPayment (by decide))

theorem outcome_changeCardNick (env : Env) (request : JsonObject) (s : Store) :
    ∃ reply s', (changeCardNick request []).run (perform env) s = (.ok reply, s') ∧
      Outcome env s ⟨.changeCardNick, request⟩ reply s' := by
  refine outcome_of_body ?_ (not_endsPayment (by decide))
  apply ends_getAsString
  intro step hstep
  apply Prog.Ends.ite
  · intro h1
    apply ends_getAsString
    intro memberId hmember
    apply ends_getAsString
    intro token htoken
    apply ends_getAsString
    intro nick hnick
    apply Prog.Ends.bind_ok (run_getUserCardInfoOne env _ s)
    refine Prog.Ends.orFail_bind (fun _ => Store.Same.refl s) ?_
    intro card hcard
    refine Prog.Ends.ite (fun _ => Store.Same.refl s) ?_
    intro hown
    apply ends_update
    exact .cardRenamed hcard
  · intro h1
    exact Outcome.bad (by decide) (Store.Same.refl s) (not_endsPayment (by decide))

theorem outcome_deleteCardOne (env : Env) (request : JsonObject) (s : Store) :
    ∃ reply s', (deleteCardOne request []).run (perform env) s = (.ok reply, s') ∧
      Outcome env s ⟨.deleteCardOne, request⟩ reply s' := by
  refine outcome_of_body ?_ (not_endsPayment (by decide))
  apply ends_getAsString
  intro step hstep
  refine Prog.Ends.ite ?_ (fun _ => Store.Same.refl s)
  intro h1
  apply ends_getAsString
  intro memberId hmember
  apply ends_getAsString
  intro token htoken
  apply Prog.Ends.bind_ok (run_getUserCardInfoOne env _ s)
  refine Prog.Ends.orFail_bind (fun _ => Store.Same.refl s) ?_
  intro card hcard
  refine Prog.Ends.ite (fun _ => Store.Same.refl s) ?_
  intro hown
  refine Prog.Ends.ite (fun _ => Store.Same.refl s) ?_
  intro hflag
  apply ends_update
  exact .cardDeleted (get_setSuccessRequest _) htoken hcard

/-- The statement that compares the old password always throws, so no password is changed. -/
theorem outcome_changePasswordSimplePay (env : Env) (request : JsonObject) (s : Store) :
    ∃ reply s', (changePasswordSimplePay request []).run (perform env) s = (.ok reply, s') ∧
      Outcome env s ⟨.changePasswordSimplePay, request⟩ reply s' := by
  refine outcome_of_body ?_ (not_endsPayment (by decide))
  apply ends_getAsString
  intro step hstep
  apply Prog.Ends.ite
  · intro h1
    apply ends_getAsString
    intro memberId hmember
    apply ends_getAsString
    intro secOrgin horigin
    apply ends_getAsString
    intro secNew hnew
    -- the count is that of a statement that throws
    exact Store.Same.refl s
  · intro h1
    exact Outcome.bad (by decide) (Store.Same.refl s) (not_endsPayment (by decide))

theorem outcome_registCard (env : Env) (request : JsonObject) (s : Store) :
    ∃ reply s', (registCard env request []).run (perform env) s = (.ok reply, s') ∧
      Outcome env s ⟨.registCard, request⟩ reply s' := by
  refine outcome_of_body ?_ (not_endsPayment (by decide))
  apply ends_getAsString
  intro step hstep
  apply Prog.Ends.ite
  · -- the first step inserts the card under a new token
    rintro rfl
    apply ends_getAsString
    intro memberId hmember
    apply ends_getAsString
    intro cardNick hnick
    apply ends_getAsString
    intro secretKey hsecret
    refine .cardStarted hstep hmember ?_ ⟨rfl, rfl⟩ rfl rfl rfl
    show (setSuccessRequest _).get "token" = some (env.uuid s.calls)
    rw [get_setSuccessRequest_ne _ (by decide) (by decide),
      JsonObject.get_addProperty_ne _ _ (by decide), JsonObject.get_addProperty_self]
    rfl
  intro h1
  refine Prog.Ends.ite ?_ (fun _ => Store.Same.refl s)
  -- the second step completes a card that is not yet in use
  rintro rfl
  apply ends_getAsString
  intro resCd hcd
  apply Prog.Ends.ite
  · intro hbad
    apply ends_getAsString
    intro resMsg hmsg
    exact Store.Same.refl s
  intro hok
  apply ends_getAsString
  intro token htoken
  apply Prog.Ends.bind_ok (run_getUserCardInfoOne env _ s)
  refine Prog.Ends.orFail_bind (fun _ => Store.Same.refl s) ?_
  intro card hcard
  refine Prog.Ends.ite (fun _ => Store.Same.refl s) ?_
  intro hflag
  apply ends_getAsString
  intro billKey hbill
  apply ends_getAsString
  intro issuerCd hissuer
  apply ends_getAsString
  intro issuerNm hname
  apply ends_getAsString
  intro cno hcno
  apply ends_update
  exact .cardCompleted hstep htoken hcard (not_not.mp hflag) ⟨rfl, rfl⟩

/-- The second step resets the password if the nonce is the one of the entry, and otherwise changes
nothing and says so. -/
theorem initializePasswordStep2_ends (env : Env) (userId kgId nonce : String) (s : Store) :
    Prog.Ends (perform env)
      (fun reply s' => (reply.get "result" ≠ some "200" ∧ s.Same s') ∨
        ∃ vo : CardVo, s'.memory = s.memory ∧ s'.cards = s.cards.map vo.changePwd ∧
          s'.approvals = s.approvals)
      (fun _ s' => s.Same s') (initializePasswordStep2 userId kgId nonce) s := by
  apply Prog.Ends.query_bind
  refine Prog.Ends.orFail_bind (fun _ => Store.Same.refl s) ?_
  intro memVo hentry
  apply Prog.Ends.ite
  · intro hmatch
    exact Or.inr ⟨_, rfl, rfl, rfl⟩
  · intro hdiffers
    refine Or.inl ⟨?_, Store.Same.refl s⟩
    rw [get_setBadRequest]
    decide

theorem outcome_initializePassword (env : Env) (request : JsonObject) (s : Store) :
    ∃ reply s', (initializePassword request []).run (perform env) s = (.ok reply, s') ∧
      Outcome env s ⟨.initializePassword, request⟩ reply s' := by
  refine outcome_of_body ?_ (not_endsPayment (by decide))
  apply ends_getAsString
  intro step hstep
  apply Prog.Ends.ite
  · intro h1
    apply ends_getAsString
    intro memberId hmember
    apply Prog.Ends.query_bind
    refine Prog.Ends.orFail_bind (fun _ => Store.Same.refl s) ?_
    intro listCardVo hlist
    refine Prog.Ends.ite ?_ (fun _ => Store.Same.refl s)
    intro hsome
    apply Prog.Ends.query_bind
    refine Prog.Ends.orFail_bind (fun _ => ⟨rfl, rfl, rfl⟩) ?_
    intro secretKeyNew hnew
    exact .resetStarted hmember rfl rfl rfl rfl
  intro h1
  apply Prog.Ends.ite
  · intro hini
    apply ends_getAsString
    intro memberId hmember
    apply ends_getAsString
    intro nonce hnonce
    apply Prog.Ends.bind (initializePasswordStep2_ends env memberId _ nonce s)
    rintro reply s' (⟨hbad, hsame⟩ | ⟨vo, hm, hc, ha⟩)
    · rw [if_neg hbad]
      exact Outcome.bad (by decide) hsame (not_endsPayment (by decide))
    · exact .passwordReset hm hc ha
  · intro hini
    exact Outcome.bad (by decide) (Store.Same.refl s) (not_endsPayment (by decide))

/-- The first step of a payment stores its nonce; after the second step the entry is gone, and what
was sent had been verified. -/
theorem outcome_requestPayment (env : Env) (request : JsonObject) (s : Store) :
    ∃ reply s', (requestPayment request []).run (perform env) s = (.ok reply, s') ∧
      Outcome env s ⟨.requestPayment, request⟩ reply s' := by
  have hnotEnd (h : request.get "step" ≠ some "2") (m : String) :
      ¬ (⟨.requestPayment, request⟩ : Call).EndsPayment m := fun hends => h hends.2.1
  refine outcome_of_ends ?_
  refine Prog.Ends.orFail_bind (fun hnone => .bad (by decide) (Store.Same.refl s) ?_) ?_
  · apply hnotEnd
    rw [hnone]
    decide
  intro step hstep
  refine Prog.Ends.orFail_bind (fun hnone => .bad (by decide) (Store.Same.refl s) ?_) ?_
  · rintro m ⟨-, -, hmember⟩
    cases hnone.symm.trans hmember
  intro memberId hmember
  apply Prog.Ends.ite
  · rintro rfl
    have hstay := hnotEnd (by rw [hstep]; decide)
    refine Prog.Ends.orFail_bind (fun _ => .bad (by decide) (Store.Same.refl s) hstay) ?_
    intro payKind hkind
    refine Prog.Ends.ite (fun _ => .bad (by decide) (Store.Same.refl s) hstay) ?_
    intro hcard
    refine Prog.Ends.orFail_bind (fun _ => .bad (by decide) (Store.Same.refl s) hstay) ?_
    intro orderId horder
    apply Prog.Ends.query_bind
    apply Prog.Ends.query_bind
    apply Prog.Ends.query_bind
    simp only [perform, Function.update_self]
    refine .paymentStarted hstep hmember horder (get_setSuccessRequest _) ?_ rfl rfl rfl
    rw [get_setSuccessRequest_ne _ (by decide) (by decide), JsonObject.get_addProperty_self]
  intro h1
  apply Prog.Ends.ite
  · rintro rfl
    refine Prog.Ends.bind ((verifySecureKey_ends hmember).mono (fun _ _ h => h) ?_) ?_
    · rintro e _ rfl
      exact .paymentEnded hstep hmember rfl rfl (Or.inl rfl)
    rintro _ _ ⟨rfl, memoryVo, cardVo, hverifies, rfl⟩
    refine Prog.Ends.bind ((getKiccTranSendVo_ends env request _ _).mono (fun _ _ h => h) ?_) ?_
    · rintro e s₁ ⟨hm₁, hc₁, ha₁⟩
      exact .paymentEnded hstep hmember hm₁ hc₁ (Or.inl ha₁)
    rintro vo s₁ ⟨⟨hm₁, hc₁, ha₁⟩, orderId, n, info, ip, horder, hinfo, hvo⟩
    have happroved : Approved env s request memberId vo :=
      ⟨memoryVo, cardVo, orderId, n, info, ip, hverifies, horder, hinfo, hvo⟩
    have hended (reply : JsonObject) {s₂ : Store}
        (h : Store.Same { s₁ with approvals := s₁.approvals ++ [vo] } s₂) :
        Outcome env s ⟨.requestPayment, request⟩ reply s₂ :=
      .paymentEnded hstep hmember (h.1.trans hm₁) (h.2.1.trans hc₁)
        (Or.inr ⟨vo, happroved, by rw [h.2.2, ha₁]⟩)
    -- sent is sent, whether KICC approves or its answer is thrown
    apply Prog.Ends.bind ((sendRequestToKICC_ends env vo s₁).mono (fun _ _ h => h)
      (fun e _ h => hended (badPayment [] e) h))
    intro _ s₂ h
    exact hended _ h
  · intro h2
    refine Outcome.bad (by decide) (Store.Same.refl s) (hnotEnd ?_)
    rw [hstep]
    exact fun h => h2 (Option.some.inj h)

/-- **Every call** replies, and ends in one of the outcomes. -/
theorem outcome (env : Env) (call : Call) (s : Store) :
    ∃ reply s', (handle env call).run (perform env) s = (.ok reply, s') ∧
      Outcome env s call reply s' := by
  obtain ⟨operation, request⟩ := call
  cases operation with
  | registCard => exact outcome_registCard env request s
  | getCardList => exact outcome_getCardList env request s
  | requestPayment => exact outcome_requestPayment env request s
  | deleteCardOne => exact outcome_deleteCardOne env request s
  | changeCardNick => exact outcome_changeCardNick env request s
  | initializePassword => exact outcome_initializePassword env request s
  | changePasswordSimplePay => exact outcome_changePasswordSimplePay env request s

end MoaCrypto.SimplePay
