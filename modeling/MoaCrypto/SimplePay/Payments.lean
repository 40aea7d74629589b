import MoaCrypto.SimplePay.Server

/-!
# Agreement of the two-step payment

An approval that is sent for an order should agree with a payment: started for that
order by the member, with an entry that no payment has used since, under a secure key
that covers the order.  `payment_agreement` proves it for runs in which every
verified payment uses an entry of a payment and asks for the order in it, the
challenge being plain ASCII.  The check looks at neither (`payment_disagreement`):
the order that is sent is that of the second request.
-/

namespace MoaCrypto.SimplePay

open Java QueryProg

/-! ## What agreement is -/

/-- A first step of a payment by the member for the order, answered with the nonce. -/
def StartsPayment (memberId orderId nonce : String) (d : Call × JsonObject) : Prop :=
  d.1.operation = .requestPayment ∧ d.1.request.get "step" = some "1" ∧
    d.1.request.get "memberId" = some memberId ∧ d.1.request.get "orderId" = some orderId ∧
    d.2.get "result" = some "200" ∧ d.2.get "nonce" = some nonce

/-- The member started a payment for the order with the nonce, and no payment of the member has
used an entry since. -/
def Pending (done : List (Call × JsonObject)) (memberId orderId nonce : String) : Prop :=
  ∃ newer d older, done = newer ++ d :: older ∧ StartsPayment memberId orderId nonce d ∧
    ∀ d' ∈ newer, ¬ d'.1.EndsPayment memberId

/-- The secure key of the request is the digest of all of nonce, member and order. -/
def CoversOrder (request : JsonObject) (memberId orderId nonce : String) : Prop :=
  ∃ secretKey key, request.get "secretKey" = some secretKey ∧
    Base64.decode secretKey = some key ∧
    request.get "secureKey" =
      some (Base64.encode (Sha256.digest (key ++ utf8 (nonce ++ memberId ++ orderId))))

/-- Whatever the call sends to KICC for a member and an order agrees with a pending payment. -/
def Agrees (env : Env) (w : World) (call : Call) : Prop :=
  (serve env w call).store.approvals = w.store.approvals ∨
  ∃ vo memberId orderId nonce n info card_no ip,
    (serve env w call).store.approvals = w.store.approvals ++ [vo] ∧
    call.request.get "memberId" = some memberId ∧ call.request.get "orderId" = some orderId ∧
    env.getUserPayInfo n orderId = some (some info) ∧
    vo = getKiccSendVoSetted info card_no ip ∧
    Pending w.done memberId orderId nonce ∧ CoversOrder call.request memberId orderId nonce

def IsAscii (s : String) : Prop := ∀ c ∈ s.toList, c.toNat < 128

instance (s : String) : Decidable (IsAscii s) :=
  List.decidableBAll (fun c : Char => c.toNat < 128) s.toList

/-- If the call is a payment that is verified, then the entry it uses is that of a payment for
the order in the request, and the challenge is ASCII. -/
def UsesOwnOrder (w : World) (call : Call) : Prop :=
  ∀ memberId memoryVo cardVo, call.EndsPayment memberId →
    Verifies w.store call.request memberId memoryVo cardVo →
    memoryVo.actionType = "requestPayment" ∧ call.request.get "orderId" = some memoryVo.memory2 ∧
      IsAscii (combinedStr memoryVo memberId)

/-- The digest takes all of an ASCII text. -/
theorem mergeByte_ascii {targetData : String} (h : IsAscii targetData) (key : List UInt8) :
    mergeByte targetData key = key ++ utf8 targetData := by
  have hlen : (utf8 targetData).length = utf16Length targetData := by
    unfold utf8 utf16Length IsAscii at *
    generalize targetData.toList = cs at h
    induction cs with
    | nil => rfl
    | cons c cs ih =>
      have hc := h c List.mem_cons_self
      rw [List.flatMap_cons, List.length_append, List.map_cons, List.sum_cons,
        utf8EncodeChar_ascii hc, List.length_singleton, ih fun d hd => h d (List.mem_cons_of_mem _ hd),
        if_neg (by omega)]
  rw [mergeByte, ← hlen, List.take_length]

/-- Every entry of a payment in the memory belongs to a pending payment. -/
def EntriesPending (w : World) : Prop :=
  ∀ memberId memoryVo, w.store.memory memberId = some memoryVo →
    memoryVo.actionType = "requestPayment" →
    Pending w.done memberId memoryVo.memory2 memoryVo.memory1

theorem Pending.cons {done : List (Call × JsonObject)} {memberId orderId nonce : String}
    (h : Pending done memberId orderId nonce) {d : Call × JsonObject}
    (hd : ¬ d.1.EndsPayment memberId) : Pending (d :: done) memberId orderId nonce := by
  obtain ⟨newer, d₁, older, rfl, hstart, hnewer⟩ := h
  refine ⟨d :: newer, d₁, older, rfl, hstart, ?_⟩
  intro d' hd'
  rcases List.mem_cons.mp hd' with rfl | hd'
  · exact hd
  · exact hnewer d' hd'

/-- A call that leaves the memory alone and ends no payment keeps the entries pending. -/
theorem EntriesPending.cons {w : World} (h : EntriesPending w) {s' : Store} {call : Call}
    {reply : JsonObject} (hm : s'.memory = w.store.memory)
    (hstay : ∀ memberId, ¬ call.EndsPayment memberId) :
    EntriesPending ⟨s', (call, reply) :: w.done⟩ := by
  intro memberId memoryVo hentry htype
  have hold : w.store.memory memberId = some memoryVo := by rw [← hm]; exact hentry
  exact (h memberId memoryVo hold htype).cons (hstay memberId)

/-- Every call keeps the entries pending. -/
theorem entriesPending_serve {env : Env} {w : World} (h : EntriesPending w) (call : Call) :
    EntriesPending (serve env w call) := by
  obtain ⟨reply, s', hserve, hout⟩ := serve_outcome env w call
  rw [hserve]
  have hother {operation : Operation} {request : JsonObject}
      (hop : operation ≠ .requestPayment) (memberId : String) :
      ¬ (⟨operation, request⟩ : Call).EndsPayment memberId := fun he => hop he.1
  cases hout with
  | refused hreply hsame hstay => exact h.cons hsame.1 hstay
  | listed => exact h.cons rfl (hother (by decide))
  | cardStarted hstep hmember htoken hrow hm hc ha => exact h.cons hm (hother (by decide))
  | cardCompleted => exact h.cons rfl (hother (by decide))
  | cardRenamed => exact h.cons rfl (hother (by decide))
  | cardDeleted => exact h.cons rfl (hother (by decide))
  | passwordReset hm hc ha => exact h.cons hm (hother (by decide))
  | @resetStarted request reply memberId vo s' hmember htype hm hc ha =>
    intro m memoryVo hentry hpay
    by_cases hmm : m = memberId
    · subst hmm
      rw [hm, Function.update_self] at hentry
      cases hentry
      rw [htype] at hpay
      exact absurd hpay (by decide)
    · rw [hm, Function.update_of_ne hmm] at hentry
      exact (h m memoryVo hentry hpay).cons (hother (by decide) m)
  | @paymentStarted request reply memberId orderId nonce s' hstep hmember horder hreply hnonce hm =>
    intro m memoryVo hentry hpay
    by_cases hmm : m = memberId
    · subst hmm
      rw [hm, Function.update_self] at hentry
      cases hentry
      exact ⟨[], _, w.done, rfl, ⟨rfl, hstep, hmember, horder, hreply, hnonce⟩,
        fun d hd => absurd hd List.not_mem_nil⟩
    · rw [hm, Function.update_of_ne hmm] at hentry
      apply (h m memoryVo hentry hpay).cons
      rintro ⟨-, h2, -⟩
      rw [hstep] at h2
      exact absurd h2 (by decide)
  | @paymentEnded request reply memberId s' hstep hmember hm hc ha =>
    intro m memoryVo hentry hpay
    by_cases hmm : m = memberId
    · subst hmm
      rw [hm, Function.update_self] at hentry
      cases hentry
    · rw [hm, Function.update_of_ne hmm] at hentry
      apply (h m memoryVo hentry hpay).cons
      rintro ⟨-, -, h2⟩
      rw [hmember] at h2
      exact hmm (Option.some.inj h2).symm

/-- A payment that uses its own order agrees. -/
theorem agrees_of_usesOwnOrder {env : Env} {w : World} {call : Call} (h : EntriesPending w)
    (hown : UsesOwnOrder w call) : Agrees env w call := by
  obtain ⟨reply, s', hserve, hout⟩ := serve_outcome env w call
  unfold Agrees
  rw [hserve]
  cases hout with
  | refused hreply hsame hstay => exact Or.inl hsame.2.2
  | listed => exact Or.inl rfl
  | cardStarted hstep hmember htoken hrow hm hc ha => exact Or.inl ha
  | cardCompleted => exact Or.inl rfl
  | cardRenamed => exact Or.inl rfl
  | cardDeleted => exact Or.inl rfl
  | passwordReset hm hc ha => exact Or.inl ha
  | resetStarted hmember htype hm hc ha => exact Or.inl ha
  | paymentStarted hstep hmember horder hreply hnonce hm hc ha => exact Or.inl ha
  | paymentEnded hstep hmember hm hc ha =>
    rcases ha with ha | ⟨vo, ⟨memoryVo, cardVo, orderId, n, info, ip, hv, horder, hinfo, hvo⟩, ha⟩
    · exact Or.inl ha
    · obtain ⟨htype, hsame, hascii⟩ := hown _ memoryVo cardVo ⟨rfl, hstep, hmember⟩ hv
      have hsame' : orderId = memoryVo.memory2 := Option.some.inj (horder.symm.trans hsame)
      subst hsame'
      obtain ⟨key, hkey, hsecure⟩ := hv.digest
      rw [mergeByte_ascii hascii] at hsecure
      exact Or.inr ⟨vo, _, _, memoryVo.memory1, n, info, cardVo.BILL_KEY, ip, ha, hmember, horder,
        hinfo, hvo, h _ memoryVo hv.entry htype, cardVo.SECRET_KEY, key, hv.secret, hkey, hsecure⟩

/-- **Payment agreement.**  In a run in which every verified payment uses an entry of a payment
for its own order, with an ASCII challenge, every call agrees. -/
theorem payment_agreement (env : Env) (cards : List CardVo) (calls : List Call)
    (hown : StepRun.Along (serve env) UsesOwnOrder (World.start cards) calls) :
    StepRun.Along (serve env) (Agrees env) (World.start cards) calls := by
  have hstart : EntriesPending (World.start cards) := by
    intro memberId memoryVo hentry
    cases hentry
  have hstep (w : World) (call : Call) (h : EntriesPending w) (_ : UsesOwnOrder w call) :
      EntriesPending (serve env w call) := entriesPending_serve h call
  have hat := StepRun.invariant_at (serve env) hstep hstart hown
  exact hat.mono _ fun w call h => agrees_of_usesOwnOrder h.1 h.2

/-- What the client sends: the digest of the challenge under the card's key. -/
def secureKey (secretKey challenge : String) : String :=
  Base64.encode (Sha256.digest ((Base64.decode secretKey).getD [] ++ utf8 challenge))

def startPayment (orderId : String) : Call :=
  ⟨.requestPayment, [("step", "1"), ("memberId", "m"), ("payKind", "CARD"), ("orderId", orderId)]⟩

/-- The second step for an order, with the secure key of a challenge for the order `signed`. -/
def endPayment (token nonce orderId signed : String) : Call :=
  ⟨.requestPayment, [("step", "2"), ("memberId", "m"), ("cardToken", token),
    ("secretKey", "c2VjcmV0"), ("secureKey", secureKey "c2VjcmV0" (nonce ++ "m" ++ signed)),
    ("orderId", orderId), ("client_ip", "10.0.0.1")]⟩

theorem payment_agreement_order :
    StepRun.Along (serve .willing) (Agrees .willing) (World.start [activeCard])
      [startPayment "o1", endPayment "t" "nonce0" "o1" "o1"] := by
  apply payment_agreement
  refine ⟨?_, ?_, trivial⟩
  · rintro memberId memoryVo cardVo ⟨-, hstep, -⟩ hv
    exact absurd hstep (by decide)
  · rintro memberId memoryVo cardVo ⟨-, -, hmember⟩ hv
    have hm : "m" = memberId := Option.some.inj hmember
    subst hm
    have hentry : some (⟨"requestPayment", "1", "nonce0", "o1"⟩ : MoaMemoryVo) = some memoryVo :=
      hv.entry
    cases hentry
    exact ⟨rfl, rfl, by decide⟩

/-- A payment started and signed for one order is sent for another. -/
theorem payment_disagreement :
    ¬ StepRun.Along (serve .willing) (Agrees .willing) (World.start [activeCard])
      [startPayment "o1", endPayment "t" "nonce0" "o2" "o1"] := by
  rintro ⟨-, hagrees, -⟩
  rcases hagrees with hsame | ⟨vo, memberId, orderId, nonce, n, info, card_no, ip, -, -, horder, -,
    -, ⟨newer, d, older, hdone, ⟨-, -, -, hstart, -⟩, -⟩, -⟩
  · have hlen := congrArg List.length hsame
    revert hlen
    decide +kernel
  · have ho : "o2" = orderId := Option.some.inj horder
    subst ho
    have hd : d ∈ (serve .willing (World.start [activeCard]) (startPayment "o1")).done := by
      rw [hdone]
      exact List.mem_append_right _ List.mem_cons_self
    have hall : ∀ d ∈ (serve .willing (World.start [activeCard]) (startPayment "o1")).done,
        d.1.request.get "orderId" ≠ some "o2" := by decide +kernel
    exact hall d hd hstart

end MoaCrypto.SimplePay
