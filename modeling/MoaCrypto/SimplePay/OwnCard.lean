import MoaCrypto.SimplePay.Payments

/-!
# The card that is charged

A payment finds the card by its token alone.  What the member may rely on is in the
replies: a token is given to a member by the first step of a registration, completed
by the second, and deleted once.  `cardPhase` reads this from the calls answered so
far, and `CardStep` is the one thing that every call does to the rows, from which the
table is shown to hold what the replies promise (`backed_serve`).

`own_card_charged`: in runs in which every verified payment names a token of the
member that is active by the replies, the bill key sent is that of a stored active
row of the member.  Nothing in the check itself asks for this: a member can charge a
deleted card (`deleted_card_charged`).
-/

namespace MoaCrypto.SimplePay

open Java QueryProg

/-! ## What the replies say -/

inductive CardPhase
  | unknown
  | started
  | active
  | deleted
  deriving DecidableEq

/-- A first step of a registration that gave the token to the member. -/
def StartsCard (memberId token : String) (d : Call × JsonObject) : Prop :=
  d.1.operation = .registCard ∧ d.1.request.get "step" = some "1" ∧
    d.1.request.get "memberId" = some memberId ∧ d.2.get "token" = some token ∧
    d.2.get "result" = some "200"

def CompletesCard (token : String) (d : Call × JsonObject) : Prop :=
  d.1.operation = .registCard ∧ d.1.request.get "step" = some "2" ∧
    d.1.request.get "r_order_no" = some token ∧ d.2.get "result" = some "200"

def DeletesCard (token : String) (d : Call × JsonObject) : Prop :=
  d.1.operation = .deleteCardOne ∧ d.1.request.get "cardToken" = some token ∧
    d.2.get "result" = some "200"

instance (memberId token : String) (d : Call × JsonObject) :
    Decidable (StartsCard memberId token d) := inferInstanceAs (Decidable (_ ∧ _ ∧ _ ∧ _ ∧ _))

instance (token : String) (d : Call × JsonObject) : Decidable (CompletesCard token d) :=
  inferInstanceAs (Decidable (_ ∧ _ ∧ _ ∧ _))

instance (token : String) (d : Call × JsonObject) : Decidable (DeletesCard token d) :=
  inferInstanceAs (Decidable (_ ∧ _ ∧ _))

/-- Where the member's card of the token stands, by the calls answered so far. -/
def cardPhase (memberId token : String) : List (Call × JsonObject) → CardPhase
  | [] => .unknown
  | d :: done =>
    if StartsCard memberId token d then .started
    else if CompletesCard token d ∧ cardPhase memberId token done = .started then .active
    else if DeletesCard token d then .deleted
    else cardPhase memberId token done

/-- A call starts the card, completes it, deletes it, or leaves it where it stands. -/
theorem cardPhase_cons (memberId token : String) (d : Call × JsonObject)
    (done : List (Call × JsonObject)) :
    (StartsCard memberId token d ∧ cardPhase memberId token (d :: done) = .started) ∨
    (CompletesCard token d ∧ cardPhase memberId token done = .started ∧
      cardPhase memberId token (d :: done) = .active) ∨
    cardPhase memberId token (d :: done) = .deleted ∨
    (¬ DeletesCard token d ∧
      cardPhase memberId token (d :: done) = cardPhase memberId token done) := by
  by_cases hstarts : StartsCard memberId token d
  · exact Or.inl ⟨hstarts, if_pos hstarts⟩
  · by_cases hcompletes : CompletesCard token d ∧ cardPhase memberId token done = .started
    · refine Or.inr (Or.inl ⟨hcompletes.1, hcompletes.2, ?_⟩)
      rw [cardPhase, if_neg hstarts, if_pos hcompletes]
    · by_cases hdeletes : DeletesCard token d
      · refine Or.inr (Or.inr (Or.inl ?_))
        rw [cardPhase, if_neg hstarts, if_neg hcompletes, if_pos hdeletes]
      · refine Or.inr (Or.inr (Or.inr ⟨hdeletes, ?_⟩))
        rw [cardPhase, if_neg hstarts, if_neg hcompletes, if_neg hdeletes]

/-! ## What a call does to the rows -/

/-- Where the row of a card ends up: its member and its token stay, an active card stays active
unless its token is deleted, and a completed card is active. -/
structure RowStep (d : Call × JsonObject) (row row' : CardVo) : Prop where
  member : row'.MEMBER_ID = row.MEMBER_ID
  token : row'.CARD_TOKEN = row.CARD_TOKEN
  active : row.USE_FLAG = "Y" → ¬ DeletesCard row.CARD_TOKEN d → row'.USE_FLAG = "Y"
  completed : CompletesCard row.CARD_TOKEN d → row'.USE_FLAG = "Y"

/-- Every row has its place in the table after the call, and a started card has a row. -/
structure CardStep (d : Call × JsonObject) (cards cards' : List CardVo) : Prop where
  row : ∀ row ∈ cards, ∃ row' ∈ cards', RowStep d row row'
  started : ∀ memberId token, StartsCard memberId token d →
    ∃ row ∈ cards', row.MEMBER_ID = memberId ∧ row.CARD_TOKEN = token

theorem RowStep.refl {d : Call × JsonObject} {row : CardVo}
    (hcompletes : ¬ CompletesCard row.CARD_TOKEN d) : RowStep d row row :=
  ⟨rfl, rfl, fun h _ => h, fun h => absurd h hcompletes⟩

/-- A call that neither starts nor completes a card, on a table that stays. -/
theorem CardStep.same {d : Call × JsonObject} {cards cards' : List CardVo} (hcards : cards' = cards)
    (hstarts : ∀ memberId token, ¬ StartsCard memberId token d)
    (hcompletes : ∀ token, ¬ CompletesCard token d) : CardStep d cards cards' := by
  constructor
  · intro row hrow
    refine ⟨row, ?_, RowStep.refl (hcompletes _)⟩
    rw [hcards]
    exact hrow
  · intro memberId token h
    exact absurd h (hstarts memberId token)

/-- An update of the rows one by one. -/
theorem CardStep.map {d : Call × JsonObject} {cards : List CardVo} {f : CardVo → CardVo}
    (hstarts : ∀ memberId token, ¬ StartsCard memberId token d)
    (hf : ∀ row ∈ cards, RowStep d row (f row)) : CardStep d cards (cards.map f) := by
  constructor
  · intro row hrow
    exact ⟨f row, List.mem_map_of_mem hrow, hf row hrow⟩
  · intro memberId token h
    exact absurd h (hstarts memberId token)

/-- An update by the row that was read, on the only row of its token. -/
theorem update_flag {cards : List CardVo} {token : String} {card vo row : CardVo}
    (hcard : oneCard cards token = some card) (hrow : row ∈ cards)
    (htoken : vo.CARD_TOKEN = card.CARD_TOKEN) :
    (row = card ∧ (vo.update row).USE_FLAG = vo.USE_FLAG) ∨
      (row.CARD_TOKEN ≠ card.CARD_TOKEN ∧ vo.update row = row) := by
  by_cases h : row.CARD_TOKEN = vo.CARD_TOKEN
  · refine Or.inl ⟨?_, ?_⟩
    · apply eq_of_oneCard hcard hrow
      rw [h, htoken]
      exact (mem_of_oneCard hcard).2
    · unfold CardVo.update
      rw [if_pos h]
  · refine Or.inr ⟨?_, CardVo.update_of_ne h⟩
    rw [← htoken]
    exact h

/-- **Every call** moves the rows so. -/
theorem Outcome.cardStep {env : Env} {s s' : Store} {call : Call} {reply : JsonObject}
    (h : Outcome env s call reply s') : CardStep (call, reply) s.cards s'.cards := by
  have hnoStart {operation : Operation} {request reply : JsonObject}
      (hop : operation ≠ .registCard) (memberId token : String) :
      ¬ StartsCard memberId token (⟨operation, request⟩, reply) := fun h => hop h.1
  have hnoEnd {operation : Operation} {request reply : JsonObject}
      (hop : operation ≠ .registCard) (token : String) :
      ¬ CompletesCard token (⟨operation, request⟩, reply) := fun h => hop h.1
  cases h with
  | refused hreply hsame hstay =>
    exact .same hsame.2.1 (fun _ _ h => hreply h.2.2.2.2) (fun _ h => hreply h.2.2.2)
  | listed => exact .same rfl (hnoStart (by decide)) (hnoEnd (by decide))
  | resetStarted hmember htype hm hc ha =>
    exact .same hc (hnoStart (by decide)) (hnoEnd (by decide))
  | paymentStarted hstep hmember horder hreply hnonce hm hc ha =>
    exact .same hc (hnoStart (by decide)) (hnoEnd (by decide))
  | paymentEnded hstep hmember hm hc ha =>
    exact .same hc (hnoStart (by decide)) (hnoEnd (by decide))
  | @cardStarted request reply memberId token row s' hstep hmember htoken hrow hm hc ha =>
    constructor
    · intro r hr
      refine ⟨r, ?_, RowStep.refl ?_⟩
      · rw [hc]
        exact List.mem_append_left _ hr
      · rintro ⟨-, h2, -⟩
        rw [hstep] at h2
        exact absurd h2 (by decide)
    · rintro m t ⟨-, -, hm', ht', -⟩
      have hmm : memberId = m := Option.some.inj (hmember.symm.trans hm')
      have htt : token = t := Option.some.inj (htoken.symm.trans ht')
      refine ⟨row, ?_, hrow.1.trans hmm, hrow.2.trans htt⟩
      rw [hc]
      exact List.mem_append_right _ (List.mem_singleton_self row)
  | @cardCompleted request reply token card vo hstep htoken hcard hflag hvo =>
    apply CardStep.map
    · rintro m t ⟨-, h1, -⟩
      rw [hstep] at h1
      exact absurd h1 (by decide)
    · intro row hrow
      rcases update_flag hcard hrow hvo.1 with ⟨rfl, hy⟩ | ⟨hne, hid⟩
      · rw [hvo.2] at hy
        exact ⟨CardVo.update_MEMBER_ID _ _, CardVo.update_CARD_TOKEN _ _, fun _ _ => hy, fun _ => hy⟩
      · rw [hid]
        apply RowStep.refl
        rintro ⟨-, -, ht, -⟩
        have htt : token = row.CARD_TOKEN := Option.some.inj (htoken.symm.trans ht)
        exact hne (htt.symm.trans (mem_of_oneCard hcard).2.symm)
  | @cardRenamed request reply token nick card hcard =>
    refine CardStep.map (hnoStart (by decide)) ?_
    intro row hrow
    have hvo : ({ card with CARD_NICK := nick } : CardVo).CARD_TOKEN = card.CARD_TOKEN := rfl
    rcases update_flag hcard hrow hvo with ⟨rfl, hflag⟩ | ⟨-, hid⟩
    · exact ⟨CardVo.update_MEMBER_ID _ _, CardVo.update_CARD_TOKEN _ _,
        fun hy _ => hflag.trans hy, fun hend => absurd hend (hnoEnd (by decide) _)⟩
    · rw [hid]
      exact RowStep.refl (hnoEnd (by decide) _)
  | @cardDeleted request reply token card hreply htoken hcard =>
    refine CardStep.map (hnoStart (by decide)) ?_
    intro row hrow
    have hvo : ({ card with USE_FLAG := "D" } : CardVo).CARD_TOKEN = card.CARD_TOKEN := rfl
    rcases update_flag hcard hrow hvo with ⟨rfl, -⟩ | ⟨-, hid⟩
    · have hdeletes : DeletesCard row.CARD_TOKEN (⟨.deleteCardOne, request⟩, reply) := by
        refine ⟨rfl, ?_, hreply⟩
        rw [(mem_of_oneCard hcard).2]
        exact htoken
      exact ⟨CardVo.update_MEMBER_ID _ _, CardVo.update_CARD_TOKEN _ _,
        fun _ hkeep => absurd hdeletes hkeep, fun hend => absurd hend (hnoEnd (by decide) _)⟩
    · rw [hid]
      exact RowStep.refl (hnoEnd (by decide) _)
  | @passwordReset request reply vo s' hm hc ha =>
    rw [hc]
    refine CardStep.map (hnoStart (by decide)) ?_
    intro row hrow
    exact ⟨CardVo.changePwd_MEMBER_ID _ _, CardVo.changePwd_CARD_TOKEN _ _,
      fun hy _ => (CardVo.changePwd_USE_FLAG _ _).trans hy,
      fun hend => absurd hend (hnoEnd (by decide) _)⟩

/-! ## The table keeps what the replies say -/

/-- Started and active cards have a row of the member, active cards an active one. -/
structure Backed (w : World) : Prop where
  started : ∀ memberId token, cardPhase memberId token w.done = .started →
    ∃ row ∈ w.store.cards, row.MEMBER_ID = memberId ∧ row.CARD_TOKEN = token
  active : ∀ memberId token, cardPhase memberId token w.done = .active →
    ∃ row ∈ w.store.cards, row.MEMBER_ID = memberId ∧ row.CARD_TOKEN = token ∧ row.USE_FLAG = "Y"

theorem backed_start : Backed (World.start []) := by
  constructor
  · intro memberId token h
    cases h
  · intro memberId token h
    cases h

theorem Backed.step {w : World} {s' : Store} {d : Call × JsonObject} (h : Backed w)
    (hd : CardStep d w.store.cards s'.cards) : Backed ⟨s', d :: w.done⟩ := by
  constructor
  · intro memberId token hphase
    rcases cardPhase_cons memberId token d w.done with ⟨hs, -⟩ | ⟨-, -, hnew⟩ | hnew | ⟨-, hold⟩
    · exact hd.started memberId token hs
    · rw [hnew] at hphase
      cases hphase
    · rw [hnew] at hphase
      cases hphase
    · obtain ⟨row, hrow, hm, ht⟩ := h.started memberId token (hold.symm.trans hphase)
      obtain ⟨row', hrow', hstep⟩ := hd.row row hrow
      exact ⟨row', hrow', hstep.member.trans hm, hstep.token.trans ht⟩
  · intro memberId token hphase
    rcases cardPhase_cons memberId token d w.done with
      ⟨-, hnew⟩ | ⟨hc, hstarted, -⟩ | hnew | ⟨hkeep, hold⟩
    · rw [hnew] at hphase
      cases hphase
    · obtain ⟨row, hrow, hm, rfl⟩ := h.started memberId token hstarted
      obtain ⟨row', hrow', hstep⟩ := hd.row row hrow
      exact ⟨row', hrow', hstep.member.trans hm, hstep.token, hstep.completed hc⟩
    · rw [hnew] at hphase
      cases hphase
    · obtain ⟨row, hrow, hm, rfl, hy⟩ := h.active memberId token (hold.symm.trans hphase)
      obtain ⟨row', hrow', hstep⟩ := hd.row row hrow
      exact ⟨row', hrow', hstep.member.trans hm, hstep.token, hstep.active hy hkeep⟩

theorem backed_serve {env : Env} {w : World} (h : Backed w) (call : Call) :
    Backed (serve env w call) := by
  obtain ⟨reply, s', hserve, hout⟩ := serve_outcome env w call
  rw [hserve]
  exact h.step hout.cardStep

/-! ## The charged card -/

/-- Whatever bill key the call sends to KICC is that of an active row of its member. -/
def ChargesOwnCard (env : Env) (w : World) (call : Call) : Prop :=
  (serve env w call).store.approvals = w.store.approvals ∨
  ∃ vo card, (serve env w call).store.approvals = w.store.approvals ++ [vo] ∧
    card ∈ w.store.cards ∧ vo.card_no = card.BILL_KEY ∧
    call.request.get "memberId" = some card.MEMBER_ID ∧ card.USE_FLAG = "Y"

/-- If the call is a payment that is verified, then the token it names was given to its member,
completed, and not deleted since. -/
def UsesActiveCard (w : World) (call : Call) : Prop :=
  ∀ memberId memoryVo cardVo, call.EndsPayment memberId →
    Verifies w.store call.request memberId memoryVo cardVo →
    cardPhase memberId cardVo.CARD_TOKEN w.done = .active

theorem chargesOwnCard_of_usesActiveCard {env : Env} {w : World} {call : Call} (h : Backed w)
    (hactive : UsesActiveCard w call) : ChargesOwnCard env w call := by
  obtain ⟨reply, s', hserve, hout⟩ := serve_outcome env w call
  unfold ChargesOwnCard
  rw [hserve]
  cases hout with
  | refused hreply hsame hstay => exact Or.inl hsame.2.2
  | listed => exact Or.inl rfl
  | cardStarted hstep hmember htoken hrow hm hc ha => exact Or.inl ha
  | cardCompleted => exact Or.inl rfl
  | cardRenamed => exact Or.inl rfl
  | cardDeleted => exact Or.inl rfl
  | passwordReset hm hc ha => exact Or.inl ha
  | resetStarted hmember htype hm hc ha => exact Or.inl ha
  | paymentStarted hstep hmember horder hreply hnonce hm hc ha => exact Or.inl ha
  | @paymentEnded request reply memberId s' hstep hmember hm hc ha =>
    rcases ha with ha | ⟨vo, ⟨memoryVo, card, orderId, n, info, ip, hv, horder, hinfo, rfl⟩, ha⟩
    · exact Or.inl ha
    · have hphase := hactive memberId memoryVo card ⟨rfl, hstep, hmember⟩ hv
      obtain ⟨row, hrow, hown, htoken, hy⟩ := h.active _ _ hphase
      obtain ⟨token, hreq, hcard⟩ := hv.card
      -- the token has one row, so the row that was checked is the member's
      have heq : row = card := eq_of_oneCard hcard hrow (htoken.trans (mem_of_oneCard hcard).2)
      subst heq
      refine Or.inr ⟨_, row, ha, hrow, rfl, ?_, hy⟩
      rw [hown]
      exact hmember

/-- **Own active card.**  In a run from an empty table in which every verified payment names an
active token of its member, every bill key sent is that of an active row of the member. -/
theorem own_card_charged (env : Env) (calls : List Call)
    (hactive : StepRun.Along (serve env) UsesActiveCard (World.start []) calls) :
    StepRun.Along (serve env) (ChargesOwnCard env) (World.start []) calls := by
  have hstep (w : World) (call : Call) (h : Backed w) (_ : UsesActiveCard w call) :
      Backed (serve env w call) := backed_serve h call
  have hat := StepRun.invariant_at (serve env) hstep backed_start hactive
  exact hat.mono _ fun w call h => chargesOwnCard_of_usesActiveCard h.1 h.2

/-! ## A card registered, and deleted -/

def startCard : Call :=
  ⟨.registCard, [("step", "1"), ("memberId", "m"), ("cardNick", "card"), ("secretKey", "c2VjcmV0")]⟩

def completeCard (token : String) : Call :=
  ⟨.registCard, [("step", "2"), ("r_res_cd", "0000"), ("r_order_no", token), ("r_card_no", "b"),
    ("r_issuer_cd", "01"), ("r_issuer_nm", "issuer"), ("r_cno", "1")]⟩

def deleteCard (token : String) : Call :=
  ⟨.deleteCardOne, [("step", "1"), ("memberId", "m"), ("cardToken", token)]⟩

theorem own_card_charged_registered :
    StepRun.Along (serve .willing) (ChargesOwnCard .willing) (World.start [])
      [startCard, completeCard "nonce0", startPayment "o1",
        endPayment "nonce0" "nonce1" "o1" "o1"] := by
  apply own_card_charged
  refine ⟨?_, ?_, ?_, ?_, trivial⟩
  · rintro memberId memoryVo card ⟨hop, -⟩ hv
    exact absurd hop (by decide)
  · rintro memberId memoryVo card ⟨hop, -⟩ hv
    exact absurd hop (by decide)
  · rintro memberId memoryVo card ⟨-, hstep, -⟩ hv
    exact absurd hstep (by decide)
  · rintro memberId memoryVo card ⟨-, -, hmember⟩ hv
    have hm : "m" = memberId := Option.some.inj hmember
    subst hm
    obtain ⟨token, htoken, hcard⟩ := hv.card
    have ht : "nonce0" = token := Option.some.inj htoken
    subst ht
    rw [(mem_of_oneCard hcard).2]
    decide +kernel

/-- The payment goes through after the card has been deleted. -/
theorem deleted_card_charged :
    ¬ StepRun.Along (serve .willing) (ChargesOwnCard .willing) (World.start [])
      [startCard, completeCard "nonce0", deleteCard "nonce0", startPayment "o1",
        endPayment "nonce0" "nonce1" "o1" "o1"] := by
  rintro ⟨-, -, -, -, hcharges, -⟩
  rcases hcharges with hsame | ⟨vo, card, -, hcard, -, -, hy⟩
  · have hlen := congrArg List.length hsame
    revert hlen
    decide +kernel
  · have hall : ∀ card ∈ (StepRun.run (serve .willing) (World.start []) [startCard,
        completeCard "nonce0", deleteCard "nonce0", startPayment "o1"]).store.cards,
        card.USE_FLAG ≠ "Y" := by decide +kernel
    exact hall card hcard hy

end MoaCrypto.SimplePay
