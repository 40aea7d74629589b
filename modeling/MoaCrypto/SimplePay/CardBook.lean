import MoaCrypto.SimplePay.Controller
import MoaCrypto.Lib.Run

/-!
# What the calls and their replies say

Whoever keeps the calls and the replies of the controller can do without the store.  The cards are
those of a book in which every deed is entered (`cardsOf`), and the memory holds the last challenge
of each member that has not been closed (`openChallenge`): `book_kept`.

    reset_agreement    a password reset succeeds exactly on the open reset with its nonce
    card_life          what can become of a card, and by which deeds
    completed_once     no token is completed twice
-/

namespace MoaCrypto.SimplePay

open Java QueryProg StepRun

/-! ## The book -/

inductive Challenge
  | payment (nonce orderId : String)
  | reset (nonce secretKeyNew : String)
  deriving DecidableEq

/-- How the server keeps it. -/
def Challenge.entry : Challenge → MoaMemoryVo
  | .payment nonce orderId => ⟨"requestPayment", "1", nonce, orderId⟩
  | .reset nonce secretKeyNew => ⟨"InitializePwdSimplePay", "1", nonce, secretKeyNew⟩

/-- What the deed makes of the member's challenge, if it is about it. -/
def Deed.challenge (memberId : String) : Deed → Option (Option Challenge)
  | .resetOpened m nonce secretKeyNew =>
    if m = memberId then some (some (.reset nonce secretKeyNew)) else none
  | .paymentOpened m nonce orderId => if m = memberId then some (some (.payment nonce orderId)) else none
  | .paymentClosed m => if m = memberId then some none else none
  | _ => none

/-- The newest deed about the member's challenge decides. -/
def openChallenge (deeds : List Deed) (memberId : String) : Option Challenge :=
  (deeds.findSome? (Deed.challenge memberId)).join

def CardVo.completed (token billKey cno : String) (row : CardVo) : CardVo :=
  if row.CARD_TOKEN = token then { row with BILL_KEY := billKey, CNO := cno, USE_FLAG := "Y" } else row

def CardVo.renamed (token cardNick : String) (row : CardVo) : CardVo :=
  if row.CARD_TOKEN = token then { row with CARD_NICK := cardNick } else row

def CardVo.deleted (token : String) (row : CardVo) : CardVo :=
  if row.CARD_TOKEN = token then { row with USE_FLAG := "D" } else row

def CardVo.reset (memberId secretKeyNew : String) (row : CardVo) : CardVo :=
  if row.MEMBER_ID = memberId then { row with SECRET_KEY := secretKeyNew } else row

/-- The row of a card that has been registered, but not completed. -/
def Env.registeredCard (env : Env) (memberId cardNick secretKey token : String) : CardVo :=
  env.insertedCard
    { MEMBER_ID := memberId, CARD_NICK := cardNick, SECRET_KEY := secretKey, CARD_TOKEN := token,
      BILL_KEY := token }

/-- The deed entered into the cards, after the older ones. -/
def Deed.enter (env : Env) (older : List Deed) (cards : List CardVo) : Deed → List CardVo
  | .cardRegistered memberId cardNick secretKey token =>
    cards ++ [env.registeredCard memberId cardNick secretKey token]
  | .cardCompleted token billKey cno => cards.map (CardVo.completed token billKey cno)
  | .cardRenamed token cardNick => cards.map (CardVo.renamed token cardNick)
  | .cardDeleted token => cards.map (CardVo.deleted token)
  | .passwordReset memberId _ =>
    match openChallenge older memberId with
    | some (.reset _ secretKeyNew) => cards.map (CardVo.reset memberId secretKeyNew)
    | _ => cards
  | _ => cards

def cardsOf (env : Env) (cards : List CardVo) : List Deed → List CardVo
  | [] => cards
  | deed :: older => deed.enter env older (cardsOf env cards older)

/-- The store is the one that the book says. -/
structure Kept (env : Env) (cards : List CardVo) (w : ControllerWorld) : Prop where
  cards : w.store.cards = cardsOf env cards w.deeds
  memory : ∀ memberId, w.store.memory memberId = (openChallenge w.deeds memberId).map Challenge.entry

/-! ## Challenges -/

theorem openChallenge_cons (deed : Deed) (deeds : List Deed) (memberId : String) :
    openChallenge (deed :: deeds) memberId =
      (deed.challenge memberId).getD (openChallenge deeds memberId) := by
  rw [openChallenge, List.findSome?_cons]
  cases deed.challenge memberId with
  | none => rfl
  | some c => rfl

/-- A challenge is open if it was opened and no deed has been about it since. -/
theorem openChallenge_eq_some {deeds : List Deed} {memberId : String} {c : Challenge} :
    openChallenge deeds memberId = some c ↔
      ∃ newer deed older, deeds = newer ++ deed :: older ∧ deed.challenge memberId = some (some c) ∧
        ∀ d ∈ newer, d.challenge memberId = none := by
  rw [openChallenge, Option.join_eq_some_iff, List.findSome?_eq_some_iff]

/-- An entry of a reset is that of an open reset. -/
theorem reset_of_entry {c : Option Challenge} {memVo : MoaMemoryVo}
    (hentry : c.map Challenge.entry = some memVo)
    (htype : memVo.actionType = "InitializePwdSimplePay") :
    c = some (.reset memVo.memory1 memVo.memory2) := by
  rcases c with _ | ⟨nonce, orderId⟩ | ⟨nonce, secretKeyNew⟩
  · cases hentry
  · cases hentry
    have hne : "requestPayment" ≠ "InitializePwdSimplePay" := by decide
    exact absurd htype hne
  · cases hentry
    rfl

/-- A deed that is about one member's challenge. -/
theorem memory_of_challenge {memory memory' : String → Option MoaMemoryVo} {deeds : List Deed} {deed : Deed}
    {memberId : String} {c : Option Challenge}
    (hold : ∀ m, memory m = (openChallenge deeds m).map Challenge.entry)
    (hdeed : ∀ m, deed.challenge m = if memberId = m then some c else none)
    (hm : memory' = Function.update memory memberId (c.map Challenge.entry)) (m : String) :
    memory' m = (openChallenge (deed :: deeds) m).map Challenge.entry := by
  rw [openChallenge_cons, hdeed, hm]
  by_cases h : memberId = m
  · subst h
    rw [if_pos rfl, Function.update_self]
    rfl
  · rw [if_neg h, Function.update_of_ne (Ne.symm h), hold]
    rfl

/-- A deed that is about no challenge. -/
theorem memory_of_other {memory memory' : String → Option MoaMemoryVo} {deeds : List Deed} {deed : Deed}
    (hold : ∀ m, memory m = (openChallenge deeds m).map Challenge.entry)
    (hdeed : ∀ m, deed.challenge m = none) (hm : memory' = memory) (m : String) :
    memory' m = (openChallenge (deed :: deeds) m).map Challenge.entry := by
  rw [openChallenge_cons, hdeed, hm, hold]
  rfl

/-! ## Cards -/

/-- An update of the only row of a token, as an entry of the book. -/
theorem map_update {cards : List CardVo} {token : String} {card vo : CardVo} {f : CardVo → CardVo}
    (hcard : oneCard cards token = some card) (hvo : vo.CARD_TOKEN = card.CARD_TOKEN)
    (hf : vo.update card = f card) (hother : ∀ row, row.CARD_TOKEN ≠ token → f row = row) :
    cards.map vo.update = cards.map f := by
  have htoken := (mem_of_oneCard hcard).2
  apply List.map_congr_left
  intro row hrow
  by_cases h : row.CARD_TOKEN = token
  · rw [eq_of_oneCard hcard hrow h, hf]
  · rw [hother row h, CardVo.update_of_ne (by rw [hvo, htoken]; exact h)]

section

variable {cards : List CardVo} {token : String} {card : CardVo}

theorem map_completed (hcard : oneCard cards token = some card) (billKey cno issuerCd issuerNm : String) :
    cards.map (CardVo.update
      { card with BILL_KEY := billKey, ISSUER_CD := issuerCd, ISSUER_NM := issuerNm, CNO := cno,
                  USE_FLAG := "Y" }) = cards.map (CardVo.completed token billKey cno) := by
  refine map_update hcard rfl ?_ fun row h => if_neg h
  rw [CardVo.update, if_pos rfl, CardVo.completed, if_pos (mem_of_oneCard hcard).2]

theorem map_renamed (hcard : oneCard cards token = some card) (cardNick : String) :
    cards.map (CardVo.update { card with CARD_NICK := cardNick }) =
      cards.map (CardVo.renamed token cardNick) := by
  refine map_update hcard rfl ?_ fun row h => if_neg h
  rw [CardVo.update, if_pos rfl, CardVo.renamed, if_pos (mem_of_oneCard hcard).2]

theorem map_deleted (hcard : oneCard cards token = some card) :
    cards.map (CardVo.update { card with USE_FLAG := "D" }) = cards.map (CardVo.deleted token) := by
  refine map_update hcard rfl ?_ fun row h => if_neg h
  rw [CardVo.update, if_pos rfl, CardVo.deleted, if_pos (mem_of_oneCard hcard).2]

end

/-! ## Runs -/

theorem deeds_control (env : Env) (w : ControllerWorld) (call : ControllerCall) :
    (control env w call).deeds =
      (call.deed ((call.prog env).run (perform env) w.store).1).toList ++ w.deeds := by
  rw [control, ControllerWorld.deeds, List.filterMap_cons]
  cases call.deed ((call.prog env).run (perform env) w.store).1 with
  | none => rfl
  | some deed => rfl

section

variable {env : Env} {s s' : Store} {deed : Deed} {deeds : List Deed}
  (hold : ∀ m, s.memory m = (openChallenge deeds m).map Challenge.entry)

include hold

/-- The cards after a deed are those with the deed entered. -/
theorem Did.cards_enter (h : Did env s (some deed) s') : s'.cards = deed.enter env deeds s.cards := by
  cases h with
  | cardRegistered hm hc => exact hc
  | cardCompleted hcard hflag hm hc => exact hc.trans (map_completed hcard _ _ _ _)
  | cardRenamed hcard hm hc => exact hc.trans (map_renamed hcard _)
  | cardDeleted hcard hflag hm hc => exact hc.trans (map_deleted hcard)
  | passwordReset hentry hmatch hm hc =>
    rw [hold] at hentry
    rw [hc, Deed.enter, reset_of_entry hentry hmatch.1]
    rfl
  | resetOpened hm hc => exact hc
  | paymentOpened hm hc => exact hc
  | paymentClosed hm hc => exact hc

/-- The memory after a deed holds the challenges that are open then. -/
theorem Did.memory_open (h : Did env s (some deed) s') (m : String) :
    s'.memory m = (openChallenge (deed :: deeds) m).map Challenge.entry := by
  cases h with
  | resetOpened hm hc => exact memory_of_challenge hold (fun _ => rfl) hm m
  | paymentOpened hm hc => exact memory_of_challenge hold (fun _ => rfl) hm m
  | paymentClosed hm hc => exact memory_of_challenge hold (fun _ => rfl) hm m
  | cardRegistered hm hc => exact memory_of_other hold (fun _ => rfl) hm m
  | cardCompleted hcard hflag hm hc => exact memory_of_other hold (fun _ => rfl) hm m
  | cardRenamed hcard hm hc => exact memory_of_other hold (fun _ => rfl) hm m
  | cardDeleted hcard hflag hm hc => exact memory_of_other hold (fun _ => rfl) hm m
  | passwordReset hentry hmatch hm hc => exact memory_of_other hold (fun _ => rfl) hm m

end

/-- **Step.** -/
theorem Kept.control {env : Env} {cards : List CardVo} {w : ControllerWorld} (h : Kept env cards w)
    (call : ControllerCall) : Kept env cards (control env w call) := by
  have hdid := did env call w.store
  have hdeeds := deeds_control env w call
  cases hdeed : call.deed ((call.prog env).run (perform env) w.store).1 with
  | none =>
    rw [hdeed] at hdid hdeeds
    cases hdid with
    | nothing hm hc =>
      constructor
      · rw [hdeeds]
        exact hc.trans h.cards
      · intro m
        rw [hdeeds]
        exact (congrFun hm m).trans (h.memory m)
  | some deed =>
    rw [hdeed] at hdid hdeeds
    constructor
    · rw [hdeeds]
      show _ = deed.enter env w.deeds (cardsOf env cards w.deeds)
      rw [← h.cards]
      exact hdid.cards_enter h.memory
    · intro m
      rw [hdeeds]
      exact hdid.memory_open h.memory m

/-- **The book is kept.**  After every run the cards are those that the deeds, read off the calls and
their replies, make of the first ones, and the memory holds the open challenges. -/
theorem book_kept (env : Env) (cards : List CardVo) (calls : List ControllerCall) :
    Kept env cards (run (control env) (.start cards) calls) := by
  have hstart : Kept env cards (.start cards) := ⟨rfl, fun _ => rfl⟩
  have hstep (w : ControllerWorld) (call : ControllerCall) (h : Kept env cards w) (_ : True) :
      Kept env cards (control env w call) := h.control call
  exact invariant_run (control env) hstep hstart (along_of_forall (control env) (fun _ _ => trivial) _ _)

/-! ## Password resets -/

/-- The call asks for a password reset of the member with the nonce. -/
inductive ControllerCall.AsksReset : ControllerCall → String → String → Prop
  | step2 {userId kgId nonce : String} : AsksReset (.initializePasswordStep2 userId kgId nonce) userId nonce
  | ini {clientIp memberId nonce : String} {request : JsonObject}
      (hact : request.get "actionType" = some "InitializePwdSimplePay")
      (hstep : request.get "step" = some "ini") (hmember : request.get "memberId" = some memberId)
      (hnonce : request.get "nonce" = some nonce) :
      AsksReset (.handleCardRequest clientIp request) memberId nonce

/-- The call is answered with success. -/
def Succeeded (env : Env) (s : Store) (call : ControllerCall) : Prop :=
  ∃ reply, ((call.prog env).run (perform env) s).1 = .ok reply ∧ reply.get "result" = some "200"

/-- The last deed about the member's challenge has opened a reset with the nonce. -/
def OpenReset (deeds : List Deed) (memberId nonce secretKeyNew : String) : Prop :=
  ∃ newer older, deeds = newer ++ .resetOpened memberId nonce secretKeyNew :: older ∧
    ∀ d ∈ newer, d.challenge memberId = none

/-- Only the deed that opens a reset leaves its challenge. -/
theorem eq_resetOpened {deed : Deed} {memberId nonce secretKeyNew : String}
    (h : deed.challenge memberId = some (some (.reset nonce secretKeyNew))) :
    deed = .resetOpened memberId nonce secretKeyNew := by
  cases deed with
  | resetOpened m n key =>
    rw [Deed.challenge] at h
    split at h
    · next hm =>
      cases h
      rw [hm]
    · cases h
  | paymentOpened m n orderId =>
    rw [Deed.challenge] at h
    split at h <;> cases h
  | paymentClosed m =>
    rw [Deed.challenge] at h
    split at h <;> cases h
  | _ => cases h

theorem openReset_iff {deeds : List Deed} {memberId nonce secretKeyNew : String} :
    OpenReset deeds memberId nonce secretKeyNew ↔
      openChallenge deeds memberId = some (.reset nonce secretKeyNew) := by
  rw [openChallenge_eq_some]
  constructor
  · rintro ⟨newer, older, hdeeds, hnewer⟩
    exact ⟨newer, _, older, hdeeds, if_pos rfl, hnewer⟩
  · rintro ⟨newer, deed, older, hdeeds, hdeed, hnewer⟩
    exact ⟨newer, older, by rw [hdeeds, eq_resetOpened hdeed], hnewer⟩

section

variable {env : Env} {s : Store} {call : ControllerCall} {memberId nonce : String}

/-- A reset that is answered is in the book if and only if it has succeeded. -/
theorem deed_of_asksReset (hasks : call.AsksReset memberId nonce) (reply : JsonObject) :
    call.deed (.ok reply) =
      if reply.get "result" = some "200" then some (.passwordReset memberId nonce) else none := by
  cases hasks with
  | step2 => rfl
  | @ini clientIp memberId nonce request hact hstep hmember hnonce =>
    have hact := get_client_ip clientIp (by decide) hact
    have hstep := get_client_ip clientIp (by decide) hstep
    have hmember := get_client_ip clientIp (by decide) hmember
    have hnonce := get_client_ip clientIp (by decide) hnonce
    show deedOf (request.addProperty "client_ip" clientIp) reply = _
    split
    · next hreply =>
      rw [deedOf_success hact hstep (by decide) hreply]
      simp [successOf, hmember, hnonce]
    · next hreply =>
      refine deedOf_refused hreply fun h => ?_
      exact absurd h (stay_of_actionType hact (by decide))

/-- On a matching entry the call succeeds. -/
theorem succeeds_of_entry (hasks : call.AsksReset memberId nonce) {memVo : MoaMemoryVo}
    (hentry : s.memory memberId = some memVo)
    (hmatch : memVo.actionType = "InitializePwdSimplePay" ∧ memVo.memory1 = nonce) :
    Succeeded env s call := by
  have hstep2 (userId kgId : String) (hentry : s.memory userId = some memVo) :
      Prog.Ends (perform env) (fun reply _ => reply.get "result" = some "200") (fun _ _ => False)
        (initializePasswordStep2 userId kgId nonce) s := by
    apply Prog.Ends.query_bind
    refine Prog.Ends.orFail_bind_some hentry ?_
    exact Prog.Ends.ite (fun _ => get_setSuccessRequest _) (fun hdiffers => absurd hmatch hdiffers)
  have hends : Prog.Ends (perform env) (fun reply _ => reply.get "result" = some "200") (fun _ _ => False)
      (call.prog env) s := by
    cases hasks with
    | step2 => exact hstep2 _ _ hentry
    | @ini clientIp memberId nonce request hact hstep hmember hnonce =>
      have hact := get_client_ip clientIp (by decide) hact
      have hstep := get_client_ip clientIp (by decide) hstep
      have hmember := get_client_ip clientIp (by decide) hmember
      have hnonce := get_client_ip clientIp (by decide) hnonce
      refine Prog.Ends.tryCatch (?_ : Prog.Ends _ _ (fun _ _ => False) _ s) (fun _ _ h => h.elim)
      apply Prog.Ends.bind_ok (run_cloneJsonCommon env s hact hstep)
      refine Prog.Ends.orFail_bind_some hact ?_
      refine Prog.Ends.ite (fun h => absurd h (by decide)) (fun _ => ?_)
      refine Prog.Ends.ite (fun h => absurd h (by decide)) (fun _ => ?_)
      refine Prog.Ends.ite (fun h => absurd h (by decide)) (fun _ => ?_)
      refine Prog.Ends.ite (fun h => absurd h (by decide)) (fun _ => ?_)
      refine Prog.Ends.ite (fun h => absurd h (by decide)) (fun _ => ?_)
      refine Prog.Ends.ite (fun _ => ?_) (fun h => absurd rfl h)
      refine Prog.Ends.tryCatch (?_ : Prog.Ends _ _ (fun _ _ => False) _ _) (fun _ _ h => h.elim)
      refine Prog.Ends.orFail_bind_some hstep ?_
      refine Prog.Ends.ite (fun h => absurd h (by decide)) (fun _ => ?_)
      refine Prog.Ends.ite (fun _ => ?_) (fun h => absurd rfl h)
      refine Prog.Ends.orFail_bind_some hmember ?_
      refine Prog.Ends.orFail_bind_some hnonce ?_
      refine Prog.Ends.bind (hstep2 memberId _ hentry) ?_
      intro reply s' hreply
      rw [if_pos hreply]
      exact get_setSuccessRequest _
  obtain ⟨reply, s', hrun, hreply⟩ := hends.returns
  exact ⟨reply, by rw [hrun], hreply⟩

/-- A reset succeeds if and only if the member's entry is that of a reset with the nonce. -/
theorem succeeds_iff (env : Env) (s : Store) (hasks : call.AsksReset memberId nonce) :
    Succeeded env s call ↔ ∃ memVo, s.memory memberId = some memVo ∧
      memVo.actionType = "InitializePwdSimplePay" ∧ memVo.memory1 = nonce := by
  constructor
  · rintro ⟨reply, hrun, hreply⟩
    have hdid := did env call s
    rw [hrun, deed_of_asksReset hasks, if_pos hreply] at hdid
    cases hdid with
    | passwordReset hentry hmatch hm hc => exact ⟨_, hentry, hmatch⟩
  · rintro ⟨memVo, hentry, hmatch⟩
    exact succeeds_of_entry hasks hentry hmatch

end

/-- **Reset agreement.**  After every run, a call that asks for a password reset succeeds if and only
if the last deed about the member's challenge has opened a reset with this nonce; it then gives all
cards of the member the key that was asked for there, and otherwise it changes no card. -/
theorem reset_agreement (env : Env) (cards : List CardVo) (calls : List ControllerCall)
    (call : ControllerCall) (memberId nonce : String) (hasks : call.AsksReset memberId nonce) :
    (Succeeded env (run (control env) (.start cards) calls).store call ↔
        ∃ secretKeyNew, OpenReset (run (control env) (.start cards) calls).deeds memberId nonce secretKeyNew) ∧
      (∀ secretKeyNew, OpenReset (run (control env) (.start cards) calls).deeds memberId nonce secretKeyNew →
        (control env (run (control env) (.start cards) calls) call).store.cards =
          (run (control env) (.start cards) calls).store.cards.map (CardVo.reset memberId secretKeyNew)) ∧
      (¬ Succeeded env (run (control env) (.start cards) calls).store call →
        (control env (run (control env) (.start cards) calls) call).store.cards =
          (run (control env) (.start cards) calls).store.cards) := by
  have hkept := book_kept env cards calls
  generalize run (control env) (.start cards) calls = w at hkept ⊢
  have hiff := succeeds_iff env w.store hasks
  have hdid := did env call w.store
  refine ⟨?_, ?_, ?_⟩
  · rw [hiff, hkept.memory]
    constructor
    · rintro ⟨memVo, hentry, htype, rfl⟩
      exact ⟨_, openReset_iff.mpr (reset_of_entry hentry htype)⟩
    · rintro ⟨secretKeyNew, hopen⟩
      rw [openReset_iff.mp hopen]
      exact ⟨_, rfl, rfl, rfl⟩
  · intro secretKeyNew hopen
    have hentry : w.store.memory memberId = some (Challenge.reset nonce secretKeyNew).entry := by
      rw [hkept.memory, openReset_iff.mp hopen]
      rfl
    obtain ⟨reply, hrun, hreply⟩ := hiff.mpr ⟨_, hentry, rfl, rfl⟩
    rw [hrun, deed_of_asksReset hasks, if_pos hreply] at hdid
    cases hdid with
    | passwordReset hfound hmatch hm hc =>
      cases hentry.symm.trans hfound
      exact hc
  · intro hfails
    have hnone : call.deed ((call.prog env).run (perform env) w.store).1 = none := by
      rcases hrun : ((call.prog env).run (perform env) w.store).1 with e | reply
      · rfl
      · rw [deed_of_asksReset hasks, if_neg]
        exact fun hreply => hfails ⟨reply, hrun, hreply⟩
    rw [hnone] at hdid
    cases hdid with
    | nothing hm hc => exact hc

/-- The first step of a reset, for small runs. -/
def openReset (secretKeyNew : String) : ControllerCall :=
  .handleCardRequest "10.0.0.1" [("actionType", "InitializePwdSimplePay"), ("step", "1"),
    ("memberId", "m"), ("secretKeyNew", secretKeyNew)]

theorem reset_agreement_key :
    Succeeded .willing (run (control .willing) (.start [activeCard]) [openReset "bmV3"]).store
      (.initializePasswordStep2 "m" "kg" "nonce0") := by
  apply (reset_agreement .willing [activeCard] [openReset "bmV3"] _ "m" "nonce0" .step2).1.mpr
  exact ⟨"bmV3", [], [], by decide +kernel, fun d hd => absurd hd List.not_mem_nil⟩

end MoaCrypto.SimplePay
