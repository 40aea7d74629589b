import MoaCrypto.SimplePay.Outcome

/-!
# The columns of a card

The handlers fill a `CardVo`, the statements of the mapper name columns.  What an operation sets is
read back if every field it sets is named on both sides.  `updateCardInfo` names neither column of
the issuer, which the second step of a registration sets: `reads_back_iff`.

The date that the update itself sets is not a field that an operation sets, and is left out.
-/

namespace MoaCrypto.SimplePay

open Java QueryProg

/-- The columns that `getUserCardList` selects. -/
def CardVo.listed (row : CardVo) : CardVo :=
  { CARD_TOKEN := row.CARD_TOKEN, SEQ := row.SEQ, MEMBER_ID := row.MEMBER_ID,
    CARD_NICK := row.CARD_NICK, ISSUER_NM := row.ISSUER_NM }

/-- What the second step of a registration is let through with. -/
structure Completes (s : Store) (request : JsonObject) (token billKey issuerCd issuerNm cno : String)
    (card : CardVo) : Prop where
  hstep : request.get "step" = some "2"
  hresCd : request.get "r_res_cd" = some "0000"
  htoken : request.get "r_order_no" = some token
  hcard : oneCard s.cards token = some card
  hflag : card.USE_FLAG = "N"
  hbillKey : request.get "r_card_no" = some billKey
  hissuerCd : request.get "r_issuer_cd" = some issuerCd
  hissuerNm : request.get "r_issuer_nm" = some issuerNm
  hcno : request.get "r_cno" = some cno

/-- The row that an operation has read, and the `CardVo` that it hands to `updateUserCard`. -/
inductive Updates (s : Store) : Call → CardVo → CardVo → Prop
  | registCard {request : JsonObject} {token billKey issuerCd issuerNm cno : String} {card : CardVo}
      (h : Completes s request token billKey issuerCd issuerNm cno card) :
      Updates s ⟨.registCard, request⟩ card
        { card with BILL_KEY := billKey, ISSUER_CD := issuerCd, ISSUER_NM := issuerNm, CNO := cno,
                    USE_FLAG := "Y" }
  | changeCardNick {request : JsonObject} {memberId token nick : String} {card : CardVo}
      (hstep : request.get "step" = some "1") (hmember : request.get "memberId" = some memberId)
      (htoken : request.get "cardToken" = some token) (hnick : request.get "cardNick" = some nick)
      (hcard : oneCard s.cards token = some card) (hown : card.MEMBER_ID = memberId) :
      Updates s ⟨.changeCardNick, request⟩ card { card with CARD_NICK := nick }
  | deleteCardOne {request : JsonObject} {memberId token : String} {card : CardVo}
      (hstep : request.get "step" = some "1") (hmember : request.get "memberId" = some memberId)
      (htoken : request.get "cardToken" = some token) (hcard : oneCard s.cards token = some card)
      (hown : card.MEMBER_ID = memberId) (hflag : card.USE_FLAG ≠ "D") :
      Updates s ⟨.deleteCardOne, request⟩ card { card with USE_FLAG := "D" }

/-- The `CardVo` that an operation hands to `addUserCard`. -/
inductive Inserts (env : Env) (s : Store) : Call → CardVo → Prop
  | registCard {request : JsonObject} {memberId cardNick secretKey : String}
      (hstep : request.get "step" = some "1") (hmember : request.get "memberId" = some memberId)
      (hnick : request.get "cardNick" = some cardNick)
      (hsecret : request.get "secretKey" = some secretKey) :
      Inserts env s ⟨.registCard, request⟩
        { MEMBER_ID := memberId, CARD_NICK := cardNick, SECRET_KEY := secretKey,
          CARD_TOKEN := env.uuid s.calls, BILL_KEY := env.uuid s.calls }

/-- The store after a call. -/
def after (env : Env) (s : Store) (call : Call) : Store := ((handle env call).run (perform env) s).2

/-- A row is read as it is: one at a time by its token, and in the list while it is active. -/
structure ReadAs (s : Store) (row : CardVo) : Prop where
  one : oneCard s.cards row.CARD_TOKEN = some row
  list : row.USE_FLAG = "Y" → row.listed ∈ userCardList s.cards row.MEMBER_ID

/-- What a call writes to a card is what is read back. -/
structure ReadsBack (env : Env) (s : Store) (call : Call) : Prop where
  /-- An updated row has the fields that the operation has set, its other columns as they were,
  and the other rows are as they were. -/
  updated : ∀ card vo, Updates s call card vo → ReadAs (after env s call) vo ∧
    (after env s call).cards.filter (fun row => row.CARD_TOKEN ≠ card.CARD_TOKEN) =
      s.cards.filter fun row => row.CARD_TOKEN ≠ card.CARD_TOKEN
  /-- An inserted row has the fields that the operation has set, and is read if its token is new. -/
  inserted : ∀ vo, Inserts env s call vo → ∃ row, (after env s call).cards = s.cards ++ [row] ∧
    (row.MEMBER_ID = vo.MEMBER_ID ∧ row.CARD_NICK = vo.CARD_NICK ∧ row.SECRET_KEY = vo.SECRET_KEY ∧
      row.CARD_TOKEN = vo.CARD_TOKEN ∧ row.BILL_KEY = vo.BILL_KEY) ∧
    ((∀ old ∈ s.cards, old.CARD_TOKEN ≠ vo.CARD_TOKEN) → ReadAs (after env s call) row)

/-! ## Rows -/

theorem ReadAs.of_filter {s : Store} {row : CardVo}
    (h : (s.cards.filter fun r => r.CARD_TOKEN = row.CARD_TOKEN) = [row]) : ReadAs s row := by
  have hone := oneCard_eq_some.mpr h
  refine ⟨hone, ?_⟩
  intro hflag
  refine List.mem_map.mpr ⟨row, List.mem_filter.mpr ⟨(mem_of_oneCard hone).1, ?_⟩, rfl⟩
  simpa using hflag

/-- The rows of a token, and the others, after an update of the token's only row. -/
theorem filter_update {cards : List CardVo} {token : String} {card vo : CardVo}
    (hcard : oneCard cards token = some card) (hvo : vo.CARD_TOKEN = token) :
    ((cards.map vo.update).filter fun row => row.CARD_TOKEN = token) = [vo.update card] ∧
      ((cards.map vo.update).filter fun row => row.CARD_TOKEN ≠ token) =
        cards.filter fun row => row.CARD_TOKEN ≠ token := by
  constructor
  · rw [List.filter_map]
    simp only [Function.comp_def, CardVo.update_CARD_TOKEN]
    rw [oneCard_eq_some.mp hcard]
    rfl
  · rw [List.filter_map]
    simp only [Function.comp_def, CardVo.update_CARD_TOKEN]
    rw [List.map_congr_left fun row hrow => CardVo.update_of_ne ?_, List.map_id']
    rw [hvo]
    simpa using (List.mem_filter.mp hrow).2

/-! ## What the calls hand over -/

/-- The row is handed over with its own token and member. -/
theorem Updates.card {s : Store} {call : Call} {card vo : CardVo} (h : Updates s call card vo) :
    oneCard s.cards vo.CARD_TOKEN = some card ∧ vo.CARD_TOKEN = card.CARD_TOKEN := by
  cases h with
  | registCard h =>
    have htoken := (mem_of_oneCard h.hcard).2
    exact ⟨by rw [htoken]; exact h.hcard, rfl⟩
  | changeCardNick _ _ _ _ hcard _ =>
    have htoken := (mem_of_oneCard hcard).2
    exact ⟨by rw [htoken]; exact hcard, rfl⟩
  | deleteCardOne _ _ _ hcard _ _ =>
    have htoken := (mem_of_oneCard hcard).2
    exact ⟨by rw [htoken]; exact hcard, rfl⟩

theorem after_of_ends {env : Env} {s s' : Store} {call : Call}
    (h : Prog.Ends (perform env) (fun _ t => t = s') (fun _ _ => False) (handle env call) s) :
    after env s call = s' := by
  obtain ⟨reply, t, hrun, rfl⟩ := h.returns
  rw [after, hrun]

theorem after_updates (env : Env) {s : Store} {call : Call} {card vo : CardVo}
    (h : Updates s call card vo) :
    after env s call = { s with cards := s.cards.map vo.update } := by
  apply after_of_ends
  cases h with
  | registCard h =>
    refine Prog.Ends.tryCatch (?_ : Prog.Ends _ _ (fun _ _ => False) _ s) (fun _ _ h => h.elim)
    refine Prog.Ends.orFail_bind_some h.hstep ?_
    refine Prog.Ends.ite (fun h1 => absurd h1 (by decide)) (fun _ => ?_)
    refine Prog.Ends.ite (fun _ => ?_) (fun h2 => absurd rfl h2)
    refine Prog.Ends.orFail_bind_some h.hresCd ?_
    refine Prog.Ends.ite (fun hbad => absurd rfl hbad) (fun _ => ?_)
    refine Prog.Ends.orFail_bind_some h.htoken ?_
    apply Prog.Ends.bind_ok (run_getUserCardInfoOne env _ s)
    refine Prog.Ends.orFail_bind_some h.hcard ?_
    refine Prog.Ends.ite (fun hbad => absurd h.hflag hbad) (fun _ => ?_)
    refine Prog.Ends.orFail_bind_some h.hbillKey ?_
    refine Prog.Ends.orFail_bind_some h.hissuerCd ?_
    refine Prog.Ends.orFail_bind_some h.hissuerNm ?_
    refine Prog.Ends.orFail_bind_some h.hcno ?_
    apply ends_update
    exact rfl
  | changeCardNick hstep hmember htoken hnick hcard hown =>
    refine Prog.Ends.tryCatch (?_ : Prog.Ends _ _ (fun _ _ => False) _ s) (fun _ _ h => h.elim)
    refine Prog.Ends.orFail_bind_some hstep ?_
    refine Prog.Ends.ite (fun _ => ?_) (fun h1 => absurd rfl h1)
    refine Prog.Ends.orFail_bind_some hmember ?_
    refine Prog.Ends.orFail_bind_some htoken ?_
    refine Prog.Ends.orFail_bind_some hnick ?_
    apply Prog.Ends.bind_ok (run_getUserCardInfoOne env _ s)
    refine Prog.Ends.orFail_bind_some hcard ?_
    refine Prog.Ends.ite (fun hbad => absurd hown.symm hbad) (fun _ => ?_)
    apply ends_update
    exact rfl
  | deleteCardOne hstep hmember htoken hcard hown hflag =>
    refine Prog.Ends.tryCatch (?_ : Prog.Ends _ _ (fun _ _ => False) _ s) (fun _ _ h => h.elim)
    refine Prog.Ends.orFail_bind_some hstep ?_
    refine Prog.Ends.ite (fun _ => ?_) (fun h1 => absurd rfl h1)
    refine Prog.Ends.orFail_bind_some hmember ?_
    refine Prog.Ends.orFail_bind_some htoken ?_
    apply Prog.Ends.bind_ok (run_getUserCardInfoOne env _ s)
    refine Prog.Ends.orFail_bind_some hcard ?_
    refine Prog.Ends.ite (fun hbad => absurd hown.symm hbad) (fun _ => ?_)
    refine Prog.Ends.ite (fun hbad => absurd hbad hflag) (fun _ => ?_)
    apply ends_update
    exact rfl

theorem after_inserts (env : Env) {s : Store} {call : Call} {vo : CardVo}
    (h : Inserts env s call vo) :
    (after env s call).cards = s.cards ++ [env.insertedCard vo] := by
  cases h with
  | @registCard request memberId cardNick secretKey hstep hmember hnick hsecret =>
    have hafter : after env s ⟨.registCard, request⟩ =
        { s with
          cards := s.cards ++ [env.insertedCard
            { MEMBER_ID := memberId, CARD_NICK := cardNick, SECRET_KEY := secretKey,
              CARD_TOKEN := env.uuid s.calls, BILL_KEY := env.uuid s.calls }]
          calls := s.calls + 1 } := by
      apply after_of_ends
      refine Prog.Ends.tryCatch (?_ : Prog.Ends _ _ (fun _ _ => False) _ s) (fun _ _ h => h.elim)
      refine Prog.Ends.orFail_bind_some hstep ?_
      refine Prog.Ends.ite (fun _ => ?_) (fun h1 => absurd rfl h1)
      refine Prog.Ends.orFail_bind_some hmember ?_
      refine Prog.Ends.orFail_bind_some hnick ?_
      refine Prog.Ends.orFail_bind_some hsecret ?_
      exact rfl
    rw [hafter]

/-! ## What is read back -/

/-- The row of the token after the update. -/
theorem oneCard_after (env : Env) {s : Store} {call : Call} {card vo : CardVo}
    (h : Updates s call card vo) :
    oneCard (after env s call).cards vo.CARD_TOKEN = some (vo.update card) := by
  rw [after_updates env h]
  exact oneCard_eq_some.mpr (filter_update h.card.1 rfl).1

/-- The statement names every column that `vo` changes, or not: the issuer. -/
theorem Updates.update_eq_iff {s : Store} {call : Call} {card vo : CardVo} (h : Updates s call card vo) :
    vo.update card = vo ↔ vo.ISSUER_CD = card.ISSUER_CD ∧ vo.ISSUER_NM = card.ISSUER_NM := by
  rw [CardVo.update, if_pos h.card.2.symm]
  cases h with
  | registCard _ =>
    rw [CardVo.mk.injEq]
    simp only [true_and]
    constructor
    · rintro ⟨hnm, hcd⟩
      exact ⟨hcd.symm, hnm.symm⟩
    · rintro ⟨hcd, hnm⟩
      exact ⟨hnm.symm, hcd.symm⟩
  | changeCardNick _ _ _ _ _ _ => exact iff_of_true rfl ⟨rfl, rfl⟩
  | deleteCardOne _ _ _ _ _ _ => exact iff_of_true rfl ⟨rfl, rfl⟩

theorem Updates.readAs (env : Env) {s : Store} {call : Call} {card vo : CardVo}
    (h : Updates s call card vo) (hissuer : vo.ISSUER_CD = card.ISSUER_CD ∧ vo.ISSUER_NM = card.ISSUER_NM) :
    ReadAs (after env s call) vo ∧
      (after env s call).cards.filter (fun row => row.CARD_TOKEN ≠ card.CARD_TOKEN) =
        s.cards.filter fun row => row.CARD_TOKEN ≠ card.CARD_TOKEN := by
  obtain ⟨hone, htoken⟩ := h.card
  obtain ⟨hrow, hothers⟩ := filter_update hone rfl
  rw [h.update_eq_iff.mpr hissuer] at hrow
  rw [after_updates env h]
  refine ⟨ReadAs.of_filter hrow, ?_⟩
  rw [← htoken]
  exact hothers

theorem Inserts.readAs (env : Env) {s : Store} {call : Call} {vo : CardVo} (h : Inserts env s call vo)
    (hnew : ∀ old ∈ s.cards, old.CARD_TOKEN ≠ vo.CARD_TOKEN) :
    ReadAs (after env s call) (env.insertedCard vo) := by
  apply ReadAs.of_filter
  have hold : (s.cards.filter fun row => row.CARD_TOKEN = vo.CARD_TOKEN) = [] := by
    rw [List.filter_eq_nil_iff]
    intro old hmem heq
    exact hnew old hmem (of_decide_eq_true heq)
  rw [after_inserts env h, List.filter_append]
  show (s.cards.filter fun row => row.CARD_TOKEN = vo.CARD_TOKEN) ++ _ = _
  rw [hold, List.nil_append]
  exact List.filter_cons_of_pos (decide_eq_true rfl)

/-- **What a call writes to a card is read back**, unless it completes a registration with another
issuer than the row already has. -/
theorem reads_back_iff (env : Env) (s : Store) (call : Call) :
    ReadsBack env s call ↔
      ∀ request token billKey issuerCd issuerNm cno card, call = ⟨.registCard, request⟩ →
        Completes s request token billKey issuerCd issuerNm cno card →
        issuerCd = card.ISSUER_CD ∧ issuerNm = card.ISSUER_NM := by
  constructor
  · rintro h request token billKey issuerCd issuerNm cno card rfl hcompletes
    have hupdates := Updates.registCard hcompletes
    have hread := (h.updated _ _ hupdates).1.one
    rw [oneCard_after env hupdates] at hread
    exact hupdates.update_eq_iff.mp (Option.some.inj hread)
  · intro hissuer
    constructor
    · intro card vo hupdates
      refine hupdates.readAs env ?_
      cases hupdates with
      | registCard hcompletes => exact hissuer _ _ _ _ _ _ _ rfl hcompletes
      | changeCardNick _ _ _ _ _ _ => exact ⟨rfl, rfl⟩
      | deleteCardOne _ _ _ _ _ _ => exact ⟨rfl, rfl⟩
    · intro vo hinserts
      exact ⟨env.insertedCard vo, after_inserts env hinserts, ⟨rfl, rfl, rfl, rfl, rfl⟩,
        hinserts.readAs env⟩

/-- The issuer of a completed registration is dropped. -/
theorem not_reads_back_issuer :
    ¬ ReadsBack .willing
      { Store.empty with cards := [{ MEMBER_ID := "member", CARD_TOKEN := "token", USE_FLAG := "N" }] }
      ⟨.registCard, [("step", "2"), ("r_res_cd", "0000"), ("r_order_no", "token"), ("r_card_no", "bill"),
        ("r_issuer_cd", "029"), ("r_issuer_nm", "issuer"), ("r_cno", "cno")]⟩ := by
  intro h
  have hread := (h.updated _ _ (.registCard ⟨rfl, rfl, rfl, rfl, rfl, rfl, rfl, rfl, rfl⟩)).1.one
  exact absurd hread (by decide)

end MoaCrypto.SimplePay
