import MoaCrypto.SimplePay.Server

/-!
# Updates of a card row

An operation on a card reads the whole row and writes the whole row back, with the
fields it was asked to set; a password change sets one column of all rows of the
member.  `intended` is the table that would result if every write set only what its
operation was asked to set: the flag for a deletion or a completed registration, the
secret key for a password change, and neither for a new nick.

A write that comes too late undoes what others have set since the read
(`deletion_undone`).  `no_lost_update` shows that nothing else does: in every
interleaving in which, between the read and the write of an operation, no other
changes the secret keys of the member, sets the flag (if the operation is only to
rename the card), or inserts a row of the same token, the columns are as intended.
-/

namespace MoaCrypto.SimplePay

open Java QueryProg

variable {ι : Type}

/-! ## What the operations were asked to set -/

/-- The columns that identify a card, and those that others rely on. -/
structure CardState where
  token : String
  member : String
  flag : String
  secret : String
  deriving DecidableEq

def CardVo.state (row : CardVo) : CardState :=
  ⟨row.CARD_TOKEN, row.MEMBER_ID, row.USE_FLAG, row.SECRET_KEY⟩

/-- The operation is asked to set the flag of the card it updates. -/
def Call.SetsFlag (call : Call) : Prop :=
  call.operation = .deleteCardOne ∨ call.operation = .registCard

instance (call : Call) : Decidable call.SetsFlag :=
  inferInstanceAs (Decidable (_ ∨ _))

/-- A write, with nothing but what it was asked for. -/
def intendedStep (env : Env) (calls : ι → Call) (e : Event ι Query Answer)
    (rows : List CardState) : List CardState :=
  match e.query with
  | .addCardInfo vo => rows ++ [(env.insertedCard vo).state]
  | .updateCardInfo vo =>
    if (calls e.thread).SetsFlag then
      rows.map fun row => if row.token = vo.CARD_TOKEN then { row with flag := vo.USE_FLAG } else row
    else rows
  | .changePwdSimplePay vo =>
    rows.map fun row => if row.member = vo.MEMBER_ID then { row with secret := vo.SECRET_KEY } else row
  | _ => rows

/-- The columns after all writes of the log, from those of `rows`. -/
def intended (env : Env) (calls : ι → Call) (rows : List CardState) : Log ι → List CardState
  | [] => rows
  | e :: log => intendedStep env calls e (intended env calls rows log)

/-! ## One call under observation -/

/-- The row that a call has read last. -/
structure Holding where
  call : Call
  held : Option CardVo

/-- What is written back has the member, the token and the secret key of the row that was read,
and its flag unless the operation is asked to set it. -/
def Holding.may (w : Holding) : Query → Prop
  | .updateCardInfo vo => ∃ card, w.held = some card ∧ vo.CARD_TOKEN = card.CARD_TOKEN ∧
      vo.MEMBER_ID = card.MEMBER_ID ∧ vo.SECRET_KEY = card.SECRET_KEY ∧
      (¬ w.call.SetsFlag → vo.USE_FLAG = card.USE_FLAG)
  | _ => True

def Holding.next (w : Holding) : (q : Query) → Answer q → Holding
  | .getCardInfo _, rows => { w with held := selectOne rows }
  | _, _ => w

@[simp] theorem Holding.next_call (w : Holding) (q : Query) (a : Answer q) :
    (w.next q a).call = w.call := by
  cases q with
  | _ => rfl

/-- **Every call** writes back the row that it holds. -/
theorem holds_handle (env : Env) (call : Call) :
    Prog.Follows Holding.may Holding.next (fun _ _ => True) ⟨call, none⟩ (handle env call) := by
  obtain ⟨operation, request⟩ := call
  cases operation
  all_goals
    simp only [handle, registCard, getCardList, requestPayment, deleteCardOne, changeCardNick,
      initializePassword, initializePasswordStep2, changePasswordSimplePay, verifySecureKey,
      getMessageDigestForSecureKey, getKiccTranSendVo, sendRequestToKICC, easypayRun,
      savaUserCardInfo, getUserCardInfoOne, updateUserCardInfoOne, confirmkUserCardPwd, getMemberId,
      getCardNick, getAsString, changeUserCardPwd, addCardChgPwdHis, Prog.follows_tryCatch,
      Prog.query_bind, Prog.follows_ask, Prog.follows_bind, Prog.follows_orFail, Prog.follows_ite,
      Prog.follows_ret, Prog.follows_fail, Holding.may, Holding.next, true_and, and_true,
      implies_true]
  case registCard =>
    rintro step - - - resCd - - token - rows row hrow - billKey - issuerCd - issuerNm - cno -
    exact ⟨row, hrow, rfl, rfl, rfl, fun hno => absurd (Or.inr rfl) hno⟩
  case deleteCardOne =>
    rintro step - - memberId - token - rows row hrow - -
    exact ⟨row, hrow, rfl, rfl, rfl, fun hno => absurd (Or.inl rfl) hno⟩
  case changeCardNick =>
    rintro step - - memberId - token - nick - rows row hrow -
    exact ⟨row, hrow, rfl, rfl, rfl, fun _ => rfl⟩

/-! ## What happens between the read and the write -/

/-- The row that an update writes. -/
def Query.updatedCard : Query → Option CardVo
  | .updateCardInfo vo => some vo
  | _ => none

def Query.insertedToken : Query → Option String
  | .addCardInfo vo => some vo.CARD_TOKEN
  | _ => none

/-- The member whose secret keys change. -/
def Query.changedMember : Query → Option String
  | .changePwdSimplePay vo => some vo.MEMBER_ID
  | _ => none

def InsertsToken (token : String) (e : Event ι Query Answer) : Prop :=
  e.query.insertedToken = some token

def SetsSecret (memberId : String) (e : Event ι Query Answer) : Prop :=
  e.query.changedMember = some memberId

def SetsFlag (calls : ι → Call) (token : String) (e : Event ι Query Answer) : Prop :=
  (calls e.thread).SetsFlag ∧ e.query.updatedCard.map CardVo.CARD_TOKEN = some token

instance (token : String) (e : Event ι Query Answer) : Decidable (InsertsToken token e) :=
  inferInstanceAs (Decidable (_ = _))

instance (memberId : String) (e : Event ι Query Answer) : Decidable (SetsSecret memberId e) :=
  inferInstanceAs (Decidable (_ = _))

instance (calls : ι → Call) (token : String) (e : Event ι Query Answer) :
    Decidable (SetsFlag calls token e) := inferInstanceAs (Decidable (_ ∧ _))

/-- What a row that was read still says about the table: if no row of its token was inserted
since, the rows of the token are the member's, with the secret key and the flag that were read
unless somebody set them. -/
def Fresh (calls : ι → Call) (cards : List CardVo) (since : Log ι) (card : CardVo) : Prop :=
  (∀ e ∈ since, ¬ InsertsToken card.CARD_TOKEN e) →
  ∀ row ∈ cards, row.CARD_TOKEN = card.CARD_TOKEN → row.MEMBER_ID = card.MEMBER_ID ∧
    ((∀ e ∈ since, ¬ SetsSecret card.MEMBER_ID e) → row.SECRET_KEY = card.SECRET_KEY) ∧
    ((∀ e ∈ since, ¬ SetsFlag calls card.CARD_TOKEN e) → row.USE_FLAG = card.USE_FLAG)

/-- Where the rows after an event come from: inserted by it, or a row before it of the same card,
with the columns that the event does not set. -/
def Traces (calls : ι → Call) (e : Event ι Query Answer) (cards cards' : List CardVo) : Prop :=
  ∀ row' ∈ cards', InsertsToken row'.CARD_TOKEN e ∨ ∃ row ∈ cards,
    row'.CARD_TOKEN = row.CARD_TOKEN ∧ row'.MEMBER_ID = row.MEMBER_ID ∧
    (¬ SetsSecret row.MEMBER_ID e → row'.SECRET_KEY = row.SECRET_KEY) ∧
    (¬ SetsFlag calls row.CARD_TOKEN e → row'.USE_FLAG = row.USE_FLAG)

theorem Fresh.cons {calls : ι → Call} {cards cards' : List CardVo} {since : Log ι} {card : CardVo}
    (h : Fresh calls cards since card) {e : Event ι Query Answer}
    (htraces : Traces calls e cards cards') : Fresh calls cards' (e :: since) card := by
  intro hinserts row' hrow' htoken'
  rcases htraces row' hrow' with hnew | ⟨row, hrow, htoken, hmember, hsecret, hflag⟩
  · rw [htoken'] at hnew
    exact absurd hnew (hinserts e List.mem_cons_self)
  · have hcard : row.CARD_TOKEN = card.CARD_TOKEN := htoken.symm.trans htoken'
    obtain ⟨hm, hs, hf⟩ := h (fun e' he' => hinserts e' (List.mem_cons_of_mem _ he')) row hrow hcard
    refine ⟨hmember.trans hm, ?_, ?_⟩
    · intro hno
      have hnow : ¬ SetsSecret row.MEMBER_ID e := by
        rw [hm]
        exact hno e List.mem_cons_self
      exact (hsecret hnow).trans (hs fun e' he' => hno e' (List.mem_cons_of_mem _ he'))
    · intro hno
      have hnow : ¬ SetsFlag calls row.CARD_TOKEN e := by
        rw [hcard]
        exact hno e List.mem_cons_self
      exact (hflag hnow).trans (hf fun e' he' => hno e' (List.mem_cons_of_mem _ he'))

/-- A row that has just been read is fresh: it is the only one of its token. -/
theorem fresh_read {calls : ι → Call} {cards : List CardVo} {token : String} {card : CardVo}
    (h : oneCard cards token = some card) : Fresh calls cards [] card := by
  intro _ row hrow htoken
  have heq : row = card := eq_of_oneCard h hrow (htoken.trans (mem_of_oneCard h).2)
  subst heq
  exact ⟨rfl, fun _ => rfl, fun _ => rfl⟩

variable [DecidableEq ι]

/-- The events since thread `j` has read a row last. -/
def sinceRead (j : ι) : Log ι → Log ι
  | [] => []
  | e :: log =>
    match e.query with
    | .getCardInfo _ => if e.thread = j then [] else e :: sinceRead j log
    | _ => e :: sinceRead j log

/-- If the next step of `j` writes a row back, then since its read no row of the token was
inserted, no secret key of the member changed, and, unless `j` is asked to set the flag, nobody
set it. -/
def WritesInTime (calls : ι → Call) (c : Server ι) (j : ι) : Prop :=
  ∀ vo ∈ (c.nextQuery j).bind Query.updatedCard, ∀ e ∈ sinceRead j c.log,
    ¬ InsertsToken vo.CARD_TOKEN e ∧ ¬ SetsSecret vo.MEMBER_ID e ∧
      (¬ (calls j).SetsFlag → ¬ SetsFlag calls vo.CARD_TOKEN e)

instance (calls : ι → Call) (c : Server ι) (j : ι) : Decidable (WritesInTime calls c j) :=
  inferInstanceAs (Decidable (∀ vo ∈ (c.nextQuery j).bind Query.updatedCard,
    ∀ e ∈ sinceRead j c.log, _))

theorem sinceRead_cons {k : ι} {e : Event ι Query Answer}
    (h : e.thread ≠ k ∨ ∀ vo, e.query ≠ .getCardInfo vo) (log : Log ι) :
    sinceRead k (e :: log) = e :: sinceRead k log := by
  rw [sinceRead]
  split
  · next vo hq =>
    rcases h with h | h
    · exact if_neg h
    · exact absurd hq (h vo)
  · rfl

/-- Where call `k` stands. -/
def holding (calls : ι → Call) (c : Server ι) (k : ι) : Holding :=
  Config.track Holding.next ⟨calls k, none⟩ k c.log

/-- The columns are as intended, and what the calls hold is fresh. -/
structure Intact (env : Env) (calls : ι → Call) (rows : List CardState) (c : Server ι) : Prop where
  follows : Config.AllFollow Holding.may Holding.next (fun _ _ _ => True)
    (fun k => ⟨calls k, none⟩) c
  columns : c.store.cards.map CardVo.state = intended env calls rows c.log
  fresh : ∀ k card, (holding calls c k).held = some card →
    Fresh calls c.store.cards (sinceRead k c.log) card

/-! ## One step -/

section

variable {env : Env} {calls : ι → Call} {rows : List CardState} {c : Server ι} {j : ι} {q : Query}
  {r : Answer q → HandlerProg JsonObject}

@[simp] theorem holding_call (k : ι) : (holding calls c k).call = calls k := by
  unfold holding
  induction c.log with
  | nil => rfl
  | cons e log ih =>
    rw [Config.track]
    split
    · rw [Holding.next_call, ih]
    · exact ih

/-- A write in time finds the secret key that it writes, and the flag unless it was asked to set
it. -/
theorem Intact.in_time (h : Intact env calls rows c) (hintime : WritesInTime calls c j) {vo : CardVo}
    (hasks : c.Asks j (.updateCardInfo vo)) {row : CardVo} (hrow : row ∈ c.store.cards)
    (htoken : row.CARD_TOKEN = vo.CARD_TOKEN) :
    row.SECRET_KEY = vo.SECRET_KEY ∧ (¬ (calls j).SetsFlag → row.USE_FLAG = vo.USE_FLAG) := by
  have hmay : (holding calls c j).may (.updateCardInfo vo) := h.follows.allowed hasks
  obtain ⟨card, hheld, hvtoken, hvmember, hvsecret, hvflag⟩ := hmay
  rw [holding_call] at hvflag
  have hnext : vo ∈ (c.nextQuery j).bind Query.updatedCard := by
    rw [hasks.nextQuery]
    rfl
  have hsince := hintime vo hnext
  rw [hvtoken, hvmember] at hsince
  obtain ⟨-, hsecret, hflag⟩ := h.fresh j card hheld (fun e he => (hsince e he).1) row hrow
    (htoken.trans hvtoken)
  refine ⟨?_, ?_⟩
  · rw [hvsecret]
    exact hsecret fun e he => (hsince e he).2.1
  · intro hno
    rw [hvflag hno]
    exact hflag fun e he => (hsince e he).2.2 hno

/-- The columns move as intended. -/
theorem Intact.columns_step (h : Intact env calls rows c) (hintime : WritesInTime calls c j)
    (hj : c.thread j = .ask q r) :
    (perform env q c.store).2.cards.map CardVo.state =
      intendedStep env calls ⟨j, q, (perform env q c.store).1⟩ (c.store.cards.map CardVo.state) := by
  cases q with
  | addCardInfo vo => exact List.map_append
  | changePwdSimplePay vo =>
    show (c.store.cards.map vo.changePwd).map CardVo.state = (c.store.cards.map CardVo.state).map _
    rw [List.map_map, List.map_map]
    apply List.map_congr_left
    intro row hrow
    show (vo.changePwd row).state = if row.MEMBER_ID = vo.MEMBER_ID then _ else row.state
    unfold CardVo.changePwd
    by_cases hm : row.MEMBER_ID = vo.MEMBER_ID
    · rw [if_pos hm, if_pos hm]
      rfl
    · rw [if_neg hm, if_neg hm]
  | updateCardInfo vo =>
    have hmatch {row : CardVo} (hrow : row ∈ c.store.cards)
        (htoken : row.CARD_TOKEN = vo.CARD_TOKEN) :
        (vo.update row).state = { row.state with flag := vo.USE_FLAG } := by
      have hsecret := (h.in_time hintime ⟨r, hj⟩ hrow htoken).1
      unfold CardVo.update CardVo.state
      rw [if_pos htoken, hsecret, htoken]
    show (c.store.cards.map vo.update).map CardVo.state =
      if (calls j).SetsFlag then (c.store.cards.map CardVo.state).map _
      else c.store.cards.map CardVo.state
    by_cases hsets : (calls j).SetsFlag
    · rw [if_pos hsets, List.map_map, List.map_map]
      apply List.map_congr_left
      intro row hrow
      show (vo.update row).state = if row.CARD_TOKEN = vo.CARD_TOKEN then _ else row.state
      by_cases htoken : row.CARD_TOKEN = vo.CARD_TOKEN
      · rw [if_pos htoken]
        exact hmatch hrow htoken
      · rw [if_neg htoken, CardVo.update_of_ne htoken]
    · rw [if_neg hsets, List.map_map]
      apply List.map_congr_left
      intro row hrow
      show (vo.update row).state = row.state
      by_cases htoken : row.CARD_TOKEN = vo.CARD_TOKEN
      · rw [hmatch hrow htoken, ← (h.in_time hintime ⟨r, hj⟩ hrow htoken).2 hsets]
        rfl
      · rw [CardVo.update_of_ne htoken]
  | _ => rfl

theorem Intact.traces_step (h : Intact env calls rows c) (hintime : WritesInTime calls c j)
    (hj : c.thread j = .ask q r) :
    Traces calls ⟨j, q, (perform env q c.store).1⟩ c.store.cards (perform env q c.store).2.cards := by
  intro row' hrow'
  cases q with
  | addCardInfo vo =>
    rcases List.mem_append.mp hrow' with hold | hnew
    · exact Or.inr ⟨row', hold, rfl, rfl, fun _ => rfl, fun _ => rfl⟩
    · rw [List.mem_singleton.mp hnew]
      exact Or.inl rfl
  | changePwdSimplePay vo =>
    obtain ⟨row, hrow, rfl⟩ := List.mem_map.mp hrow'
    refine Or.inr ⟨row, hrow, CardVo.changePwd_CARD_TOKEN _ _, CardVo.changePwd_MEMBER_ID _ _, ?_,
      fun _ => CardVo.changePwd_USE_FLAG _ _⟩
    intro hno
    have hm : row.MEMBER_ID ≠ vo.MEMBER_ID := fun hm => hno (congrArg some hm.symm)
    rw [CardVo.changePwd_of_ne hm]
  | updateCardInfo vo =>
    obtain ⟨row, hrow, rfl⟩ := List.mem_map.mp hrow'
    by_cases htoken : row.CARD_TOKEN = vo.CARD_TOKEN
    · obtain ⟨hsecret, hflag⟩ := h.in_time hintime ⟨r, hj⟩ hrow htoken
      refine Or.inr ⟨row, hrow, CardVo.update_CARD_TOKEN _ _, CardVo.update_MEMBER_ID _ _, ?_, ?_⟩
      · intro _
        unfold CardVo.update
        rw [if_pos htoken, hsecret]
      · intro hno
        have hsets : ¬ (calls j).SetsFlag := fun hs => hno ⟨hs, congrArg some htoken.symm⟩
        unfold CardVo.update
        rw [if_pos htoken, hflag hsets]
    · rw [CardVo.update_of_ne htoken]
      exact Or.inr ⟨row, hrow, rfl, rfl, fun _ => rfl, fun _ => rfl⟩
  | _ => exact Or.inr ⟨row', hrow', rfl, rfl, fun _ => rfl, fun _ => rfl⟩

/-- What the calls hold stays fresh. -/
theorem Intact.fresh_step (h : Intact env calls rows c) (hintime : WritesInTime calls c j)
    (hj : c.thread j = .ask q r) {k : ι} {card : CardVo}
    (hheld : (holding calls (c.step (perform env) j) k).held = some card) :
    Fresh calls (c.step (perform env) j).store.cards
      (sinceRead k (c.step (perform env) j).log) card := by
  have htraces := h.traces_step hintime hj
  rw [Config.store_step _ hj, Config.log_step _ hj]
  by_cases hkj : k = j
  · subst hkj
    have hnext : holding calls (c.step (perform env) k) k =
        (holding calls c k).next q (perform env q c.store).1 := by
      unfold holding
      rw [Config.log_step _ hj, Config.track_cons_self]
    rw [hnext] at hheld
    by_cases hq : ∃ vo, q = .getCardInfo vo
    · obtain ⟨vo, rfl⟩ := hq
      have hsince : sinceRead k (⟨k, .getCardInfo vo, (perform env (.getCardInfo vo) c.store).1⟩ ::
          c.log) = [] := if_pos rfl
      rw [hsince]
      exact fresh_read hheld
    · have hq' : ∀ vo, q ≠ .getCardInfo vo := fun vo hvo => hq ⟨vo, hvo⟩
      have hsame : ((holding calls c k).next q (perform env q c.store).1).held =
          (holding calls c k).held := by
        cases q with
        | getCardInfo vo => exact absurd rfl (hq' vo)
        | _ => rfl
      rw [hsame] at hheld
      rw [sinceRead_cons (Or.inr hq')]
      exact (h.fresh k card hheld).cons htraces
  · have hother : holding calls (c.step (perform env) j) k = holding calls c k :=
      Config.track_step_ne _ _ c _ hkj
    rw [hother] at hheld
    rw [sinceRead_cons (Or.inl (Ne.symm hkj))]
    exact (h.fresh k card hheld).cons htraces

/-- **Step lemma.** -/
theorem intact_step (h : Intact env calls rows c) (hintime : WritesInTime calls c j) :
    Intact env calls rows (c.step (perform env) j) := by
  rcases Config.step_cases (perform env) c j with ⟨hs, -⟩ | ⟨q, r, hj, -⟩
  · rw [hs]
    exact h
  constructor
  · exact Config.follows_step (perform env) c j h.follows
  · rw [Config.store_step _ hj, Config.log_step _ hj, h.columns_step hintime hj, h.columns]
    rfl
  · intro k card hheld
    exact h.fresh_step hintime hj hheld

end

theorem intact_start (env : Env) (cards : List CardVo) (calls : ι → Call) :
    Intact env calls (cards.map CardVo.state) (startCalls env cards calls) := by
  constructor
  · intro k
    exact holds_handle env (calls k)
  · rfl
  · intro k card hheld
    cases hheld

/-- **No lost update.**  In every interleaving of any calls in which every row is written back in
time, the flags and the secret keys are those of the last writes that were asked to set them. -/
theorem no_lost_update (env : Env) (cards : List CardVo) (calls : ι → Call) (sched : List ι)
    (hintime : StepRun.Along (Config.step (perform env)) (WritesInTime calls)
      (startCalls env cards calls) sched) :
    ((startCalls env cards calls).exec (perform env) sched).store.cards.map CardVo.state =
      intended env calls (cards.map CardVo.state)
        ((startCalls env cards calls).exec (perform env) sched).log := by
  have hstep (c : Server ι) (j : ι) (h : Intact env calls (cards.map CardVo.state) c)
      (hj : WritesInTime calls c j) :
      Intact env calls (cards.map CardVo.state) (c.step (perform env) j) := intact_step h hj
  exact (StepRun.invariant_run _ hstep (intact_start env cards calls) hintime).columns

/-! ## A deletion, a new nick, a reset -/

/-- A reset in two steps, a deletion and a new nick of one card. -/
def cardCalls : Fin 4 → Call
  | 0 => ⟨.initializePassword, [("step", "1"), ("memberId", "m"), ("secretKeyNew", "bmV3")]⟩
  | 1 => ⟨.initializePassword, [("step", "ini"), ("memberId", "m"), ("nonce", "nonce0")]⟩
  | 2 => ⟨.deleteCardOne, [("step", "1"), ("memberId", "m"), ("cardToken", "t")]⟩
  | 3 => ⟨.changeCardNick,
      [("step", "1"), ("memberId", "m"), ("cardToken", "t"), ("cardNick", "card")]⟩

/-- The reset and the new nick overlap without harm: the key changes before the nick is read. -/
theorem no_lost_update_in_time :
    ((startCalls .willing [activeCard] cardCalls).exec (perform .willing)
        [0, 0, 0, 1, 1, 3, 1, 3, 2, 2]).store.cards.map CardVo.state =
      intended .willing cardCalls ([activeCard].map CardVo.state)
        ((startCalls .willing [activeCard] cardCalls).exec (perform .willing)
          [0, 0, 0, 1, 1, 3, 1, 3, 2, 2]).log :=
  no_lost_update _ _ _ _ (by decide +kernel)

/-- A new nick, read before and written after, undoes the deletion, and the new secret key. -/
theorem deletion_undone :
    ((startCalls .willing [activeCard] cardCalls).exec (perform .willing)
        [3, 2, 2, 3]).store.cards.map CardVo.state ≠
      intended .willing cardCalls ([activeCard].map CardVo.state)
        ((startCalls .willing [activeCard] cardCalls).exec (perform .willing) [3, 2, 2, 3]).log ∧
    ((startCalls .willing [activeCard] cardCalls).exec (perform .willing)
        [0, 0, 0, 3, 1, 1, 1, 3]).store.cards.map CardVo.state ≠
      intended .willing cardCalls ([activeCard].map CardVo.state)
        ((startCalls .willing [activeCard] cardCalls).exec (perform .willing)
          [0, 0, 0, 3, 1, 1, 1, 3]).log := by
  decide +kernel

end MoaCrypto.SimplePay
