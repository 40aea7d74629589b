import MoaCrypto.SimplePay.CardBook

/-!
# The life of a card

`card_life`: over every run of the controller a row stays in its place, with its member, its token and
its issuer, and what becomes of it is due to deeds about it.  It goes from not yet in use to in use, and
from either to deleted, and the bill key that is charged comes with the step into use.  That step is
taken at most once for a token, whatever happens to its card afterwards (`completed_once`).
-/

namespace MoaCrypto.SimplePay

open Java QueryProg StepRun

/-! ## What a row becomes -/

/-- What the deeds can make of a row. -/
structure Grows (deeds : List Deed) (row row' : CardVo) : Prop where
  same : row'.MEMBER_ID = row.MEMBER_ID ∧ row'.CARD_TOKEN = row.CARD_TOKEN ∧ row'.SEQ = row.SEQ ∧
    row'.ISSUER_NM = row.ISSUER_NM ∧ row'.ISSUER_CD = row.ISSUER_CD
  flag : row'.USE_FLAG = row.USE_FLAG ∨ row.USE_FLAG = "N" ∧ row'.USE_FLAG = "Y" ∨
    row'.USE_FLAG = "D" ∧ .cardDeleted row.CARD_TOKEN ∈ deeds
  deleted : row.USE_FLAG = "D" → row'.USE_FLAG = "D"
  bill : row'.BILL_KEY = row.BILL_KEY ∧ row'.CNO = row.CNO ∨
    row.USE_FLAG = "N" ∧ .cardCompleted row.CARD_TOKEN row'.BILL_KEY row'.CNO ∈ deeds
  used : row.USE_FLAG = "N" → row'.USE_FLAG = "Y" →
    .cardCompleted row.CARD_TOKEN row'.BILL_KEY row'.CNO ∈ deeds
  nick : row'.CARD_NICK = row.CARD_NICK ∨ .cardRenamed row.CARD_TOKEN row'.CARD_NICK ∈ deeds
  key : row'.SECRET_KEY = row.SECRET_KEY ∨ ∃ nonce, .passwordReset row.MEMBER_ID nonce ∈ deeds

/-- Where a row comes from: the row of its place, or a registration. -/
inductive Comes (env : Env) (deeds : List Deed) : Option CardVo → CardVo → Prop
  | kept {row row' : CardVo} (h : Grows deeds row row') : Comes env deeds (some row) row'
  | registered {memberId cardNick secretKey token : String} {row' : CardVo}
      (hdeed : .cardRegistered memberId cardNick secretKey token ∈ deeds)
      (h : Grows deeds (env.registeredCard memberId cardNick secretKey token) row') :
      Comes env deeds none row'

/-- What the deeds can make of the table. -/
structure TableGrows (env : Env) (deeds : List Deed) (cards cards' : List CardVo) : Prop where
  length : cards.length ≤ cards'.length
  row : ∀ (i : Nat) (row' : CardVo), cards'[i]? = some row' → Comes env deeds cards[i]? row'

section

variable {deeds deeds' : List Deed} {row row' row'' : CardVo}

theorem Grows.refl (deeds : List Deed) (row : CardVo) : Grows deeds row row where
  same := ⟨rfl, rfl, rfl, rfl, rfl⟩
  flag := Or.inl rfl
  deleted := id
  bill := Or.inl ⟨rfl, rfl⟩
  used hn hy := absurd (hn.symm.trans hy) (by decide)
  nick := Or.inl rfl
  key := Or.inl rfl

/-- More deeds allow more. -/
theorem Grows.mono (hsub : deeds ⊆ deeds') (h : Grows deeds row row') : Grows deeds' row row' where
  same := h.same
  flag := h.flag.imp_right (Or.imp_right (And.imp_right fun hd => hsub hd))
  deleted := h.deleted
  bill := h.bill.imp_right (And.imp_right fun hd => hsub hd)
  used hn hy := hsub (h.used hn hy)
  nick := h.nick.imp_right fun hd => hsub hd
  key := h.key.imp_right fun ⟨nonce, hd⟩ => ⟨nonce, hsub hd⟩

/-- A card that does not wait for its completion never waits again. -/
theorem Grows.not_waiting (h : Grows deeds row row') (hrow : row.USE_FLAG ≠ "N") :
    row'.USE_FLAG ≠ "N" := by
  rcases h.flag with hsame | ⟨hn, -⟩ | ⟨hd, -⟩
  · rwa [hsame]
  · exact absurd hn hrow
  · rw [hd]
    decide

theorem Grows.trans (h : Grows deeds row row') (h' : Grows deeds row' row'') : Grows deeds row row'' := by
  obtain ⟨hmember, htoken, hseq, hnm, hcd⟩ := h.same
  obtain ⟨hmember', htoken', hseq', hnm', hcd'⟩ := h'.same
  have hfresh (hn : row'.USE_FLAG = "N") : row.USE_FLAG = "N" := by
    by_contra hrow
    exact h.not_waiting hrow hn
  refine ⟨⟨hmember'.trans hmember, htoken'.trans htoken, hseq'.trans hseq, hnm'.trans hnm,
    hcd'.trans hcd⟩, ?_, fun hd => h'.deleted (h.deleted hd), ?_, ?_, ?_, ?_⟩
  · rcases h'.flag with hsame | ⟨hn, hy⟩ | ⟨hd, hdeed⟩
    · rw [hsame]
      exact h.flag
    · exact Or.inr (Or.inl ⟨hfresh hn, hy⟩)
    · rw [htoken] at hdeed
      exact Or.inr (Or.inr ⟨hd, hdeed⟩)
  · rcases h'.bill with ⟨hbill, hcno⟩ | ⟨hn, hdeed⟩
    · rw [hbill, hcno]
      exact h.bill
    · rw [htoken] at hdeed
      exact Or.inr ⟨hfresh hn, hdeed⟩
  · intro hn hy
    rcases h'.flag with hsame | ⟨hn', -⟩ | ⟨hd, -⟩
    · -- in use already, it keeps its bill key
      have hy' := hsame.symm.trans hy
      rcases h'.bill with ⟨hbill, hcno⟩ | ⟨hn', -⟩
      · rw [hbill, hcno]
        exact h.used hn hy'
      · exact absurd (hn'.symm.trans hy') (by decide)
    · have hdeed := h'.used hn' hy
      rw [htoken] at hdeed
      exact hdeed
    · exact absurd (hy.symm.trans hd) (by decide)
  · rcases h'.nick with hnick | hdeed
    · rw [hnick]
      exact h.nick
    · rw [htoken] at hdeed
      exact Or.inr hdeed
  · rcases h'.key with hkey | hdeed
    · rw [hkey]
      exact h.key
    · rw [hmember] at hdeed
      exact Or.inr hdeed

theorem Grows.of_completed {token : String} (billKey cno : String)
    (hflag : row.CARD_TOKEN = token → row.USE_FLAG = "N") :
    Grows [.cardCompleted token billKey cno] row (row.completed token billKey cno) := by
  unfold CardVo.completed
  split
  · next htoken =>
    have hn := hflag htoken
    subst htoken
    exact { Grows.refl _ row with
      flag := Or.inr (Or.inl ⟨hn, rfl⟩)
      deleted := fun hd => absurd (hn.symm.trans hd) (by decide)
      bill := Or.inr ⟨hn, List.mem_cons_self⟩
      used := fun _ _ => List.mem_cons_self }
  · exact .refl _ _

theorem Grows.of_renamed (token cardNick : String) (row : CardVo) :
    Grows [.cardRenamed token cardNick] row (row.renamed token cardNick) := by
  unfold CardVo.renamed
  split
  · next htoken =>
    subst htoken
    exact { Grows.refl _ row with nick := Or.inr List.mem_cons_self }
  · exact .refl _ _

theorem Grows.of_deleted (token : String) (row : CardVo) :
    Grows [.cardDeleted token] row (row.deleted token) := by
  unfold CardVo.deleted
  split
  · next htoken =>
    subst htoken
    exact { Grows.refl _ row with
      flag := Or.inr (Or.inr ⟨rfl, List.mem_cons_self⟩)
      deleted := fun _ => rfl
      used := fun _ hy => absurd (show "D" = "Y" from hy) (by decide) }
  · exact .refl _ _

/-- With the statement of a password reset. -/
theorem Grows.of_changePwd (vo : CardVo) (nonce : String) (row : CardVo) :
    Grows [.passwordReset vo.MEMBER_ID nonce] row (vo.changePwd row) := by
  unfold CardVo.changePwd
  split
  · next hmember =>
    rw [← hmember]
    exact { Grows.refl _ row with key := Or.inr ⟨nonce, List.mem_cons_self⟩ }
  · exact .refl _ _

end

theorem TableGrows.refl (env : Env) (deeds : List Deed) (cards : List CardVo) :
    TableGrows env deeds cards cards := by
  refine ⟨Nat.le_refl _, ?_⟩
  intro i row' hrow
  rw [hrow]
  exact .kept (.refl _ _)

theorem TableGrows.of_map {env : Env} {deeds : List Deed} {cards : List CardVo} {f : CardVo → CardVo}
    (hgrows : ∀ row ∈ cards, Grows deeds row (f row)) : TableGrows env deeds cards (cards.map f) := by
  refine ⟨by rw [List.length_map], ?_⟩
  intro i row' hrow
  rw [List.getElem?_map] at hrow
  obtain ⟨row, hold, rfl⟩ := Option.map_eq_some_iff.mp hrow
  rw [hold]
  exact .kept (hgrows row (List.mem_of_getElem? hold))

theorem TableGrows.of_registered (env : Env) (cards : List CardVo)
    (memberId cardNick secretKey token : String) :
    TableGrows env [.cardRegistered memberId cardNick secretKey token] cards
      (cards ++ [env.registeredCard memberId cardNick secretKey token]) := by
  refine ⟨by rw [List.length_append]; exact Nat.le_add_right _ _, ?_⟩
  intro i row' hrow
  by_cases hi : i < cards.length
  · rw [List.getElem?_append_left hi] at hrow
    rw [hrow]
    exact .kept (.refl _ _)
  · rw [List.getElem?_append_right (Nat.not_lt.mp hi)] at hrow
    rw [List.getElem?_eq_none (Nat.not_lt.mp hi)]
    have hnew := List.mem_singleton.mp (List.mem_of_getElem? hrow)
    rw [hnew]
    exact .registered List.mem_cons_self (.refl _ _)

/-- Older deeds, then newer ones. -/
theorem TableGrows.trans {env : Env} {older newer : List Deed} {cards cards' cards'' : List CardVo}
    (h : TableGrows env older cards cards') (h' : TableGrows env newer cards' cards'') :
    TableGrows env (newer ++ older) cards cards'' := by
  refine ⟨h.length.trans h'.length, ?_⟩
  intro i row'' hrow''
  have hcomes := h'.row i row'' hrow''
  cases hrow' : cards'[i]? with
  | none =>
    rw [hrow'] at hcomes
    have hnone : cards[i]? = none :=
      List.getElem?_eq_none (h.length.trans (List.getElem?_eq_none_iff.mp hrow'))
    rw [hnone]
    cases hcomes with
    | registered hdeed hgrows =>
      exact .registered (List.mem_append_left _ hdeed) (hgrows.mono (List.subset_append_left _ _))
  | some row' =>
    rw [hrow'] at hcomes
    cases hcomes with
    | kept hgrows' =>
      have hnew := hgrows'.mono (List.subset_append_left newer older)
      have hbefore := h.row i row' hrow'
      generalize cards[i]? = before at hbefore
      cases hbefore with
      | kept hgrows => exact .kept ((hgrows.mono (List.subset_append_right _ _)).trans hnew)
      | registered hdeed hgrows =>
        exact .registered (List.mem_append_right _ hdeed)
          ((hgrows.mono (List.subset_append_right _ _)).trans hnew)

/-! ## Runs -/

/-- **Step.**  The table after one deed. -/
theorem Did.tableGrows {env : Env} {s s' : Store} {deed : Option Deed} (h : Did env s deed s') :
    TableGrows env deed.toList s.cards s'.cards := by
  cases h with
  | nothing hm hc =>
    rw [hc]
    exact .refl _ _ _
  | resetOpened hm hc =>
    rw [hc]
    exact .refl _ _ _
  | paymentOpened hm hc =>
    rw [hc]
    exact .refl _ _ _
  | paymentClosed hm hc =>
    rw [hc]
    exact .refl _ _ _
  | cardRegistered hm hc =>
    rw [hc]
    exact .of_registered _ _ _ _ _ _
  | cardCompleted hcard hflag hm hc =>
    rw [hc, map_completed hcard]
    refine .of_map fun row hrow => .of_completed _ _ fun htoken => ?_
    rw [eq_of_oneCard hcard hrow htoken, hflag]
  | cardRenamed hcard hm hc =>
    rw [hc, map_renamed hcard]
    exact .of_map fun row _ => .of_renamed _ _ row
  | cardDeleted hcard hflag hm hc =>
    rw [hc, map_deleted hcard]
    exact .of_map fun row _ => .of_deleted _ row
  | @passwordReset memberId nonce memVo _ hentry hmatch hm hc =>
    rw [hc]
    exact .of_map fun row _ =>
      .of_changePwd { MEMBER_ID := memberId, SECRET_KEY := memVo.memory2 } nonce row

/-- **The life of a card.**  Over every run from any state, each row comes from the row of its place, or
from a registration in the run, by deeds of the run. -/
theorem card_life (env : Env) (w : ControllerWorld) (calls : List ControllerCall) :
    ∃ deeds, (run (control env) w calls).deeds = deeds ++ w.deeds ∧
      TableGrows env deeds w.store.cards (run (control env) w calls).store.cards := by
  induction calls generalizing w with
  | nil => exact ⟨[], rfl, .refl _ _ _⟩
  | cons call calls ih =>
    obtain ⟨newer, hdeeds, hgrows⟩ := ih (control env w call)
    have hstep := (did env call w.store).tableGrows
    refine ⟨newer ++ (call.deed ((call.prog env).run (perform env) w.store).1).toList, ?_, ?_⟩
    · rw [run_cons, hdeeds, deeds_control, List.append_assoc]
    · exact hstep.trans hgrows

/-! ## One completion for each token -/

def Deed.completes (token : String) : Deed → Bool
  | .cardCompleted t _ _ => t = token
  | _ => false

/-- At most one completion, and after it a row of the token that is not waiting for one. -/
def Completed (token : String) (w : ControllerWorld) : Prop :=
  w.deeds.countP (Deed.completes token) = 0 ∨ w.deeds.countP (Deed.completes token) = 1 ∧
    ∃ row ∈ w.store.cards, row.CARD_TOKEN = token ∧ row.USE_FLAG ≠ "N"

/-- A row stays in the table, as what it has become. -/
theorem TableGrows.mem {env : Env} {deeds : List Deed} {cards cards' : List CardVo}
    (h : TableGrows env deeds cards cards') {row : CardVo} (hrow : row ∈ cards) :
    ∃ row' ∈ cards', Grows deeds row row' := by
  obtain ⟨i, hi, hget⟩ := List.mem_iff_getElem.mp hrow
  have hi' := Nat.lt_of_lt_of_le hi h.length
  have hcomes := h.row i _ (List.getElem?_eq_getElem hi')
  rw [List.getElem?_eq_getElem hi, hget] at hcomes
  cases hcomes with
  | kept hgrows => exact ⟨_, List.getElem_mem hi', hgrows⟩

/-- A completion finds the row of the token waiting, and leaves one that is not. -/
theorem Did.completes {env : Env} {token : String} {s s' : Store} {deed : Deed} (h : Did env s (some deed) s')
    (hdeed : deed.completes token) :
    (∀ row ∈ s.cards, row.CARD_TOKEN = token → row.USE_FLAG = "N") ∧
      ∃ row ∈ s'.cards, row.CARD_TOKEN = token ∧ row.USE_FLAG ≠ "N" := by
  cases h with
  | @cardCompleted t billKey cno issuerCd issuerNm card _ hcard hflag hm hc =>
    obtain rfl : t = token := of_decide_eq_true hdeed
    obtain ⟨hmem, htoken⟩ := mem_of_oneCard hcard
    refine ⟨fun row hrow ht => by rw [eq_of_oneCard hcard hrow ht, hflag], ?_⟩
    rw [hc, map_completed hcard]
    refine ⟨_, List.mem_map_of_mem hmem, ?_⟩
    rw [CardVo.completed, if_pos htoken]
    exact ⟨htoken, show "Y" ≠ "N" by decide⟩
  | _ => cases hdeed

theorem completed_control {env : Env} {token : String} {w : ControllerWorld} (h : Completed token w)
    (call : ControllerCall) : Completed token (control env w call) := by
  have hdid := did env call w.store
  have hdeeds := deeds_control env w call
  -- a row that is not waiting is still there, not waiting
  have hstay (hrow : ∃ row ∈ w.store.cards, row.CARD_TOKEN = token ∧ row.USE_FLAG ≠ "N") :
      ∃ row ∈ (control env w call).store.cards, row.CARD_TOKEN = token ∧ row.USE_FLAG ≠ "N" := by
    obtain ⟨row, hmem, htoken, hflag⟩ := hrow
    obtain ⟨row', hmem', hgrow⟩ := hdid.tableGrows.mem hmem
    exact ⟨row', hmem', hgrow.same.2.1.trans htoken, hgrow.not_waiting hflag⟩
  unfold Completed
  rw [hdeeds, List.countP_append]
  cases hdeed : call.deed ((call.prog env).run (perform env) w.store).1 with
  | none =>
    rw [Option.toList_none, List.countP_nil, Nat.zero_add]
    exact h.imp_right (And.imp_right hstay)
  | some deed =>
    rw [hdeed] at hdid
    rw [Option.toList_some, List.countP_singleton]
    by_cases hcompletes : deed.completes token
    · obtain ⟨hwaiting, hrow⟩ := hdid.completes hcompletes
      rcases h with hzero | ⟨-, row, hmem, htoken, hflag⟩
      · rw [if_pos hcompletes, hzero]
        exact Or.inr ⟨rfl, hrow⟩
      · exact absurd (hwaiting row hmem htoken) hflag
    · rw [if_neg hcompletes, Nat.zero_add]
      exact h.imp_right (And.imp_right hstay)

/-- **No token is completed twice**, in any run from any cards, even if its card is deleted. -/
theorem completed_once (env : Env) (cards : List CardVo) (calls : List ControllerCall) (token : String) :
    (run (control env) (.start cards) calls).deeds.countP (Deed.completes token) ≤ 1 := by
  have hstep (w : ControllerWorld) (call : ControllerCall) (h : Completed token w) (_ : True) :
      Completed token (control env w call) := completed_control h call
  have hrun := invariant_run (control env) hstep (s := .start cards) (Or.inl rfl)
    (along_of_forall (control env) (fun _ _ => trivial) _ calls)
  rcases hrun with hzero | ⟨hone, -⟩
  · rw [hzero]
    exact Nat.zero_le 1
  · exact Nat.le_of_eq hone

end MoaCrypto.SimplePay
