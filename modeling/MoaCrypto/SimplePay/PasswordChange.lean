import MoaCrypto.SimplePay.Outcome

/-!
# Password changes and what they report

`initializePasswordStep2` and `changePasswordSimplePay` change the rows, add a record to the
history and report success, and look at neither row count.  `tells_iff`: what they report took
place exactly if, whenever they get that far, the update has not thrown (or had nothing to
change) and the insertion has added its one record.

`confirmkUserCardPwd` may come out in any way here; the statement of the repository throws.
-/

namespace MoaCrypto.SimplePay

open Java QueryProg

/-- How the statements of a password change come out: with a row count, or with an exception
(`none`). -/
structure DaoOutcomes where
  confirmkUserCardPwd : Option Nat
  changePwdSimplePay : Option Nat
  addCardChgPwdHis : Option Nat

/-- Every query at its word, but for the statements of a password change, which come out as
given; one that throws has changed nothing. -/
def performDao (env : Env) (dao : DaoOutcomes) : (q : Query) → Store → Answer q × Store
  | .confirmkUserCardPwd _, s =>
    match dao.confirmkUserCardPwd with
    | none => (none, s)
    | some n => (some (n : Int), s)
  | .changePwdSimplePay vo, s =>
    match dao.changePwdSimplePay with
    | none => (none, s)
    | some n => (some (n : Int), { s with cards := s.cards.map vo.changePwd })
  | .addCardChgPwdHis vo, s =>
    match dao.addCardChgPwdHis with
    | none => (none, s)
    | some n => (some (n : Int), { s with history := s.history ++ List.replicate n vo })
  | q, s => perform env q s

/-- A password change: the member, the new key, and the record for the history. -/
structure PasswordChange where
  memberId : String
  newKey : String
  record : CardChgPwdHisVo

/-- All rows of the member have the new key. -/
def PasswordChange.Carried (change : PasswordChange) (cards : List CardVo) : Prop :=
  ∀ row ∈ cards, row.MEMBER_ID = change.memberId → row.SECRET_KEY = change.newKey

/-- The two operations. -/
inductive PasswordOp
  | initializePasswordStep2 (userId kgId nonce : String)
  | changePasswordSimplePay (request : JsonObject)

def PasswordOp.prog : PasswordOp → HandlerProg JsonObject
  | .initializePasswordStep2 userId kgId nonce =>
    MoaCrypto.SimplePay.initializePasswordStep2 userId kgId nonce
  | .changePasswordSimplePay request => MoaCrypto.SimplePay.changePasswordSimplePay request []

/-- The change that an operation is asked for and let through to. -/
inductive PasswordOp.Asks (dao : DaoOutcomes) (s : Store) : PasswordOp → PasswordChange → Prop
  | reset {userId kgId nonce : String} {memVo : MoaMemoryVo}
      (hentry : s.memory userId = some memVo)
      (hmatch : memVo.actionType = "InitializePwdSimplePay" ∧ memVo.memory1 = nonce) :
      Asks dao s (.initializePasswordStep2 userId kgId nonce)
        ⟨userId, memVo.memory2, ⟨userId, "001", kgId⟩⟩
  | change {request : JsonObject} {memberId secOrgin secNew : String} {matchCount : Nat}
      (hstep : request.get "step" = some "1") (hmember : request.get "memberId" = some memberId)
      (horgin : request.get "secretKeyOrg" = some secOrgin)
      (hnew : request.get "secretKeyNew" = some secNew)
      (hcount : dao.confirmkUserCardPwd = some matchCount) (hmatch : 1 ≤ matchCount) :
      Asks dao s (.changePasswordSimplePay request)
        ⟨memberId, secNew, ⟨memberId, "002", "UserRequestChangePassword"⟩⟩

/-- What the operation reports is what has happened. -/
structure Tells (env : Env) (dao : DaoOutcomes) (s : Store) (op : PasswordOp) : Prop where
  /-- A reported success: all rows of the member have the new key, the history one record more. -/
  success : ∀ reply s', op.prog.run (performDao env dao) s = (.ok reply, s') →
    reply.get "result" = some "200" → ∃ change, op.Asks dao s change ∧ change.Carried s'.cards ∧
      s'.history = s.history ++ [change.record]
  /-- Anything else, reported or thrown: no key has changed. -/
  failure : ∀ result s', op.prog.run (performDao env dao) s = (result, s') →
    (∀ reply, result = .ok reply → reply.get "result" ≠ some "200") →
    s'.cards.map CardVo.SECRET_KEY = s.cards.map CardVo.SECRET_KEY

/-! ## How the operations end -/

/-- The store after the two statements. -/
def DaoOutcomes.changed (dao : DaoOutcomes) (change : PasswordChange) (s : Store) : Store where
  memory := s.memory
  cards :=
    if dao.changePwdSimplePay.isSome then
      s.cards.map (CardVo.changePwd { MEMBER_ID := change.memberId, SECRET_KEY := change.newKey })
    else s.cards
  history := s.history ++ List.replicate (dao.addCardChgPwdHis.getD 0) change.record
  approvals := s.approvals
  calls := s.calls

/-- The two statements of a change, whatever their outcomes. -/
theorem ends_change {env : Env} {dao : DaoOutcomes} {s : Store} {change : PasswordChange}
    {ok : JsonObject → Store → Prop} {err : HandlerException → Store → Prop}
    {p : HandlerProg JsonObject} (hp : Prog.Ends (performDao env dao) ok err p (dao.changed change s)) :
    Prog.Ends (performDao env dao) ok err (do
      let _ ← changeUserCardPwd { MEMBER_ID := change.memberId, SECRET_KEY := change.newKey }
      let _ ← addCardChgPwdHis change.record
      p) s := by
  obtain ⟨confirm, update, insertion⟩ := dao
  cases update with
  | none =>
    cases insertion with
    | none =>
      rw [DaoOutcomes.changed, Option.getD_none, List.replicate_zero, List.append_nil] at hp
      exact hp
    | some n => exact hp
  | some m =>
    cases insertion with
    | none =>
      rw [DaoOutcomes.changed, Option.getD_none, List.replicate_zero, List.append_nil] at hp
      exact hp
    | some n => exact hp

theorem run_confirmkUserCardPwd (env : Env) (dao : DaoOutcomes) (vo : CardVo) (s : Store) :
    (confirmkUserCardPwd vo).run (performDao env dao) s =
      (.ok (dao.confirmkUserCardPwd.getD 0 : Nat), s) := by
  obtain ⟨confirm, update, insertion⟩ := dao
  cases confirm with
  | none => rfl
  | some n => rfl

theorem PasswordOp.Asks.unique {dao : DaoOutcomes} {s : Store} {op : PasswordOp}
    {change change' : PasswordChange} (h : op.Asks dao s change) (h' : op.Asks dao s change') :
    change = change' := by
  cases h with
  | reset hentry _ =>
    cases h' with
    | reset hentry' _ =>
      obtain rfl := Option.some.inj (hentry.symm.trans hentry')
      rfl
  | change _ hmember _ hnew _ _ =>
    cases h' with
    | change _ hmember' _ hnew' _ _ =>
      obtain rfl := Option.some.inj (hmember.symm.trans hmember')
      obtain rfl := Option.some.inj (hnew.symm.trans hnew')
      rfl

/-- The operation is not let through to a change. -/
def PasswordOp.Stops (op : PasswordOp) (dao : DaoOutcomes) (s : Store) : Prop :=
  ∀ change, ¬ op.Asks dao s change

/-- Where an operation ends: after a change, which it reports as done, or where it began. -/
def PasswordOp.Replies (op : PasswordOp) (dao : DaoOutcomes) (s : Store) (reply : JsonObject)
    (s' : Store) : Prop :=
  (∃ change, op.Asks dao s change ∧ reply.get "result" = some "200" ∧ s' = dao.changed change s) ∨
    (op.Stops dao s ∧ reply.get "result" ≠ some "200" ∧ s' = s)

theorem PasswordOp.Replies.bad {op : PasswordOp} {dao : DaoOutcomes} {s : Store}
    {jsonObj : JsonObject} {message : String} (hstops : op.Stops dao s) :
    op.Replies dao s (setBadRequest jsonObj "400" message) s := by
  refine Or.inr ⟨hstops, ?_, rfl⟩
  rw [get_setBadRequest]
  decide

theorem initializePasswordStep2_tells (env : Env) (dao : DaoOutcomes) (s : Store)
    (userId kgId nonce : String) :
    Prog.Ends (performDao env dao)
      ((PasswordOp.initializePasswordStep2 userId kgId nonce).Replies dao s)
      (fun _ s' => (PasswordOp.initializePasswordStep2 userId kgId nonce).Stops dao s ∧ s' = s)
      (initializePasswordStep2 userId kgId nonce) s := by
  apply Prog.Ends.query_bind
  refine Prog.Ends.orFail_bind (fun hnone => ⟨?_, rfl⟩) ?_
  · rintro change (⟨hentry, _⟩ | _)
    cases hnone.symm.trans hentry
  intro memVo hentry
  apply Prog.Ends.ite
  · intro hmatch
    refine @ends_change env dao s ⟨userId, memVo.memory2, ⟨userId, "001", kgId⟩⟩ _ _ _ ?_
    exact Or.inl ⟨_, .reset hentry hmatch, get_setSuccessRequest _, rfl⟩
  · intro hdiffers
    apply PasswordOp.Replies.bad
    rintro change (⟨hentry', hmatch⟩ | _)
    obtain rfl := Option.some.inj (hentry.symm.trans hentry')
    exact hdiffers hmatch

theorem changePasswordSimplePay_tells (env : Env) (dao : DaoOutcomes) (s : Store)
    (request : JsonObject) :
    Prog.Ends (performDao env dao) ((PasswordOp.changePasswordSimplePay request).Replies dao s)
      (fun _ _ => False) (changePasswordSimplePay request []) s := by
  have hbad {e : HandlerException} {s' : Store}
      (h : (PasswordOp.changePasswordSimplePay request).Stops dao s ∧ s' = s) :
      (PasswordOp.changePasswordSimplePay request).Replies dao s
        (setBadRequest [] "400" ("Payment Bad Reqeust 024 : " ++ e.text)) s' := by
    obtain ⟨hstops, rfl⟩ := h
    exact .bad hstops
  refine Prog.Ends.tryCatch ?_ (fun e s' h => hbad h)
  refine Prog.Ends.orFail_bind (fun hnone => ⟨?_, rfl⟩) ?_
  · rintro change (_ | ⟨hstep, _, _, _, _, _⟩)
    cases hnone.symm.trans hstep
  intro step hstep
  apply Prog.Ends.ite
  · rintro rfl
    refine Prog.Ends.orFail_bind (fun hnone => ⟨?_, rfl⟩) ?_
    · rintro change (_ | ⟨_, hmember, _, _, _, _⟩)
      cases hnone.symm.trans hmember
    intro memberId hmember
    refine Prog.Ends.orFail_bind (fun hnone => ⟨?_, rfl⟩) ?_
    · rintro change (_ | ⟨_, _, horgin, _, _, _⟩)
      cases hnone.symm.trans horgin
    intro secOrgin horgin
    refine Prog.Ends.orFail_bind (fun hnone => ⟨?_, rfl⟩) ?_
    · rintro change (_ | ⟨_, _, _, hnew, _, _⟩)
      cases hnone.symm.trans hnew
    intro secNew hnew
    apply Prog.Ends.bind_ok (run_confirmkUserCardPwd env dao _ s)
    apply Prog.Ends.ite
    · intro hlt
      refine ⟨?_, rfl⟩
      rintro change (_ | ⟨_, _, _, _, hcount, hmatch⟩)
      rw [hcount, Option.getD_some] at hlt
      omega
    · intro hge
      obtain ⟨matchCount, hcount, hmatch⟩ : ∃ n, dao.confirmkUserCardPwd = some n ∧ 1 ≤ n := by
        cases hcount : dao.confirmkUserCardPwd with
        | none =>
          rw [hcount] at hge
          exact absurd (by decide) hge
        | some n =>
          rw [hcount, Option.getD_some] at hge
          exact ⟨n, rfl, by omega⟩
      refine @ends_change env dao s
        ⟨memberId, secNew, ⟨memberId, "002", "UserRequestChangePassword"⟩⟩ _ _ _ ?_
      exact Or.inl ⟨_, .change hstep hmember horgin hnew hcount hmatch, get_setSuccessRequest _, rfl⟩
  · intro h1
    apply PasswordOp.Replies.bad
    rintro change (_ | ⟨hstep', _, _, _, _, _⟩)
    exact h1 (Option.some.inj (hstep.symm.trans hstep'))

/-! ## What is reported -/

theorem PasswordOp.ends (env : Env) (dao : DaoOutcomes) (s : Store) (op : PasswordOp) :
    Prog.Ends (performDao env dao) (op.Replies dao s) (fun _ s' => op.Stops dao s ∧ s' = s) op.prog s := by
  cases op with
  | initializePasswordStep2 userId kgId nonce =>
    exact initializePasswordStep2_tells env dao s userId kgId nonce
  | changePasswordSimplePay request =>
    exact (changePasswordSimplePay_tells env dao s request).mono (fun _ _ h => h) (fun _ _ h => h.elim)

/-- The statements of a change do all of it, or there is nothing to change in the rows. -/
def DaoOutcomes.Suffices (dao : DaoOutcomes) (s : Store) (change : PasswordChange) : Prop :=
  (dao.changePwdSimplePay ≠ none ∨ change.Carried s.cards) ∧ dao.addCardChgPwdHis = some 1

theorem carried_changed (dao : DaoOutcomes) (s : Store) (change : PasswordChange) :
    change.Carried (dao.changed change s).cards ↔
      dao.changePwdSimplePay ≠ none ∨ change.Carried s.cards := by
  unfold DaoOutcomes.changed
  cases hupdate : dao.changePwdSimplePay with
  | none => simp
  | some n =>
    refine iff_of_true ?_ (Or.inl (by simp))
    intro row hrow hmember
    obtain ⟨old, -, rfl⟩ := List.mem_map.mp hrow
    rw [CardVo.changePwd_MEMBER_ID] at hmember
    rw [CardVo.changePwd, if_pos hmember]

theorem history_changed (dao : DaoOutcomes) (s : Store) (change : PasswordChange) :
    (dao.changed change s).history = s.history ++ [change.record] ↔ dao.addCardChgPwdHis = some 1 := by
  show s.history ++ List.replicate (dao.addCardChgPwdHis.getD 0) change.record = _ ↔ _
  rw [List.append_right_inj]
  constructor
  · intro h
    have hlength := congrArg List.length h
    rw [List.length_replicate, List.length_singleton] at hlength
    cases hinsertion : dao.addCardChgPwdHis with
    | none =>
      rw [hinsertion] at hlength
      cases hlength
    | some n =>
      rw [hinsertion, Option.getD_some] at hlength
      rw [hlength]
  · intro h
    rw [h]
    rfl

/-- **A password operation reports what has happened** exactly if the statements of every change
that it is let through to suffice. -/
theorem tells_iff (env : Env) (dao : DaoOutcomes) (s : Store) (op : PasswordOp) :
    Tells env dao s op ↔ ∀ change, op.Asks dao s change → dao.Suffices s change := by
  have hends := op.ends env dao s
  unfold Prog.Ends at hends
  rcases hrun : op.prog.run (performDao env dao) s with ⟨result, s'⟩
  rw [hrun] at hends
  constructor
  · intro htells change hasks
    rcases result with e | reply
    · exact absurd hasks (hends.1 change)
    · rcases hends with ⟨change', hasks', hreply, rfl⟩ | ⟨hstops, -, -⟩
      · obtain ⟨change'', hasks'', hcarried, hhistory⟩ := htells.success _ _ hrun hreply
        obtain rfl := hasks.unique hasks'
        obtain rfl := hasks.unique hasks''
        exact ⟨(carried_changed dao s change).mp hcarried, (history_changed dao s change).mp hhistory⟩
      · exact absurd hasks (hstops change)
  · intro hsuffices
    constructor
    · intro reply s'' hrun' hreply
      obtain ⟨rfl, rfl⟩ := Prod.mk.inj (hrun.symm.trans hrun')
      rcases hends with ⟨change, hasks, -, rfl⟩ | ⟨-, hbad, -⟩
      · obtain ⟨hcarried, hhistory⟩ := hsuffices change hasks
        exact ⟨change, hasks, (carried_changed dao s change).mpr hcarried,
          (history_changed dao s change).mpr hhistory⟩
      · exact absurd hreply hbad
    · intro result' s'' hrun' hfails
      obtain ⟨rfl, rfl⟩ := Prod.mk.inj (hrun.symm.trans hrun')
      rcases result with e | reply
      · rw [hends.2]
      · rcases hends with ⟨change, -, hreply, -⟩ | ⟨-, -, rfl⟩
        · exact absurd hreply (hfails reply rfl)
        · rfl

/-- A reset whose update throws is reported as done, with the old key in the row. -/
theorem not_tells_update_throws :
    ¬ Tells .willing ⟨none, none, some 1⟩
      { Store.empty with
        memory := fun _ => some ⟨"InitializePwdSimplePay", "1", "nonce0", "bmV3"⟩
        cards := [{ MEMBER_ID := "member", SECRET_KEY := "b2xk" }] }
      (.initializePasswordStep2 "member" "test_KGID" "nonce0") := by
  intro h
  obtain ⟨change, hasks, hcarried, -⟩ := h.success _ _ rfl (by decide)
  rcases hasks with ⟨hentry, -⟩ | _
  cases hentry
  exact absurd (hcarried _ List.mem_cons_self rfl) (by decide)

end MoaCrypto.SimplePay
