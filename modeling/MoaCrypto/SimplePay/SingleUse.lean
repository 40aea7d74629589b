import MoaCrypto.SimplePay.Payments

/-!
# One challenge, one effect

Calls run concurrently; each is its program of queries, in the order of the source:
read the memory, remove the entry (a payment; a password reset does not), verify,
and perform the effect.  An entry is known by the call that put it into the memory.

Two second steps that answer the same challenge can both read it before either
removes it, and a password reset leaves it for the next one (`challenge_used_twice`).
`single_use` shows that these are the only ways: in every interleaving in which a
second step that answers a challenge reads its entry only when no other that answers
it has read it and is still running or has had its effect, an entry enables one
effect at most.
-/

namespace MoaCrypto.SimplePay

open Java QueryProg

/-! ## One call under observation -/

/-- The second step of the call answers the challenge of the entry: a payment's secure key is its
digest, a reset's nonce is its nonce. -/
def Answers (call : Call) (memberId : String) (vo : MoaMemoryVo) : Prop :=
  call.request.get "memberId" = some memberId ∧
  ((call.EndsPayment memberId ∧ ∃ secretKey key, call.request.get "secretKey" = some secretKey ∧
      Base64.decode secretKey = some key ∧
      call.request.get "secureKey" =
        some (Base64.encode (Sha256.digest (mergeByte (combinedStr vo memberId) key)))) ∨
    (call.operation = .initializePassword ∧ call.request.get "step" = some "ini" ∧
      vo.actionType = "InitializePwdSimplePay" ∧ call.request.get "nonce" = some vo.memory1))

/-- The effects of a second step: an approval request, and the change of the secret key by a
reset. -/
def isEffect (call : Call) : Query → Bool
  | .easypay_run _ => true
  | .changePwdSimplePay _ => call.operation = .initializePassword
  | _ => false

/-- What a call has read from the memory last, and whether it has had its effect. -/
structure Attempt where
  call : Call
  read : Option (String × MoaMemoryVo)
  done : Bool

/-- The call answers the challenge that it has read. -/
def Attempt.Answering (w : Attempt) : Prop :=
  ∃ memberId vo, w.read = some (memberId, vo) ∧ Answers w.call memberId vo

/-- The memory is read before the effect, and the effect comes once, with an answer. -/
def Attempt.may (w : Attempt) : Query → Prop
  | .memGet _ => w.done = false
  | .easypay_run _ => w.done = false ∧ w.Answering
  | .changePwdSimplePay _ => w.call.operation = .initializePassword → w.done = false ∧ w.Answering
  | _ => True

def Attempt.next (w : Attempt) : (q : Query) → Answer q → Attempt
  | .memGet memberId, entry => { w with read := entry.map fun vo => (memberId, vo) }
  | .easypay_run _, _ => { w with done := true }
  | .changePwdSimplePay _, _ =>
    { w with done := w.done || decide (w.call.operation = .initializePassword) }
  | _, _ => w

@[simp] theorem Attempt.next_call (w : Attempt) (q : Query) (a : Answer q) :
    (w.next q a).call = w.call := by
  unfold Attempt.next
  split
  · rfl
  · rfl
  · rfl
  · rfl

theorem Attempt.next_read {w : Attempt} {q : Query} (hq : ∀ memberId, q ≠ .memGet memberId)
    (a : Answer q) : (w.next q a).read = w.read := by
  cases q with
  | memGet memberId => exact absurd rfl (hq memberId)
  | _ => rfl

theorem Attempt.next_done (w : Attempt) (q : Query) (a : Answer q) :
    (w.next q a).done = (w.done || isEffect w.call q) := by
  cases q with
  | easypay_run => exact (Bool.or_true _).symm
  | changePwdSimplePay => rfl
  | _ => exact (Bool.or_false _).symm

/-- An effect is the first, and has an answer. -/
theorem Attempt.may_effect {w : Attempt} {q : Query} (h : w.may q)
    (he : isEffect w.call q = true) : w.done = false ∧ w.Answering := by
  cases q with
  | easypay_run => exact h
  | changePwdSimplePay => exact h (of_decide_eq_true he)
  | _ => cases he

theorem Attempt.Answering.next {w : Attempt} {q : Query} (hq : ∀ memberId, q ≠ .memGet memberId)
    {a : Answer q} (h : (w.next q a).Answering) : w.Answering := by
  obtain ⟨memberId, vo, hread, hanswers⟩ := h
  rw [Attempt.next_read hq] at hread
  rw [Attempt.next_call] at hanswers
  exact ⟨memberId, vo, hread, hanswers⟩

/-! ## The calls follow their monitors -/

/-- Operations that neither read the memory nor have an effect: the monitor does not move. -/
def Quiet : Query → Prop
  | .memGet _ => False
  | .easypay_run _ => False
  | .changePwdSimplePay _ => False
  | _ => True

/-- A passed check is an answer to the entry that was read. -/
theorem follows_verifySecureKey {call : Call} {memberId : String}
    (hends : call.EndsPayment memberId) :
    Prog.Follows Attempt.may Attempt.next
      (fun w r => w.call = call ∧ w.done = false ∧ ∀ billKey, r = .ok billKey → w.Answering)
      ⟨call, none, false⟩ (verifySecureKey call.request) := by
  obtain ⟨hop, hstep, hmember⟩ := hends
  simp only [verifySecureKey, getMemberId, getAsString, hmember, Prog.orFail_some, Prog.ret_bind,
    Prog.query_bind, Prog.follows_ask, getUserCardInfoOne, Prog.follows_bind, Prog.follows_orFail,
    Prog.follows_ite, Prog.follows_ret, Prog.follows_fail, getMessageDigestForSecureKey,
    Attempt.may, Attempt.next, true_and, and_true, reduceCtorEq, false_implies, implies_true,
    not_not]
  rintro entry - memoryVo rfl token - rows secretKey hsecret - cardVo - hmatch key hkey secureKey
    hsecure hdigest billKey -
  subst hmatch hdigest
  exact ⟨memberId, memoryVo, rfl, hmember, Or.inl ⟨⟨hop, hstep, hmember⟩, _, key, hsecret, hkey,
    hsecure⟩⟩

/-- After the check, one approval request. -/
theorem follows_sendRequest {w : Attempt} (hdone : w.done = false) (hanswer : w.Answering)
    (request result : JsonObject) (billKey : String) :
    Prog.Follows Attempt.may Attempt.next (fun _ _ => True) w (do
      let sendVo ← getKiccTranSendVo request billKey
      sendRequestToKICC sendVo
      .ret (setSuccessRequest result)) := by
  simp only [getKiccTranSendVo, sendRequestToKICC, easypayRun, getAsString, Prog.query_bind,
    Prog.follows_ask, Prog.follows_bind, Prog.follows_orFail, Prog.follows_ite, Prog.follows_ret,
    Prog.follows_fail, Attempt.may, Attempt.next, hdone, hanswer, true_and, and_true, implies_true]

theorem follows_requestPayment {call : Call} (hop : call.operation = .requestPayment) :
    Prog.Follows Attempt.may Attempt.next (fun _ _ => True) ⟨call, none, false⟩
      (requestPayment call.request []) := by
  unfold requestPayment
  refine Prog.Follows.tryCatch (?_ : Prog.Follows _ _ (fun _ _ => True) _ _) (fun _ _ _ => trivial)
    (fun _ _ _ => trivial)
  simp only [getMemberId, getAsString, Prog.query_bind, Prog.follows_ask, Prog.follows_orFail_bind,
    Prog.follows_ite, Prog.follows_ret, Prog.follows_fail, Attempt.may, Attempt.next, true_and,
    and_true, implies_true]
  rintro step hstep memberId hmember -
  rintro rfl
  apply (follows_verifySecureKey ⟨hop, hstep, hmember⟩).bind
  · rintro w billKey ⟨-, hdone, hanswer⟩
    exact follows_sendRequest hdone (hanswer billKey rfl) _ _ _
  · intro w e _
    trivial

theorem follows_initializePassword {call : Call} (hop : call.operation = .initializePassword) :
    Prog.Follows Attempt.may Attempt.next (fun _ _ => True) ⟨call, none, false⟩
      (initializePassword call.request []) := by
  simp only [initializePassword, initializePasswordStep2, getMemberId, getAsString,
    changeUserCardPwd, addCardChgPwdHis, Prog.follows_tryCatch, Prog.query_bind, Prog.follows_ask,
    Prog.follows_bind, Prog.follows_orFail, Prog.follows_ite, Prog.follows_ret, Prog.follows_fail,
    Attempt.may, Attempt.next, true_and, and_true, implies_true]
  rintro step hstep - rfl memberId hmember nonce hnonce entry vo rfl ⟨htype, rfl⟩ -
  exact ⟨memberId, vo, rfl, hmember, Or.inr ⟨hop, hstep, htype, hnonce⟩⟩

/-- **Every call** has at most one effect, and only with an answer to the entry it has read. -/
theorem follows_handle (env : Env) (call : Call) :
    Prog.Follows Attempt.may Attempt.next (fun _ _ => True) ⟨call, none, false⟩
      (handle env call) := by
  unfold handle
  cases hop : call.operation with
  | requestPayment => exact follows_requestPayment hop
  | initializePassword => exact follows_initializePassword hop
  | _ =>
    -- the other operations neither read the memory nor have an effect
    simp only [registCard, getCardList, deleteCardOne, changeCardNick, changePasswordSimplePay,
      savaUserCardInfo, getUserCardInfoOne, updateUserCardInfoOne, confirmkUserCardPwd, getMemberId,
      getCardNick, getAsString, changeUserCardPwd, addCardChgPwdHis, Prog.follows_tryCatch,
      Prog.query_bind, Prog.follows_ask, Prog.follows_bind, Prog.follows_orFail, Prog.follows_ite,
      Prog.follows_ret, Prog.follows_fail, Attempt.may, Attempt.next, hop, true_and, and_true,
      implies_true, reduceCtorEq, false_implies]

/-! ## Who has read which entry -/

variable {ι : Type} [DecidableEq ι]

/-- The call whose entry is in the member's place. -/
def entryOf (memberId : String) : Log ι → Option ι
  | [] => none
  | e :: log =>
    match e.query with
    | .memPut m _ => if m = memberId then some e.thread else entryOf memberId log
    | .memRemove m => if m = memberId then none else entryOf memberId log
    | _ => entryOf memberId log

/-- The call whose entry thread `j` has read last. -/
def readBy (j : ι) : Log ι → Option ι
  | [] => none
  | e :: log =>
    match e.query with
    | .memGet memberId => if e.thread = j then entryOf memberId log else readBy j log
    | _ => readBy j log

/-- How many effects the entry of call `i` has enabled. -/
def effects (calls : ι → Call) (i : ι) : Log ι → Nat
  | [] => 0
  | e :: log =>
    (if isEffect (calls e.thread) e.query = true ∧ readBy e.thread log = some i then 1 else 0) +
      effects calls i log

/-- Every effect was enabled by an entry. -/
def Enabled (calls : ι → Call) : Log ι → Prop
  | [] => True
  | e :: log =>
    (isEffect (calls e.thread) e.query = true → ∃ i, readBy e.thread log = some i) ∧
      Enabled calls log

theorem readBy_cons_ne {j : ι} {e : Event ι Query Answer} (h : e.thread ≠ j) (log : Log ι) :
    readBy j (e :: log) = readBy j log := by
  rw [readBy]
  split
  · exact if_neg h
  · rfl

theorem readBy_cons_quiet {j : ι} {e : Event ι Query Answer}
    (h : ∀ memberId, e.query ≠ .memGet memberId) (log : Log ι) :
    readBy j (e :: log) = readBy j log := by
  rw [readBy]
  split
  · next memberId hq => exact absurd hq (h memberId)
  · rfl

/-! ## Interleaved runs -/

/-- Where call `k` stands. -/
def attempt (calls : ι → Call) (c : Server ι) (k : ι) : Attempt :=
  Config.track Attempt.next ⟨calls k, none, false⟩ k c.log

/-- Call `k` answers the challenge of the entry of `i`, which it has read, and has not ended
without its effect. -/
def Contends (calls : ι → Call) (c : Server ι) (i k : ι) : Prop :=
  readBy k c.log = some i ∧ (attempt calls c k).Answering ∧
    (c.Live k ∨ (attempt calls c k).done = true)

/-- If the next step of `j` reads an entry whose challenge `j` answers, no other call contends for
the entry. -/
def ReadsAlone (calls : ι → Call) (c : Server ι) (j : ι) : Prop :=
  ∀ memberId vo i, c.Asks j (.memGet memberId) → c.store.memory memberId = some vo →
    Answers (calls j) memberId vo → entryOf memberId c.log = some i →
    ∀ k, k ≠ j → ¬ Contends calls c i k

@[simp] theorem attempt_call (calls : ι → Call) (c : Server ι) (k : ι) :
    (attempt calls c k).call = calls k := by
  unfold attempt
  induction c.log with
  | nil => rfl
  | cons e log ih =>
    rw [Config.track]
    split
    · rw [Attempt.next_call, ih]
    · exact ih

variable {env : Env} {calls : ι → Call} {c : Server ι} {j : ι} {q : Query}
  {r : Answer q → HandlerProg JsonObject}

theorem attempt_step_self (hj : c.thread j = .ask q r) :
    attempt calls (c.step (perform env) j) j =
      (attempt calls c j).next q (perform env q c.store).1 := by
  unfold attempt
  rw [Config.log_step _ hj, Config.track_cons_self]

/-- Another call stands where it stood. -/
theorem contends_step_ne {i k : ι} (hk : k ≠ j) :
    Contends calls (c.step (perform env) j) i k ↔ Contends calls c i k := by
  have hattempt : attempt calls (c.step (perform env) j) k = attempt calls c k :=
    Config.track_step_ne _ _ c _ hk
  have hread : readBy k (c.step (perform env) j).log = readBy k c.log := by
    rcases Config.step_cases (perform env) c j with ⟨hs, -⟩ | ⟨q, r, -, hs⟩
    · rw [hs]
    · rw [hs]
      exact readBy_cons_ne (Ne.symm hk) c.log
  unfold Contends
  rw [hattempt, hread, Config.live_step_ne _ _ hk]

/-- A call that does not read the memory contends for nothing new. -/
theorem contends_step_self {i : ι} (hj : c.thread j = .ask q r)
    (hq : ∀ memberId, q ≠ .memGet memberId)
    (h : Contends calls (c.step (perform env) j) i j) : Contends calls c i j := by
  obtain ⟨hread, hanswer, -⟩ := h
  rw [Config.log_step _ hj, readBy_cons_quiet hq] at hread
  rw [attempt_step_self hj] at hanswer
  exact ⟨hread, hanswer.next hq, Or.inl ⟨q, r, hj⟩⟩

/-! ## The invariant -/

/-- Every entry in the memory is somebody's, nobody has read another, at most one call contends
for an entry, and an entry that has had its effect is contended for by the call that had it. -/
structure Single (calls : ι → Call) (c : Server ι) : Prop where
  follows : Config.AllFollow Attempt.may Attempt.next (fun _ _ _ => True)
    (fun k => ⟨calls k, none, false⟩) c
  memory : ∀ memberId vo, c.store.memory memberId = some vo → ∃ i, entryOf memberId c.log = some i
  read : ∀ k memberId vo, (attempt calls c k).read = some (memberId, vo) →
    ∃ i, readBy k c.log = some i
  alone : ∀ i k k', Contends calls c i k → Contends calls c i k' → k = k'
  enabled : Enabled calls c.log
  once : ∀ i, effects calls i c.log ≤ 1
  used : ∀ i, effects calls i c.log ≠ 0 →
    ∃ k, Contends calls c i k ∧ (attempt calls c k).done = true

theorem single_start (env : Env) (cards : List CardVo) (calls : ι → Call) :
    Single calls (startCalls env cards calls) := by
  constructor
  · intro k
    exact follows_handle env (calls k)
  · intro memberId vo h
    cases h
  · intro k memberId vo h
    cases h
  · intro i k k' h
    cases h.1
  · trivial
  · intro i
    exact Nat.zero_le 1
  · intro i h
    exact absurd rfl h

/-- What the thread is about to ask, its monitor allows. -/
theorem Single.may (h : Single calls c) (hj : c.thread j = .ask q r) : (attempt calls c j).may q :=
  h.follows.allowed ⟨r, hj⟩

theorem Single.memory_step (h : Single calls c) (hj : c.thread j = .ask q r) {memberId : String}
    {vo : MoaMemoryVo} (hvo : (c.step (perform env) j).store.memory memberId = some vo) :
    ∃ i, entryOf memberId (c.step (perform env) j).log = some i := by
  rw [Config.store_step _ hj] at hvo
  rw [Config.log_step _ hj]
  cases q with
  | memPut m vo' =>
    by_cases hm : m = memberId
    · exact ⟨j, if_pos hm⟩
    · have hold : Function.update c.store.memory m (some vo') memberId = some vo := hvo
      rw [Function.update_of_ne (Ne.symm hm)] at hold
      obtain ⟨i, hi⟩ := h.memory memberId vo hold
      exact ⟨i, (if_neg hm).trans hi⟩
  | memRemove m =>
    by_cases hm : m = memberId
    · subst hm
      have hnone : Function.update c.store.memory m none m = some vo := hvo
      rw [Function.update_self] at hnone
      cases hnone
    · have hold : Function.update c.store.memory m none memberId = some vo := hvo
      rw [Function.update_of_ne (Ne.symm hm)] at hold
      obtain ⟨i, hi⟩ := h.memory memberId vo hold
      exact ⟨i, (if_neg hm).trans hi⟩
  | _ => exact h.memory memberId vo hvo

/-- After a read, the entry that was read is known. -/
theorem Single.read_step (h : Single calls c) (hj : c.thread j = .ask q r) {k : ι}
    {memberId : String} {vo : MoaMemoryVo}
    (hread : (attempt calls (c.step (perform env) j) k).read = some (memberId, vo)) :
    ∃ i, readBy k (c.step (perform env) j).log = some i := by
  rw [Config.log_step _ hj]
  by_cases hk : k = j
  · subst hk
    rw [attempt_step_self hj] at hread
    by_cases hq : ∃ m, q = .memGet m
    · obtain ⟨m, rfl⟩ := hq
      obtain ⟨vo', hvo', -⟩ := Option.map_eq_some_iff.mp hread
      obtain ⟨i, hi⟩ := h.memory m vo' hvo'
      exact ⟨i, (if_pos rfl).trans hi⟩
    · have hq' : ∀ m, q ≠ .memGet m := fun m hm => hq ⟨m, hm⟩
      rw [Attempt.next_read hq'] at hread
      rw [readBy_cons_quiet hq']
      exact h.read k memberId vo hread
  · have hattempt : attempt calls (c.step (perform env) j) k = attempt calls c k :=
      Config.track_step_ne _ _ c _ hk
    rw [hattempt] at hread
    rw [readBy_cons_ne (Ne.symm hk)]
    exact h.read k memberId vo hread

/-- The step of a call that reads alone leaves everybody alone. -/
theorem Single.alone_step (h : Single calls c) (hj : c.thread j = .ask q r)
    (hreads : ReadsAlone calls c j) {i k k' : ι}
    (hk : Contends calls (c.step (perform env) j) i k)
    (hk' : Contends calls (c.step (perform env) j) i k') : k = k' := by
  -- the call that has just read an entry contends for it with nobody
  have hnew {k' : ι} (hk'j : k' ≠ j) (hself : Contends calls (c.step (perform env) j) i j)
      (hother : Contends calls (c.step (perform env) j) i k') : False := by
    have hother' := (contends_step_ne hk'j).mp hother
    by_cases hq : ∃ m, q = .memGet m
    · obtain ⟨m, rfl⟩ := hq
      obtain ⟨hread, ⟨memberId, vo, hvo, hanswers⟩, -⟩ := hself
      rw [Config.log_step _ hj] at hread
      rw [attempt_call] at hanswers
      rw [attempt_step_self hj] at hvo
      obtain ⟨vo', hvo', heq⟩ := Option.map_eq_some_iff.mp hvo
      cases heq
      have hentry : entryOf m c.log = some i := (if_pos rfl).symm.trans hread
      exact hreads m vo i ⟨r, hj⟩ hvo' hanswers hentry k' hk'j hother'
    · have hself' := contends_step_self hj (fun m hm => hq ⟨m, hm⟩) hself
      exact hk'j (h.alone i k' j hother' hself')
  by_cases hkj : k = j
  · by_cases hkj' : k' = j
    · rw [hkj, hkj']
    · subst hkj
      exact (hnew hkj' hk hk').elim
  · by_cases hkj' : k' = j
    · subst hkj'
      exact (hnew hkj hk' hk).elim
    · exact h.alone i k k' ((contends_step_ne hkj).mp hk) ((contends_step_ne hkj').mp hk')

/-- Whoever has had an effect still contends for its entry. -/
theorem Single.used_step (h : Single calls c) (hj : c.thread j = .ask q r) {i k : ι}
    (hk : Contends calls c i k) (hdone : (attempt calls c k).done = true) :
    Contends calls (c.step (perform env) j) i k ∧
      (attempt calls (c.step (perform env) j) k).done = true := by
  by_cases hkj : k = j
  · subst hkj
    have hq : ∀ m, q ≠ .memGet m := by
      rintro m rfl
      have hnot : (attempt calls c k).done = false := h.may hj
      rw [hnot] at hdone
      cases hdone
    have hdone' : (attempt calls (c.step (perform env) k) k).done = true := by
      rw [attempt_step_self hj, Attempt.next_done, hdone, Bool.true_or]
    obtain ⟨hread, ⟨memberId, vo, hvo, hanswers⟩, -⟩ := hk
    refine ⟨⟨?_, ⟨memberId, vo, ?_, ?_⟩, Or.inr hdone'⟩, hdone'⟩
    · rw [Config.log_step _ hj, readBy_cons_quiet hq]
      exact hread
    · rw [attempt_step_self hj, Attempt.next_read hq]
      exact hvo
    · rw [attempt_call] at hanswers ⊢
      exact hanswers
  · refine ⟨(contends_step_ne hkj).mpr hk, ?_⟩
    have hattempt : attempt calls (c.step (perform env) j) k = attempt calls c k :=
      Config.track_step_ne _ _ c _ hkj
    rw [hattempt]
    exact hdone

/-- **Step lemma.** -/
theorem single_step (h : Single calls c) (hreads : ReadsAlone calls c j) :
    Single calls (c.step (perform env) j) := by
  rcases Config.step_cases (perform env) c j with ⟨hs, -⟩ | ⟨q, r, hj, -⟩
  · rw [hs]
    exact h
  have hlog := Config.log_step (perform env) hj
  have heffect (he : isEffect (calls j) q = true) :
      (attempt calls c j).done = false ∧ (attempt calls c j).Answering := by
    rw [← attempt_call calls c j] at he
    exact Attempt.may_effect (h.may hj) he
  have hused (i : ι) (hi : effects calls i c.log ≠ 0) :
      ∃ k, Contends calls (c.step (perform env) j) i k ∧
        (attempt calls (c.step (perform env) j) k).done = true := by
    obtain ⟨k, hk, hdone⟩ := h.used i hi
    exact ⟨k, h.used_step hj hk hdone⟩
  -- the entry that enables an effect has not had one, since nobody else contends for it
  have hfirst (i : ι) (he : isEffect (calls j) q = true) (hi : readBy j c.log = some i) :
      effects calls i c.log = 0 := by
    by_contra hne
    obtain ⟨k, hk, hdone⟩ := h.used i hne
    obtain ⟨hnot, hanswer⟩ := heffect he
    have hkj : k = j := h.alone i k j hk ⟨hi, hanswer, Or.inl ⟨q, r, hj⟩⟩
    rw [hkj, hnot] at hdone
    cases hdone
  constructor
  · exact Config.follows_step (perform env) c j h.follows
  · intro memberId vo hvo
    exact h.memory_step hj hvo
  · intro k memberId vo hread
    exact h.read_step hj hread
  · intro i k k' hk hk'
    exact h.alone_step hj hreads hk hk'
  · rw [hlog]
    refine ⟨?_, h.enabled⟩
    intro he
    obtain ⟨-, memberId, vo, hvo, -⟩ := heffect he
    exact h.read j memberId vo hvo
  · intro i
    rw [hlog, effects]
    split
    · next hnow =>
      have hzero := hfirst i hnow.1 hnow.2
      omega
    · have hle := h.once i
      omega
  · intro i hi
    by_cases hnow : isEffect (calls j) q = true ∧ readBy j c.log = some i
    · obtain ⟨hnot, hanswer⟩ := heffect hnow.1
      have hdone : (attempt calls (c.step (perform env) j) j).done = true := by
        rw [attempt_step_self hj, Attempt.next_done, attempt_call, hnow.1, Bool.or_true]
      have hq : ∀ m, q ≠ .memGet m := by
        rintro m rfl
        cases hnow.1
      obtain ⟨memberId, vo, hvo, hanswers⟩ := hanswer
      refine ⟨j, ⟨?_, ⟨memberId, vo, ?_, ?_⟩, Or.inr hdone⟩, hdone⟩
      · rw [hlog, readBy_cons_quiet hq]
        exact hnow.2
      · rw [attempt_step_self hj, Attempt.next_read hq]
        exact hvo
      · rw [attempt_call] at hanswers ⊢
        exact hanswers
    · apply hused i
      rw [hlog, effects, if_neg hnow] at hi
      omega

/-- **Single use.**  In every interleaving of any calls in which a second step that answers a
challenge reads its entry alone, every effect is enabled by an entry, and an entry enables one
effect at most. -/
theorem single_use (env : Env) (cards : List CardVo) (calls : ι → Call) (sched : List ι)
    (halone : StepRun.Along (Config.step (perform env)) (ReadsAlone calls)
      (startCalls env cards calls) sched) :
    Enabled calls ((startCalls env cards calls).exec (perform env) sched).log ∧
      ∀ i, effects calls i ((startCalls env cards calls).exec (perform env) sched).log ≤ 1 := by
  have hstep (c : Server ι) (j : ι) (h : Single calls c) (hreads : ReadsAlone calls c j) :
      Single calls (c.step (perform env) j) := single_step h hreads
  have hinv := StepRun.invariant_run _ hstep (single_start env cards calls) halone
  exact ⟨hinv.enabled, hinv.once⟩

/-! ## A payment, two resets, two payments -/

/-- A payment and its second step. -/
def payment : Bool → Call
  | false => startPayment "o1"
  | true => endPayment "t" "nonce0" "o1" "o1"

/-- The first step answers no challenge, so the second reads alone. -/
theorem readsAlone_payment (c : Server Bool) (j : Bool) : ReadsAlone payment c j := by
  have honly (k : Bool) (memberId : String) (vo : MoaMemoryVo)
      (h : Answers (payment k) memberId vo) : k = true := by
    cases k with
    | true => rfl
    | false =>
      rcases h.2 with ⟨⟨-, hstep, -⟩, -⟩ | ⟨hop, -⟩
      · exact absurd hstep (by decide)
      · exact absurd hop (by decide)
  rintro memberId vo i - - hj - k hk ⟨-, ⟨memberId', vo', -, hanswers⟩, -⟩
  rw [attempt_call] at hanswers
  exact hk ((honly k memberId' vo' hanswers).trans (honly j memberId vo hj).symm)

theorem single_use_payment :
    (Enabled payment ((startCalls .willing [activeCard] payment).exec (perform .willing)
        [false, false, false, true, true, true, true, true, true]).log ∧
      ∀ i, effects payment i ((startCalls .willing [activeCard] payment).exec (perform .willing)
        [false, false, false, true, true, true, true, true, true]).log ≤ 1) ∧
      effects payment false ((startCalls .willing [activeCard] payment).exec (perform .willing)
        [false, false, false, true, true, true, true, true, true]).log = 1 :=
  ⟨single_use _ _ _ _ (StepRun.along_of_forall _ readsAlone_payment _ _), by decide +kernel⟩

/-- A reset whose second step is sent twice. -/
def resets : Fin 3 → Call
  | 0 => ⟨.initializePassword, [("step", "1"), ("memberId", "m"), ("secretKeyNew", "bmV3")]⟩
  | _ => ⟨.initializePassword, [("step", "ini"), ("memberId", "m"), ("nonce", "nonce0")]⟩

/-- A payment whose second step is sent twice. -/
def payments : Fin 3 → Call
  | 0 => startPayment "o1"
  | _ => endPayment "t" "nonce0" "o1" "o1"

/-- The second steps of a reset, one after the other, change the key twice; those of a payment,
both reading before either removes, are approved twice. -/
theorem challenge_used_twice :
    ¬ (∀ i, effects resets i ((startCalls .willing [activeCard] resets).exec (perform .willing)
        [0, 0, 0, 1, 1, 1, 2, 2, 2]).log ≤ 1) ∧
    ¬ (∀ i, effects payments i ((startCalls .willing [activeCard] payments).exec (perform .willing)
        [0, 0, 0, 1, 2, 1, 1, 1, 1, 2, 2, 2, 2]).log ≤ 1) := by
  constructor
  · intro h
    have htwo := h 0
    revert htwo
    decide +kernel
  · intro h
    have htwo := h 0
    revert htwo
    decide +kernel

end MoaCrypto.SimplePay
