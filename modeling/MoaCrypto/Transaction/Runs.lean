import MoaCrypto.Transaction.Conservation
import MoaCrypto.Lib.Run

/-!
# Sequential runs of the server

A run takes calls one after the other from any table.

* **No coin from nothing.**  A call pays out more than it takes in only if its
  inputs repeat a row, and inserts a row without value only if an output has none.
  In a run without such requests the unspent rows of any keys stay within the
  value of the initial ones (`no_coin_from_nothing`).
* **Replay.**  An accepted message spends a row it names for good, so it is not
  accepted again, as long as it names one and no new row takes the name of a spent
  one (`accepted_once`).
-/

namespace MoaCrypto.Transaction

open Java QueryProg Weigh

/-- The tables after a call. -/
def serve (env : Env) (t : Tables) (req : Request) : Tables := (call env req t).2

/-! ## No coin from nothing -/

/-- The value of the unspent rows held under the keys `keys`. -/
def heldWorth (keys : String → Prop) [DecidablePred keys] (us : List Utxo) : ℚ :=
  weigh Utxo.worth (fun u => u.Unspent ∧ keys u.publicKey) us

/-- The value of all rows. -/
def totalWorth (us : List Utxo) : ℚ := (us.map Utxo.worth).sum

/-- Every row has a positive value. -/
def Positive (us : List Utxo) : Prop := ∀ u ∈ us, 0 < u.worth

/-- The request names no row twice and asks for positive outputs only. -/
def Fair (req : Request) : Prop :=
  (inputHashes req.message.inputs).Nodup ∧
    ∀ output ∈ req.message.outputs, 0 < (output.value.map worth).getD 0

/-- The value selected for a hash is at most what its unspent rows are worth together. -/
theorem worth_valueOfHash_le {us : List Utxo} (hpos : Positive us) (hash : String) :
    ((valueOfHash us hash).map worth).getD 0 ≤ hashWorth us hash := by
  have hnn : ∀ u ∈ us, 0 ≤ u.worth := fun u hu => le_of_lt (hpos u hu)
  unfold valueOfHash
  cases hfind : us.find? fun u => u.Unspent ∧ u.hashUTXO = hash with
  | none => exact weigh_nonneg _ _ hnn
  | some u =>
    have hrow := List.find?_some hfind
    simp only [decide_eq_true_eq] at hrow
    exact le_weigh Utxo.worth _ hnn (List.mem_of_find?_eq_some hfind) hrow

theorem repeatedWorth_of_nodup (us : List Utxo) {hashes : List String} (h : hashes.Nodup) :
    repeatedWorth us hashes = 0 := by
  induction hashes with
  | nil => rfl
  | cons hash hashes ih =>
    rw [List.nodup_cons] at h
    rw [repeatedWorth, if_neg h.1, ih h.2, add_zero]

/-- Inputs without repetition are given at most what their rows are worth. -/
theorem referencedWorth_le {us : List Utxo} (hpos : Positive us) {inputs : List Input}
    (h : (inputHashes inputs).Nodup) :
    referencedWorth us inputs ≤ markedWorth us (inputHashes inputs) := by
  have hsum := sum_hashWorth us (inputHashes inputs)
  rw [repeatedWorth_of_nodup us h, add_zero] at hsum
  rw [← hsum]
  apply List.sum_le_sum
  intro hash _
  exact worth_valueOfHash_le hpos hash

/-- The rows written for positive outputs are positive and worth at most all outputs. -/
theorem newUtxos_fair (env : Env) (TX : String) (i : Nat) {outputs : List Output}
    (h : ∀ output ∈ outputs, 0 < (output.value.map worth).getD 0) :
    Positive (newUtxos env TX i outputs) ∧
      totalWorth (newUtxos env TX i outputs) ≤ outputsWorth outputs ∧ 0 ≤ outputsWorth outputs := by
  induction outputs generalizing i with
  | nil => exact ⟨fun u hu => absurd hu List.not_mem_nil, le_refl _, le_refl _⟩
  | cons output outputs ih =>
    have hhead := h output List.mem_cons_self
    obtain ⟨hpos, hle, hnn⟩ := ih (i + 1) fun o ho => h o (List.mem_cons_of_mem _ ho)
    have hcons : outputsWorth (output :: outputs) =
        (output.value.map worth).getD 0 + outputsWorth outputs := by
      rw [outputsWorth, List.map_cons, List.sum_cons]
      rfl
    have hnil (l : List Utxo) (hl : l = []) : Positive l ∧
        totalWorth l ≤ outputsWorth (output :: outputs) ∧
        0 ≤ outputsWorth (output :: outputs) := by
      subst hl
      rw [hcons]
      have hzero : totalWorth [] = 0 := rfl
      exact ⟨fun u hu => absurd hu List.not_mem_nil, by linarith, by linarith⟩
    obtain ⟨_ | value, _ | pk⟩ := output
    · exact hnil _ rfl
    · exact hnil _ rfl
    · exact hnil _ rfl
    · rw [hcons]
      refine ⟨?_, ?_, by linarith⟩
      · intro u hu
        rcases List.mem_cons.mp hu with rfl | hu
        · exact hhead
        · exact hpos u hu
      · rw [newUtxos, totalWorth, List.map_cons, List.sum_cons]
        exact add_le_add (le_refl _) hle

theorem changeUtxos_positive {env : Env} {req : Request} {publicKey : List UInt8}
    {remain : BigDecimal} (hscale : remain.scale = 0) :
    Positive (changeUtxos env req publicKey remain) := by
  intro u hu
  unfold changeUtxos at hu
  split at hu
  · next hpos =>
    rw [List.mem_singleton] at hu
    subst hu
    show 0 < worth remain.toString
    rw [worth_toString hscale, BigDecimal.toRat_of_scale_zero hscale]
    exact_mod_cast hpos
  · cases hu

/-- **Fair calls mint nothing.**  Rows stay positive and the unspent ones gain no value. -/
theorem serve_fair {env : Env} {t : Tables} {req : Request} (hpos : Positive t.utxos)
    (hfair : Accepts env t.utxos req → Fair req) :
    Positive (serve env t req).utxos ∧
      unspentWorth (serve env t req).utxos ≤ unspentWorth t.utxos := by
  unfold serve
  rcases call_tables env t req with hsame | ⟨publicKey, sum, value, remain, change, hp, htables, hchange⟩
  · rw [hsame]
    exact ⟨hpos, le_refl _⟩
  · obtain ⟨hnodup, houts⟩ := hfair ⟨publicKey, sum, value, remain, hp⟩
    obtain ⟨hnewPos, hnewLe, -⟩ := newUtxos_fair env (hashHex env (env.toJSONString req.message)) 1
      houts
    have hTX := hashHex_ne_unspentTail env (env.toJSONString req.message)
    have hkept := unspentWorth_spendAny hTX (inputHashes req.message.inputs) t.utxos
    have hgiven := referencedWorth_le hpos hnodup
    have hchangePos : Positive change := by
      rcases hchange with rfl | ⟨rfl, hscale, -⟩
      · intro u hu
        cases hu
      · exact changeUtxos_positive hscale
    have hunspent : ∀ u ∈ newUtxos env (hashHex env (env.toJSONString req.message)) 1
        req.message.outputs ++ change, u.Unspent := by
      intro u hu
      rcases List.mem_append.mp hu with hu | hu
      · exact newUtxos_unspent hu
      · rcases hchange with rfl | ⟨rfl, -, -⟩
        · cases hu
        · exact changeUtxos_unspent hu
    have hpaid : totalWorth (newUtxos env (hashHex env (env.toJSONString req.message)) 1
        req.message.outputs ++ change) ≤ referencedWorth t.utxos req.message.inputs := by
      rcases hchange with rfl | ⟨rfl, hscale, hcomplete⟩
      · have hcovers := hp.remain_nonneg
        rw [hp.remain_toRat] at hcovers
        rw [List.append_nil]
        linarith
      · exact le_of_eq (hp.inserted_worth _ hcomplete hscale)
    rw [htables, committed, List.append_assoc]
    refine ⟨?_, ?_⟩
    · intro u hu
      rcases List.mem_append.mp hu with hu | hu
      · obtain ⟨v, hv, rfl⟩ := List.mem_map.mp hu
        rw [Utxo.worth, Utxo.spendAny_value]
        exact hpos v hv
      · rcases List.mem_append.mp hu with hu | hu
        · exact hnewPos u hu
        · exact hchangePos u hu
    · show unspentWorth (t.utxos.map _ ++ _) ≤ _
      rw [unspentWorth_append _ hunspent]
      unfold totalWorth at hpaid
      linarith

theorem heldWorth_le {us : List Utxo} (hpos : Positive us) (keys : String → Prop)
    [DecidablePred keys] : heldWorth keys us ≤ unspentWorth us :=
  weigh_mono _ _ _ (fun u hu => le_of_lt (hpos u hu)) fun _ _ h => h.1

theorem unspentWorth_le_total {us : List Utxo} (hpos : Positive us) :
    unspentWorth us ≤ totalWorth us := by
  have hall : totalWorth us = weigh Utxo.worth (fun _ => True) us :=
    (weigh_all Utxo.worth (fun _ => True) fun _ _ => trivial).symm
  rw [hall]
  exact weigh_mono _ _ _ (fun u hu => le_of_lt (hpos u hu)) fun _ _ _ => trivial

/-- **No coin from nothing.**  After a run from positive rows in which every request that
passes is fair, all rows are positive, and what any keys hold is at most the initial total. -/
theorem no_coin_from_nothing (env : Env) (t : Tables) (reqs : List Request)
    (hpos : Positive t.utxos)
    (hfair : StepRun.Along (serve env) (fun t req => Accepts env t.utxos req → Fair req) t reqs) :
    Positive (StepRun.run (serve env) t reqs).utxos ∧
      ∀ (keys : String → Prop) [DecidablePred keys],
        heldWorth keys (StepRun.run (serve env) t reqs).utxos ≤ totalWorth t.utxos := by
  have hstep (t' : Tables) (req : Request)
      (hi : Positive t'.utxos ∧ unspentWorth t'.utxos ≤ unspentWorth t.utxos)
      (hd : Accepts env t'.utxos req → Fair req) :
      Positive (serve env t' req).utxos ∧
        unspentWorth (serve env t' req).utxos ≤ unspentWorth t.utxos := by
    obtain ⟨h₁, h₂⟩ := serve_fair hi.1 hd
    exact ⟨h₁, le_trans h₂ hi.2⟩
  have hinv := StepRun.invariant_run (serve env) hstep ⟨hpos, le_refl _⟩ hfair
  refine ⟨hinv.1, fun keys _ => ?_⟩
  calc heldWorth keys (StepRun.run (serve env) t reqs).utxos
      ≤ unspentWorth (StepRun.run (serve env) t reqs).utxos := heldWorth_le hinv.1 keys
    _ ≤ unspentWorth t.utxos := hinv.2
    _ ≤ totalWorth t.utxos := unspentWorth_le_total hpos

theorem no_coin_single :
    Positive [coin "c1" "5"] ∧
    StepRun.Along (serve openEnv) (fun t req => Accepts openEnv t.utxos req → Fair req)
      ⟨[], [coin "c1" "5"]⟩ [spendRequest ["c1"] [("3", "bb")] "m"] ∧
    Positive (StepRun.run (serve openEnv) ⟨[], [coin "c1" "5"]⟩
      [spendRequest ["c1"] [("3", "bb")] "m"]).utxos ∧
    ∀ (keys : String → Prop) [DecidablePred keys],
      heldWorth keys (StepRun.run (serve openEnv) ⟨[], [coin "c1" "5"]⟩
        [spendRequest ["c1"] [("3", "bb")] "m"]).utxos ≤ totalWorth [coin "c1" "5"] := by
  have h5 : worth "5" = (5 : Int) := worth_int (by decide)
  have h3 : worth "3" = (3 : Int) := worth_int (by decide)
  have hpos : Positive [coin "c1" "5"] := by
    intro u hu
    rw [List.mem_singleton] at hu
    subst hu
    show 0 < worth "5"
    rw [h5]
    norm_num
  have hfair : Fair (spendRequest ["c1"] [("3", "bb")] "m") := by
    refine ⟨by decide, ?_⟩
    intro output ho
    simp only [spendRequest, List.map_cons, List.map_nil, List.mem_singleton] at ho
    subst ho
    show 0 < worth "3"
    rw [h3]
    norm_num
  have halong : StepRun.Along (serve openEnv) (fun t req => Accepts openEnv t.utxos req → Fair req)
      ⟨[], [coin "c1" "5"]⟩ [spendRequest ["c1"] [("3", "bb")] "m"] := ⟨fun _ => hfair, trivial⟩
  exact ⟨hpos, halong, no_coin_from_nothing openEnv ⟨[], [coin "c1" "5"]⟩ _ hpos halong⟩

/-- An output of -5 pays for one of 10. -/
theorem coin_from_nothing :
    ¬ ∀ (env : Env) (t : Tables) (reqs : List Request), Positive t.utxos →
      Positive (StepRun.run (serve env) t reqs).utxos ∧
        ∀ (keys : String → Prop) [DecidablePred keys],
          heldWorth keys (StepRun.run (serve env) t reqs).utxos ≤ totalWorth t.utxos := by
  intro h
  have h5 : worth "5" = (5 : Int) := worth_int (by decide)
  have hneg : worth "-5" = (-5 : Int) := worth_int (by decide)
  have hpos : Positive [coin "c1" "5"] := by
    intro u hu
    rw [List.mem_singleton] at hu
    subst hu
    show 0 < worth "5"
    rw [h5]
    norm_num
  obtain ⟨hrows, -⟩ := h openEnv ⟨[], [coin "c1" "5"]⟩
    [spendRequest ["c1"] [("-5", "bb"), ("10", "aa")] "m"] hpos
  obtain ⟨u, hu, hvalue⟩ : ∃ u ∈ (StepRun.run (serve openEnv) ⟨[], [coin "c1" "5"]⟩
      [spendRequest ["c1"] [("-5", "bb"), ("10", "aa")] "m"]).utxos, u.value = "-5" := by decide
  have hrow := hrows u hu
  rw [Utxo.worth, hvalue, hneg] at hrow
  norm_num at hrow

/-! ## Replay -/

/-- The messages accepted in a run, in order. -/
def accepted (env : Env) : Tables → List Request → List Message
  | _, [] => []
  | t, req :: reqs =>
    if (call env req t).1 = .ok "Valid TX" then
      req.message :: accepted env (serve env t req) reqs
    else accepted env (serve env t req) reqs

/-- The request names a row, and none of the rows it would write takes the name of a row that is
spent already or that it spends itself. -/
def Fresh (env : Env) (t : Tables) (req : Request) : Prop :=
  inputHashes req.message.inputs ≠ [] ∧
  ∀ publicKey sum value remain, Passes env t.utxos req publicKey sum value remain →
    ∀ u ∈ newUtxos env (hashHex env (env.toJSONString req.message)) 1 req.message.outputs ++
        changeUtxos env req publicKey remain,
      ∀ v ∈ t.utxos, v.hashUTXO = u.hashUTXO →
        v.Unspent ∧ v.hashUTXO ∉ inputHashes req.message.inputs

/-- There are rows of the hash, and all of them are spent. -/
def Spent (us : List Utxo) (hash : String) : Prop :=
  (∃ u ∈ us, u.hashUTXO = hash) ∧ ∀ u ∈ us, u.hashUTXO = hash → ¬ u.Unspent

/-- A spent hash stays spent when the call writes no row of that name. -/
theorem spent_committed {env : Env} {t : Tables} {req : Request} {change : List Utxo}
    {hash : String} (hold : ∃ u ∈ t.utxos, u.hashUTXO = hash)
    (hspent : ∀ u ∈ t.utxos, u.hashUTXO = hash →
      ¬ (u.Unspent ∧ u.hashUTXO ∉ inputHashes req.message.inputs))
    (hnew : ∀ u ∈ newUtxos env (hashHex env (env.toJSONString req.message)) 1
      req.message.outputs ++ change, u.hashUTXO ≠ hash) :
    Spent (committed env t req change).utxos hash := by
  have hTX := hashHex_ne_unspentTail env (env.toJSONString req.message)
  rw [committed, List.append_assoc]
  constructor
  · obtain ⟨u, hu, hhash⟩ := hold
    refine ⟨_, List.mem_append_left _ (List.mem_map_of_mem hu), ?_⟩
    rw [Utxo.spendAny_hashUTXO]
    exact hhash
  · intro u hu hhash
    rcases List.mem_append.mp hu with hu | hu
    · obtain ⟨v, hv, rfl⟩ := List.mem_map.mp hu
      rw [Utxo.spendAny_hashUTXO] at hhash
      rw [unspent_spendAny hTX]
      exact hspent v hv hhash
    · exact absurd hhash (hnew u hu)

theorem changes_subset {env : Env} {req : Request} {publicKey : List UInt8} {remain : BigDecimal}
    {change : List Utxo} {P : Prop}
    (h : change = [] ∨ change = changeUtxos env req publicKey remain ∧ P) {TX : String}
    {u : Utxo} (hu : u ∈ newUtxos env TX 1 req.message.outputs ++ change) :
    u ∈ newUtxos env TX 1 req.message.outputs ++ changeUtxos env req publicKey remain := by
  rcases h with rfl | ⟨rfl, -⟩
  · rw [List.append_nil] at hu
    exact List.mem_append_left _ hu
  · exact hu

/-- A fresh call keeps a spent hash spent. -/
theorem spent_serve {env : Env} {t : Tables} {req : Request} {hash : String}
    (hfresh : Accepts env t.utxos req → Fresh env t req) (h : Spent t.utxos hash) :
    Spent (serve env t req).utxos hash := by
  unfold serve
  rcases call_tables env t req with hsame | ⟨publicKey, sum, value, remain, change, hp, htables, hchange⟩
  · rw [hsame]
    exact h
  · obtain ⟨-, hfresh⟩ := hfresh ⟨publicKey, sum, value, remain, hp⟩
    rw [htables]
    apply spent_committed h.1
    · intro u hu hhash hn
      exact h.2 u hu hhash hn.1
    · intro u hu hhash
      obtain ⟨v, hv, hvhash⟩ := h.1
      have hrow := hfresh publicKey sum value remain hp u (changes_subset hchange hu) v hv
        (hvhash.trans hhash.symm)
      exact h.2 v hv hvhash hrow.1

/-- A fresh call that commits spends every hash it names. -/
theorem spent_of_accepted {env : Env} {t : Tables} {req : Request} {hash : String}
    (hfresh : Accepts env t.utxos req → Fresh env t req)
    (hvalid : (call env req t).1 = .ok "Valid TX")
    (hhash : hash ∈ inputHashes req.message.inputs) : Spent (serve env t req).utxos hash := by
  obtain ⟨publicKey, sum, value, remain, hp, -, -, htables⟩ := call_valid hvalid
  obtain ⟨-, hfresh⟩ := hfresh ⟨publicKey, sum, value, remain, hp⟩
  obtain ⟨v, hv, -, hvhash, -⟩ := hp.exists_row hhash
  unfold serve
  rw [htables]
  apply spent_committed ⟨v, hv, hvhash⟩
  · intro u _ huhash hn
    rw [huhash] at hn
    exact hn.2 hhash
  · intro u hu huhash
    have hrow := hfresh publicKey sum value remain hp u hu v hv (hvhash.trans huhash.symm)
    rw [hvhash] at hrow
    exact hrow.2 hhash

/-- A message that names a spent hash is not accepted. -/
theorem not_valid_of_spent {env : Env} {t : Tables} {req : Request} {hash : String}
    (h : Spent t.utxos hash) (hhash : hash ∈ inputHashes req.message.inputs) :
    (call env req t).1 ≠ .ok "Valid TX" := by
  intro hvalid
  obtain ⟨publicKey, sum, value, remain, hp, -⟩ := call_valid hvalid
  obtain ⟨u, hu, hunspent, huhash, -⟩ := hp.exists_row hhash
  exact h.2 u hu huhash hunspent

/-- Once a hash is spent, no message that names it is accepted in the rest of the run. -/
theorem not_accepted_of_spent {env : Env} {t : Tables} {reqs : List Request} {hash : String}
    {message : Message} (hhash : hash ∈ inputHashes message.inputs) (h : Spent t.utxos hash)
    (hfresh : StepRun.Along (serve env)
      (fun t req => Accepts env t.utxos req → Fresh env t req) t reqs) :
    message ∉ accepted env t reqs := by
  induction reqs generalizing t with
  | nil => exact List.not_mem_nil
  | cons req reqs ih =>
    have hrest := ih (spent_serve hfresh.1 h) hfresh.2
    unfold accepted
    by_cases hvalid : (call env req t).1 = .ok "Valid TX"
    · rw [if_pos hvalid, List.mem_cons]
      rintro (rfl | hm)
      · exact not_valid_of_spent h hhash hvalid
      · exact hrest hm
    · rw [if_neg hvalid]
      exact hrest

/-- **Replay.**  In a run in which every request that passes is fresh, no message is accepted
twice. -/
theorem accepted_once (env : Env) (t : Tables) (reqs : List Request)
    (hfresh : StepRun.Along (serve env)
      (fun t req => Accepts env t.utxos req → Fresh env t req) t reqs) :
    (accepted env t reqs).Nodup := by
  induction reqs generalizing t with
  | nil => exact List.nodup_nil
  | cons req reqs ih =>
    have hrest := ih (serve env t req) hfresh.2
    unfold accepted
    by_cases hvalid : (call env req t).1 = .ok "Valid TX"
    · rw [if_pos hvalid, List.nodup_cons]
      refine ⟨?_, hrest⟩
      obtain ⟨publicKey, sum, value, remain, hp, -⟩ := call_valid hvalid
      obtain ⟨hne, -⟩ := hfresh.1 ⟨publicKey, sum, value, remain, hp⟩
      obtain ⟨hash, hashes, hcons⟩ := List.exists_cons_of_ne_nil hne
      have hhash : hash ∈ inputHashes req.message.inputs := by
        rw [hcons]
        exact List.mem_cons_self
      exact not_accepted_of_spent hhash (spent_of_accepted hfresh.1 hvalid hhash) hfresh.2
    · rw [if_neg hvalid]
      exact hrest

theorem accepted_once_single :
    StepRun.Along (serve openEnv) (fun t req => Accepts openEnv t.utxos req → Fresh openEnv t req)
      ⟨[], [coin "c" "5"]⟩ [spendRequest ["c"] [("3", "bb")] "m"] ∧
    (accepted openEnv ⟨[], [coin "c" "5"]⟩ [spendRequest ["c"] [("3", "bb")] "m"]).Nodup := by
  have hfresh : Fresh openEnv ⟨[], [coin "c" "5"]⟩ (spendRequest ["c"] [("3", "bb")] "m") := by
    refine ⟨by decide, ?_⟩
    intro publicKey sum value remain _ u hu v hv hname
    obtain ⟨s, hs⟩ := inserted_hash hu
    rw [List.mem_singleton] at hv
    subst hv
    exact absurd (hs.symm.trans hname.symm) (hashHex_ne openEnv s (by decide))
  have halong : StepRun.Along (serve openEnv)
      (fun t req => Accepts openEnv t.utxos req → Fresh openEnv t req)
      ⟨[], [coin "c" "5"]⟩ [spendRequest ["c"] [("3", "bb")] "m"] := ⟨fun _ => hfresh, trivial⟩
  exact ⟨halong, accepted_once openEnv _ _ halong⟩

/-- A message without inputs and outputs spends nothing and is accepted again and again. -/
theorem accepted_twice :
    ¬ ∀ (env : Env) (t : Tables) (reqs : List Request), (accepted env t reqs).Nodup := by
  intro h
  have hrun := h openEnv ⟨[], []⟩ [spendRequest [] [] "m", spendRequest [] [] "m"]
  exact absurd hrun (by decide)

end MoaCrypto.Transaction
