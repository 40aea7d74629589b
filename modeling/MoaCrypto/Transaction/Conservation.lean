import MoaCrypto.Transaction.Worth

/-!
# Conservation of value in one call

An accepted request moves value: what the marked rows were worth should be what
the inserted rows are worth.  The code sums the value of every input but marks
each row once, so a hash named twice is paid for once and credited twice:
`conserved_iff` says that value is conserved exactly if the repeated references
are worth nothing.
-/

namespace MoaCrypto.Transaction

open Java QueryProg Weigh

/-- The worth of the rows of `us` that are unspent in `us` and no longer in `us'`. -/
def spentWorth (us us' : List Utxo) : ℚ :=
  weigh (fun p => p.1.worth) (fun p => p.1.Unspent ∧ ¬ p.2.Unspent) (us.zip us')

/-- The worth of the rows of `us'` after those of `us`. -/
def insertedWorth (us us' : List Utxo) : ℚ := ((us'.drop us.length).map Utxo.worth).sum

/-- Every reference to a row that a later reference names again counts its worth. -/
def repeatedWorth (us : List Utxo) : List String → ℚ
  | [] => 0
  | hash :: hashes => (if hash ∈ hashes then hashWorth us hash else 0) + repeatedWorth us hashes

/-- What all unspent rows of the named hashes are worth, each row once. -/
def markedWorth (us : List Utxo) (hashes : List String) : ℚ :=
  weigh Utxo.worth (fun u => u.Unspent ∧ u.hashUTXO ∈ hashes) us

theorem markedWorth_eq (us : List Utxo) (hashes : List String) :
    markedWorth us hashes = (hashes.dedup.map (hashWorth us)).sum := by
  have hkeys := weigh_keys Utxo.worth Utxo.Unspent Utxo.hashUTXO (List.nodup_dedup hashes) us
  unfold markedWorth hashWorth
  rw [← hkeys]
  apply weigh_congr
  intro u _
  rw [List.mem_dedup]

theorem sum_hashWorth (us : List Utxo) (hashes : List String) :
    (hashes.map (hashWorth us)).sum = markedWorth us hashes + repeatedWorth us hashes := by
  rw [markedWorth_eq]
  induction hashes with
  | nil => simp [repeatedWorth]
  | cons hash hashes ih =>
    rw [List.map_cons, List.sum_cons, ih, repeatedWorth]
    by_cases h : hash ∈ hashes
    · rw [List.dedup_cons_of_mem h, if_pos h]
      ring
    · rw [List.dedup_cons_of_notMem h, if_neg h, List.map_cons, List.sum_cons]
      ring

/-- In a table with unique hashes, the value selected for a hash is what its rows are worth. -/
theorem worth_valueOfHash {us : List Utxo} (hunique : (us.map Utxo.hashUTXO).Nodup)
    (hash : String) : ((valueOfHash us hash).map worth).getD 0 = hashWorth us hash := by
  induction us with
  | nil => rfl
  | cons u us ih =>
    rw [List.map_cons, List.nodup_cons] at hunique
    rw [hashWorth, weigh_cons, valueOfHash, List.find?_cons]
    by_cases h : u.Unspent ∧ u.hashUTXO = hash
    · simp only [h, and_self, decide_true, if_true, Option.map_some, Option.getD_some]
      have hnone : weigh Utxo.worth (fun u => u.Unspent ∧ u.hashUTXO = hash) us = 0 := by
        apply weigh_none
        intro v hv hrow
        apply hunique.1
        rw [h.2, ← hrow.2]
        exact List.mem_map_of_mem hv
      rw [hnone, add_zero]
      rfl
    · simp only [h, decide_false, if_false, zero_add]
      exact ih hunique.2

theorem referencedWorth_eq {us : List Utxo} (hunique : (us.map Utxo.hashUTXO).Nodup)
    (inputs : List Input) :
    referencedWorth us inputs =
      markedWorth us (inputHashes inputs) + repeatedWorth us (inputHashes inputs) := by
  rw [← sum_hashWorth, referencedWorth]
  congr 1
  apply List.map_congr_left
  intro hash _
  exact worth_valueOfHash hunique hash

/-- Marking the inputs takes exactly the marked rows out of the unspent ones. -/
theorem unspentWorth_spendAny {TX : String} (hTX : TX ≠ unspentTail) (hashes : List String)
    (us : List Utxo) :
    unspentWorth us = markedWorth us hashes + unspentWorth (us.map (Utxo.spendAny TX hashes)) := by
  have hkept : unspentWorth (us.map (Utxo.spendAny TX hashes)) =
      weigh Utxo.worth (fun u => u.Unspent ∧ ¬ u.hashUTXO ∈ hashes) us := by
    unfold unspentWorth
    rw [weigh_map Utxo.worth Utxo.Unspent (Utxo.spendAny TX hashes)
      (fun u => by simp [Utxo.worth])]
    apply weigh_congr
    intro u _
    exact unspent_spendAny hTX hashes u
  rw [hkept]
  exact weigh_split Utxo.worth Utxo.Unspent (fun u => u.hashUTXO ∈ hashes) us

theorem spentWorth_spendAny {TX : String} (hTX : TX ≠ unspentTail) (hashes : List String)
    (us vs : List Utxo) :
    spentWorth us (us.map (Utxo.spendAny TX hashes) ++ vs) = markedWorth us hashes := by
  unfold spentWorth markedWorth
  induction us with
  | nil => rfl
  | cons u us ih =>
    simp only [List.map_cons, List.cons_append, List.zip_cons_cons, weigh_cons, ih]
    congr 1
    apply if_congr _ rfl rfl
    rw [unspent_spendAny hTX]
    constructor
    · rintro ⟨hu, hn⟩
      exact ⟨hu, by by_contra hm; exact hn ⟨hu, hm⟩⟩
    · rintro ⟨hu, hm⟩
      exact ⟨hu, fun hk => hk.2 hm⟩

theorem unspentWorth_append (us : List Utxo) {vs : List Utxo} (h : ∀ u ∈ vs, u.Unspent) :
    unspentWorth (us ++ vs) = unspentWorth us + (vs.map Utxo.worth).sum := by
  unfold unspentWorth
  rw [weigh_append, weigh_all _ _ h]

/-- The rows that a commit adds are worth what the inputs were given. -/
theorem Passes.inserted_worth {env : Env} {us : List Utxo} {req : Request}
    {publicKey : List UInt8} {sum value remain : BigDecimal}
    (hp : Passes env us req publicKey sum value remain) (TX : String)
    (hcomplete : ∀ output ∈ req.message.outputs, output.Complete) (hscale : remain.scale = 0) :
    ((newUtxos env TX 1 req.message.outputs ++ changeUtxos env req publicKey remain).map
      Utxo.worth).sum = referencedWorth us req.message.inputs := by
  rw [List.map_append, List.sum_append, newUtxos_worth env TX 1 hcomplete,
    changeUtxos_worth env req publicKey hscale hp.remain_nonneg, hp.remain_toRat]
  ring

/-- **Conservation.**  An accepted call conserves the value of the unspent rows, and marks rows
worth exactly those it inserts, if and only if its repeated references are worth nothing. -/
theorem conserved_iff (env : Env) (t : Tables) (req : Request)
    (hunique : (t.utxos.map Utxo.hashUTXO).Nodup) (hvalid : (call env req t).1 = .ok "Valid TX") :
    (unspentWorth (call env req t).2.utxos = unspentWorth t.utxos ∧
      spentWorth t.utxos (call env req t).2.utxos =
        insertedWorth t.utxos (call env req t).2.utxos) ↔
      repeatedWorth t.utxos (inputHashes req.message.inputs) = 0 := by
  obtain ⟨publicKey, sum, value, remain, hp, hcomplete, ⟨hscale, -⟩, htables⟩ := call_valid hvalid
  have hTX := hashHex_ne_unspentTail env (env.toJSONString req.message)
  have hins := hp.inserted_worth (hashHex env (env.toJSONString req.message)) hcomplete hscale
  have hunspent : ∀ u ∈ newUtxos env (hashHex env (env.toJSONString req.message)) 1
      req.message.outputs ++ changeUtxos env req publicKey remain, u.Unspent := by
    intro u hu
    rcases List.mem_append.mp hu with hu | hu
    · exact newUtxos_unspent hu
    · exact changeUtxos_unspent hu
  have href := referencedWorth_eq hunique req.message.inputs
  have hbefore := unspentWorth_spendAny hTX (inputHashes req.message.inputs) t.utxos
  have hinserted : insertedWorth t.utxos (call env req t).2.utxos =
      referencedWorth t.utxos req.message.inputs := by
    rw [htables, committed, insertedWorth, List.append_assoc, ← hins]
    simp
  have hspent : spentWorth t.utxos (call env req t).2.utxos =
      markedWorth t.utxos (inputHashes req.message.inputs) := by
    rw [htables, committed, List.append_assoc]
    exact spentWorth_spendAny hTX _ _ _
  have hafter : unspentWorth (call env req t).2.utxos =
      unspentWorth (t.utxos.map (Utxo.spendAny (hashHex env (env.toJSONString req.message))
        (inputHashes req.message.inputs))) + referencedWorth t.utxos req.message.inputs := by
    rw [htables, committed, List.append_assoc]
    simp only
    rw [unspentWorth_append _ hunspent, hins]
  rw [hinserted, hspent, hafter, hbefore, href]
  constructor
  · rintro ⟨-, h⟩
    linarith
  · intro h
    constructor <;> linarith

theorem conserved_single :
    ([(coin "c1" "5")].map Utxo.hashUTXO).Nodup ∧
    (call openEnv (spendRequest ["c1"] [("3", "bb")] "m") ⟨[], [coin "c1" "5"]⟩).1 =
      .ok "Valid TX" ∧
    ((unspentWorth (call openEnv (spendRequest ["c1"] [("3", "bb")] "m")
          ⟨[], [coin "c1" "5"]⟩).2.utxos = unspentWorth [coin "c1" "5"] ∧
      spentWorth [coin "c1" "5"] (call openEnv (spendRequest ["c1"] [("3", "bb")] "m")
          ⟨[], [coin "c1" "5"]⟩).2.utxos =
        insertedWorth [coin "c1" "5"] (call openEnv (spendRequest ["c1"] [("3", "bb")] "m")
          ⟨[], [coin "c1" "5"]⟩).2.utxos) ↔
      repeatedWorth [coin "c1" "5"] (inputHashes (spendRequest ["c1"] [("3", "bb")]
        "m").message.inputs) = 0) :=
  ⟨by decide, by decide, conserved_iff openEnv ⟨[], [coin "c1" "5"]⟩
    (spendRequest ["c1"] [("3", "bb")] "m") (by decide) (by decide)⟩

/-- One row worth 5, named twice, buys an output worth 8 and a change worth 2. -/
theorem not_conserved :
    ¬ ∀ (env : Env) (t : Tables) (req : Request), (t.utxos.map Utxo.hashUTXO).Nodup →
      (call env req t).1 = .ok "Valid TX" →
      unspentWorth (call env req t).2.utxos = unspentWorth t.utxos := by
  intro h
  have hcall := h openEnv ⟨[], [coin "c1" "5"]⟩ (spendRequest ["c1", "c1"] [("8", "bb")] "m")
    (by decide) (by decide)
  have hafter : (call openEnv (spendRequest ["c1", "c1"] [("8", "bb")] "m")
      ⟨[], [coin "c1" "5"]⟩).2.utxos.map (fun u => (u.value, decide u.Unspent)) =
      [("5", false), ("8", true), ("2", true)] := by decide
  have hvalues (us : List Utxo) : unspentWorth us =
      ((us.map fun u => (u.value, decide u.Unspent)).map
        fun p => if p.2 = true then worth p.1 else 0).sum := by
    unfold unspentWorth weigh
    rw [List.map_map]
    congr 1
    apply List.map_congr_left
    intro u _
    simp [Utxo.worth]
  have h5 : worth "5" = (5 : Int) := worth_int (by decide)
  have h8 : worth "8" = (8 : Int) := worth_int (by decide)
  have h2 : worth "2" = (2 : Int) := worth_int (by decide)
  rw [hvalues, hafter, hvalues] at hcall
  simp [coin, Utxo.Unspent, h5, h8, h2] at hcall
  norm_num at hcall

end MoaCrypto.Transaction
