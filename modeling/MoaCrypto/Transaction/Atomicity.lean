import MoaCrypto.Transaction.Worth

/-!
# Atomicity of one call

A call should either commit in full or change nothing.  Validation sums decimals,
but the commit phase reads the remainder as an `int` after it has already written
rows, and needs the public keys of the outputs only then.  `narrow_iff` translates
what that conversion takes into the request's own values, and `atomic_iff` says
exactly which requests are handled atomically.
-/

namespace MoaCrypto.Transaction

open Java QueryProg

/-- Everything is written: the transaction, the mark of every input, a row for every output
and, where the inputs exceed the outputs, the change row. -/
def FullCommit (env : Env) (t : Tables) (req : Request) (t' : Tables) : Prop :=
  ∃ (publicKey : List UInt8) (remain : BigDecimal),
    decodeHex req.message.publicKey = some publicKey ∧
    remain.toRat =
      referencedWorth t.utxos req.message.inputs - outputsWorth req.message.outputs ∧
    (∀ output ∈ req.message.outputs, output.Complete) ∧
    t' = committed env t req
      (if outputsWorth req.message.outputs < referencedWorth t.utxos req.message.inputs then
        [newUtxo env (hashHex env (env.toJSONString req.message)) 0 remain.toString
          (encodeHexString publicKey)]
      else [])

/-- A full commit that is answered "Valid TX", or nothing. -/
def Atomic (env : Env) (t : Tables) (req : Request) : Prop :=
  ((call env req t).1 = .ok "Valid TX" ∧ FullCommit env t req (call env req t).2) ∨
    (call env req t).2 = t

/-- The request fits what the commit phase takes: every output has a public key, no value has
digits after the point, and the inputs exceed the outputs by at most an `int`. -/
def Narrow (us : List Utxo) (req : Request) : Prop :=
  (∀ output ∈ req.message.outputs, output.publicKey.isSome = true) ∧
  (∀ input ∈ req.message.inputs, ∀ d, inputDecimal us input = some d → d.scale ≤ 0) ∧
  (∀ output ∈ req.message.outputs, ∀ d, outputDecimal output = some d → d.scale ≤ 0) ∧
  referencedWorth us req.message.inputs - outputsWorth req.message.outputs ≤ 2147483647

/-- The decimals of a list that are all there are its members' decimals. -/
theorem forall_mem_of_map_eq {α : Type} {f : α → Option BigDecimal} {l : List α}
    {ds : List BigDecimal} (h : l.map f = ds.map some) (p : BigDecimal → Prop) :
    (∀ d ∈ ds, p d) ↔ ∀ a ∈ l, ∀ d, f a = some d → p d := by
  constructor
  · intro hds a ha d hd
    have hm : some d ∈ ds.map some := by
      rw [← h, ← hd]
      exact List.mem_map_of_mem ha
    obtain ⟨d', hd', he⟩ := List.mem_map.mp hm
    cases he
    exact hds _ hd'
  · intro hl d hd
    have hm : some d ∈ l.map f := by
      rw [h]
      exact List.mem_map_of_mem hd
    obtain ⟨a, ha, he⟩ := List.mem_map.mp hm
    exact hl a ha d he

theorem InputSum.scale_iff {us : List Utxo} {inputs : List Input} {sum : BigDecimal}
    (h : InputSum us inputs .zero sum) :
    0 ≤ sum.scale ∧
      (sum.scale ≤ 0 ↔ ∀ input ∈ inputs, ∀ d, inputDecimal us input = some d → d.scale ≤ 0) := by
  obtain ⟨ds, hds, hsum⟩ := h
  obtain ⟨hle, hiff⟩ := BigDecimal.scale_sumFrom hsum
  refine ⟨hle, ?_⟩
  rw [hiff, ← forall_mem_of_map_eq hds fun d => d.scale ≤ 0]
  exact ⟨fun hd => hd.2, fun hd => ⟨le_refl _, hd⟩⟩

theorem OutputSum.scale_iff {outputs : List Output} {value : BigDecimal}
    (h : OutputSum outputs .zero value) :
    0 ≤ value.scale ∧
      (value.scale ≤ 0 ↔ ∀ output ∈ outputs, ∀ d, outputDecimal output = some d → d.scale ≤ 0) := by
  obtain ⟨ds, hds, hsum⟩ := h
  obtain ⟨hle, hiff⟩ := BigDecimal.scale_sumFrom hsum
  refine ⟨hle, ?_⟩
  rw [hiff, ← forall_mem_of_map_eq hds fun d => d.scale ≤ 0]
  exact ⟨fun hd => hd.2, fun hd => ⟨le_refl _, hd⟩⟩

/-- Outputs whose values were summed lack at most their public keys. -/
theorem OutputSum.complete_iff {outputs : List Output} {acc value : BigDecimal}
    (h : OutputSum outputs acc value) :
    (∀ output ∈ outputs, output.Complete) ↔
      ∀ output ∈ outputs, output.publicKey.isSome = true := by
  constructor
  · intro hc output ho
    exact (hc output ho).2
  · intro hk output ho
    refine ⟨?_, hk output ho⟩
    obtain ⟨ds, hds, -⟩ := h
    have hm : outputDecimal output ∈ ds.map some := by
      rw [← hds]
      exact List.mem_map_of_mem ho
    obtain ⟨d, -, hd⟩ := List.mem_map.mp hm
    obtain ⟨s, hs, -⟩ := Option.bind_eq_some_iff.mp hd.symm
    rw [hs]
    rfl

/-- For a request that passes, the commit phase runs to its end exactly if it is narrow. -/
theorem narrow_iff {env : Env} {us : List Utxo} {req : Request} {publicKey : List UInt8}
    {sum value remain : BigDecimal} (hp : Passes env us req publicKey sum value remain) :
    ((∀ output ∈ req.message.outputs, output.Complete) ∧
      (remain.scale = 0 ∧ IsInt remain.unscaled)) ↔ Narrow us req := by
  obtain ⟨hsum0, hsum⟩ := hp.inputs.scale_iff
  obtain ⟨hval0, hval⟩ := hp.outputs.scale_iff
  have hscale : remain.scale = max sum.scale value.scale := BigDecimal.subtract_scale hp.remains
  have hnn := hp.remain_nonneg
  unfold Narrow
  rw [hp.outputs.complete_iff, ← hsum, ← hval, ← hp.remain_toRat]
  constructor
  · rintro ⟨hkeys, hs, hint⟩
    rw [BigDecimal.toRat_of_scale_zero hs]
    exact ⟨hkeys, by omega, by omega, by exact_mod_cast hint.2⟩
  · rintro ⟨hkeys, hs, hv, hmax⟩
    have hs0 : remain.scale = 0 := by omega
    rw [BigDecimal.toRat_of_scale_zero hs0] at hnn hmax
    have hlow : 0 ≤ remain.unscaled := by exact_mod_cast hnn
    have hhigh : remain.unscaled ≤ 2147483647 := by exact_mod_cast hmax
    exact ⟨hkeys, hs0, by omega, hhigh⟩

/-- A commit that runs to its end is a full one. -/
theorem fullCommit_of_passes {env : Env} {t : Tables} {req : Request} {publicKey : List UInt8}
    {sum value remain : BigDecimal} (hp : Passes env t.utxos req publicKey sum value remain)
    (hcomplete : ∀ output ∈ req.message.outputs, output.Complete) (hscale : remain.scale = 0) :
    FullCommit env t req (committed env t req (changeUtxos env req publicKey remain)) := by
  refine ⟨publicKey, remain, hp.key, hp.remain_toRat, hcomplete, ?_⟩
  have hpos : 0 < remain.unscaled ↔
      outputsWorth req.message.outputs < referencedWorth t.utxos req.message.inputs := by
    have hsub := hp.remain_toRat
    rw [BigDecimal.toRat_of_scale_zero hscale] at hsub
    rw [← Int.cast_pos (R := ℚ), hsub, sub_pos]
  rw [changeUtxos, if_congr hpos rfl rfl]

theorem committed_ne (env : Env) (t : Tables) (req : Request) (change : List Utxo) :
    committed env t req change ≠ t := by
  intro h
  have hlen := congrArg (fun t => t.transactions.length) h
  simp [committed] at hlen

/-- **Atomicity.**  A call is atomic if and only if its request, should it pass the checks, is
narrow. -/
theorem atomic_iff (env : Env) (t : Tables) (req : Request) :
    Atomic env t req ↔ (Accepts env t.utxos req → Narrow t.utxos req) := by
  rcases call_cases env t req with ⟨hsame, -, hn⟩ | ⟨publicKey, sum, value, remain, hp, hc⟩
  · exact ⟨fun _ ha => absurd ha hn, fun _ => Or.inr hsame⟩
  · have haccepts : Accepts env t.utxos req := ⟨publicKey, sum, value, remain, hp⟩
    unfold Atomic
    generalize call env req t = r at hc
    cases hc with
    | done complete int =>
      constructor
      · intro _ _
        exact (narrow_iff hp).mp ⟨complete, int⟩
      · intro _
        exact Or.inl ⟨rfl, fullCommit_of_passes hp complete int.1⟩
    | noChange complete noInt =>
      constructor
      · rintro (⟨h, -⟩ | h)
        · cases h
        · exact absurd h (committed_ne env t req [])
      · intro h
        exact absurd ((narrow_iff hp).mpr (h haccepts)).2 noInt
    | incomplete incomplete =>
      constructor
      · rintro (⟨h, -⟩ | h)
        · cases h
        · exact absurd h (committed_ne env t req [])
      · intro h
        exact absurd ((narrow_iff hp).mpr (h haccepts)).1 incomplete

/-- A remainder of "2.0" is no `int`: the call throws with the input spent and no change. -/
theorem not_atomic : ¬ ∀ (env : Env) (t : Tables) (req : Request), Atomic env t req := by
  intro h
  rcases h openEnv ⟨[], [coin "c1" "5.0"]⟩ (spendRequest ["c1"] [("3", "bb")] "m") with
    ⟨hvalid, -⟩ | hsame
  · exact absurd hvalid (by decide)
  · exact absurd hsame (by decide)

end MoaCrypto.Transaction
