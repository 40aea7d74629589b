import MoaCrypto.Transaction.Checks

/-!
# What one call of `receiveFromClient` does

A call alone either leaves the tables as they were, or its request passes all
checks and it commits: `call_cases` is the one place where the program is taken
apart, and says both.  The commit phase is given in closed form: the transaction
is recorded, every row named by an input gets the new tail, rows for the outputs
are added up to the first output without a public key, and then, if the remainder
reads as an `int`, the change row if it is positive.

    call_cases      unchanged tables, or one of the three ends of a commit
    call_valid      "Valid TX" exactly for a request that passes and completes
-/

namespace MoaCrypto.Transaction

open Java QueryProg

/-- One call, alone. -/
def call (env : Env) (req : Request) (t : Tables) : Except TxException String × Tables :=
  (receiveFromClient env req).run perform t

/-! ## The commit phase in closed form -/

/-- The hashes that the inputs name. -/
def inputHashes (inputs : List Input) : List String := inputs.filterMap Input.hashUTXO

/-- What all updates of a transaction together do to a row. -/
def Utxo.spendAny (TX : String) (hashes : List String) (u : Utxo) : Utxo :=
  if u.hashUTXO ∈ hashes then { u with tailHashTX := TX } else u

@[simp] theorem Utxo.spendAny_hashUTXO (TX : String) (hashes : List String) (u : Utxo) :
    (u.spendAny TX hashes).hashUTXO = u.hashUTXO := by
  unfold Utxo.spendAny; split <;> rfl

@[simp] theorem Utxo.spendAny_value (TX : String) (hashes : List String) (u : Utxo) :
    (u.spendAny TX hashes).value = u.value := by
  unfold Utxo.spendAny; split <;> rfl

theorem Utxo.spendAny_cons (TX hash : String) (hashes : List String) (u : Utxo) :
    (u.spend TX hash).spendAny TX hashes = u.spendAny TX (hash :: hashes) := by
  unfold Utxo.spend Utxo.spendAny
  by_cases h : u.hashUTXO = hash
  · rw [if_pos h]
    simp [h]
  · rw [if_neg h]
    simp [h]

section

variable (env : Env)

/-- The row of output `i`, of value `value` for `publicKey`. -/
def newUtxo (TX : String) (i : Nat) (value publicKey : String) : Utxo :=
  ⟨hashHex env (utxoName i value publicKey TX), value, publicKey, TX,
    String.ofList (Nat.toDigits 10 i), unspentTail⟩

/-- The rows of the outputs, numbered from `i`, up to the first incomplete one. -/
def newUtxos (TX : String) : Nat → List Output → List Utxo
  | _, [] => []
  | i, ⟨some value, some publicKey⟩ :: outputs =>
    newUtxo env TX i value publicKey :: newUtxos TX (i + 1) outputs
  | _, ⟨_, _⟩ :: _ => []

/-- Both members of the output are there. -/
def Output.Complete (output : Output) : Prop :=
  output.value.isSome = true ∧ output.publicKey.isSome = true

instance (output : Output) : Decidable output.Complete := inferInstanceAs (Decidable (_ ∧ _))

/-- The tables after a commit that ended by adding the rows `change`. -/
def committed (t : Tables) (req : Request) (change : List Utxo) : Tables :=
  let msg := env.toJSONString req.message
  let TX := hashHex env msg
  { transactions := t.transactions ++ [(TX, msg)]
    utxos := t.utxos.map (Utxo.spendAny TX (inputHashes req.message.inputs)) ++
      newUtxos env TX 1 req.message.outputs ++ change }

/-- The change row, if the remainder is positive. -/
def changeUtxos (req : Request) (publicKey : List UInt8) (remain : BigDecimal) : List Utxo :=
  if 0 < remain.unscaled then
    [newUtxo env (hashHex env (env.toJSONString req.message)) 0 remain.toString
      (encodeHexString publicKey)]
  else []

/-! ## Its loops -/

theorem run_updateInputs {TX : String} {inputs : List Input} {t : Tables}
    (h : ∀ input ∈ inputs, input.hashUTXO.isSome = true) :
    (updateInputs TX inputs).run perform t =
      (.ok (), { t with utxos := t.utxos.map (Utxo.spendAny TX (inputHashes inputs)) }) := by
  induction inputs generalizing t with
  | nil =>
    have hid : Utxo.spendAny TX (inputHashes []) = id := by
      funext u
      simp [Utxo.spendAny, inputHashes]
    rw [hid, List.map_id]
    rfl
  | cons input inputs ih =>
    obtain ⟨hash, hhash⟩ := Option.isSome_iff_exists.mp (h input List.mem_cons_self)
    simp only [updateInputs, hhash, Prog.orFail_some, Prog.ret_bind, Prog.query_bind, Prog.run_ask]
    rw [ih fun i hi => h i (List.mem_cons_of_mem _ hi)]
    simp only [perform, List.map_map, inputHashes, List.filterMap_cons, hhash]
    congr 3
    funext u
    exact Utxo.spendAny_cons TX hash _ u

theorem run_insertOutputs (TX : String) (i : Nat) (outputs : List Output) (t : Tables) :
    (insertOutputs env TX i outputs).run perform t =
      (if ∀ output ∈ outputs, output.Complete then .ok () else .error .nullPointer,
        { t with utxos := t.utxos ++ newUtxos env TX i outputs }) := by
  induction outputs generalizing i t with
  | nil => simp [insertOutputs, newUtxos]
  | cons output outputs ih =>
    obtain ⟨_ | value, _ | publicKey⟩ := output
    · simp [insertOutputs, newUtxos, Output.Complete]
    · simp [insertOutputs, newUtxos, Output.Complete]
    · simp [insertOutputs, newUtxos, Output.Complete]
    · have hcons : (∀ output ∈ (⟨some value, some publicKey⟩ : Output) :: outputs,
          output.Complete) ↔ ∀ output ∈ outputs, output.Complete := by
        simp [Output.Complete]
      rw [if_congr hcons rfl rfl]
      simp only [insertOutputs, Prog.orFail_some, Prog.ret_bind, Prog.query_bind, Prog.run_ask]
      rw [ih]
      simp only [perform, newUtxos, newUtxo, List.append_assoc, List.singleton_append]

theorem run_insertRemain (TX srcPublic : String) (remain : BigDecimal) (t : Tables) :
    (insertRemain env TX srcPublic remain.toString).run perform t =
      if remain.scale = 0 ∧ IsInt remain.unscaled then
        (.ok (), { t with utxos := t.utxos ++
          if 0 < remain.unscaled then [newUtxo env TX 0 remain.toString srcPublic] else [] })
      else (.error .numberFormat, t) := by
  unfold insertRemain
  rw [BigDecimal.valueOf_toString]
  by_cases hint : remain.scale = 0 ∧ IsInt remain.unscaled
  · rw [if_pos hint, if_pos hint, Prog.orFail_some, Prog.ret_bind]
    by_cases hpos : 0 < remain.unscaled
    · rw [if_pos hpos, if_pos hpos]
      rfl
    · rw [if_neg hpos, if_neg hpos, List.append_nil]
      rfl
  · rw [if_neg hint, if_neg hint]
    rfl

/-! ## The whole call -/

/-- How a commit ends: with all rows written, without the change row because the remainder
is no `int`, or at an output without a public key. -/
inductive Commit (t : Tables) (req : Request) (publicKey : List UInt8) (remain : BigDecimal) :
    Except TxException String × Tables → Prop
  | done (complete : ∀ output ∈ req.message.outputs, output.Complete)
      (int : remain.scale = 0 ∧ IsInt remain.unscaled) :
      Commit t req publicKey remain
        (.ok "Valid TX", committed env t req (changeUtxos env req publicKey remain))
  | noChange (complete : ∀ output ∈ req.message.outputs, output.Complete)
      (noInt : ¬ (remain.scale = 0 ∧ IsInt remain.unscaled)) :
      Commit t req publicKey remain (.error .numberFormat, committed env t req [])
  | incomplete (incomplete : ¬ ∀ output ∈ req.message.outputs, output.Complete) :
      Commit t req publicKey remain (.error .nullPointer, committed env t req [])

/-- The inserts of a commit, from tables in which the inputs are marked. -/
theorem run_inserts (TX srcPublic : String) (outputs : List Output) (remain : BigDecimal)
    (t : Tables) :
    (do insertOutputs env TX 1 outputs
        insertRemain env TX srcPublic remain.toString
        Prog.ret "Valid TX" : TableProg String).run perform t =
      if ∀ output ∈ outputs, output.Complete then
        if remain.scale = 0 ∧ IsInt remain.unscaled then
          (.ok "Valid TX", { t with utxos := t.utxos ++ newUtxos env TX 1 outputs ++
            if 0 < remain.unscaled then [newUtxo env TX 0 remain.toString srcPublic] else [] })
        else (.error .numberFormat, { t with utxos := t.utxos ++ newUtxos env TX 1 outputs })
      else (.error .nullPointer, { t with utxos := t.utxos ++ newUtxos env TX 1 outputs }) := by
  have hout := run_insertOutputs env TX 1 outputs t
  by_cases hcomplete : ∀ output ∈ outputs, output.Complete
  · rw [if_pos hcomplete] at hout ⊢
    rw [Prog.run_bind_ok _ hout]
    have hrem := run_insertRemain env TX srcPublic remain
      { t with utxos := t.utxos ++ newUtxos env TX 1 outputs }
    by_cases hint : remain.scale = 0 ∧ IsInt remain.unscaled
    · rw [if_pos hint] at hrem ⊢
      rw [Prog.run_bind_ok _ hrem]
      rfl
    · rw [if_neg hint] at hrem ⊢
      rw [Prog.run_bind_error _ hrem]
  · rw [if_neg hcomplete] at hout ⊢
    rw [Prog.run_bind_error _ hout]

/-- A request that passes commits. -/
theorem commit_of_passes {t : Tables} {req : Request} {publicKey : List UInt8}
    {sum value remain : BigDecimal} (hp : Passes env t.utxos req publicKey sum value remain) :
    Commit env t req publicKey remain (call env req t) := by
  have hhashes : ∀ input ∈ req.message.inputs, input.hashUTXO.isSome = true := by
    intro input hi
    obtain ⟨hash, hhash, -⟩ := hp.owned input hi
    rw [hhash]
    rfl
  have hvalid := (txValidationCheck_valid (t := t) hp.key).mpr ⟨sum, value, remain, hp, rfl⟩
  have hnoRows : committed env t req [] = { (committed env t req []) with
      utxos := t.utxos.map (Utxo.spendAny (hashHex env (env.toJSONString req.message))
        (inputHashes req.message.inputs)) ++
        newUtxos env (hashHex env (env.toJSONString req.message)) 1 req.message.outputs } := by
    simp [committed]
  unfold call receiveFromClient
  rw [hp.key, Prog.orFail_some, Prog.ret_bind, Prog.run_bind_ok _ hvalid]
  simp only [if_true, Prog.query_bind, Prog.run_ask, perform]
  rw [Prog.run_bind_ok _ (run_updateInputs hhashes), run_inserts]
  by_cases hcomplete : ∀ output ∈ req.message.outputs, output.Complete
  · rw [if_pos hcomplete]
    by_cases hint : remain.scale = 0 ∧ IsInt remain.unscaled
    · rw [if_pos hint]
      exact Commit.done hcomplete hint
    · rw [if_neg hint]
      have hc : Commit env t req publicKey remain
          (.error .numberFormat, committed env t req []) := .noChange hcomplete hint
      rw [hnoRows] at hc
      exact hc
  · rw [if_neg hcomplete]
    have hc : Commit env t req publicKey remain
        (.error .nullPointer, committed env t req []) := .incomplete hcomplete
    rw [hnoRows] at hc
    exact hc

end

/-- A request that does not pass changes nothing and is not accepted. -/
theorem call_of_not_accepts {env : Env} {t : Tables} {req : Request}
    (hn : ¬ Accepts env t.utxos req) :
    (call env req t).2 = t ∧ (call env req t).1 ≠ .ok "Valid TX" := by
  unfold call receiveFromClient
  cases hkey : decodeHex req.message.publicKey with
  | none => exact ⟨rfl, fun h => by cases h⟩
  | some publicKey =>
    rw [Prog.orFail_some, Prog.ret_bind]
    have hread := Prog.run_readOnly perform perform_read
      (uses_txValidationCheck env req.signature (env.toJSONString req.message) publicKey
        req.message.inputs req.message.outputs) t
    rcases hv : (txValidationCheck env req.signature (env.toJSONString req.message) publicKey
        req.message.inputs req.message.outputs).run perform t with ⟨e | ⟨isValid, remainVal⟩, t'⟩
    · rw [Prog.run_bind_error _ hv]
      rw [hv] at hread
      exact ⟨hread, fun h => by cases h⟩
    · rw [Prog.run_bind_ok _ hv]
      rw [hv] at hread
      simp only at hread
      subst hread
      cases isValid with
      | true =>
        obtain ⟨sum, value, remain, hp, -⟩ := (txValidationCheck_valid hkey).mp hv
        exact absurd ⟨publicKey, sum, value, remain, hp⟩ hn
      | false =>
        simp only [Bool.false_eq_true, if_false, Prog.run_ret]
        exact ⟨trivial, fun h => absurd (Except.ok.inj h) (by decide)⟩

/-- **Call inversion.**  Nothing happens, or the request passes and commits. -/
theorem call_cases (env : Env) (t : Tables) (req : Request) :
    ((call env req t).2 = t ∧ (call env req t).1 ≠ .ok "Valid TX" ∧ ¬ Accepts env t.utxos req) ∨
    ∃ publicKey sum value remain, Passes env t.utxos req publicKey sum value remain ∧
      Commit env t req publicKey remain (call env req t) := by
  by_cases h : Accepts env t.utxos req
  · obtain ⟨publicKey, sum, value, remain, hp⟩ := h
    exact Or.inr ⟨publicKey, sum, value, remain, hp, commit_of_passes env hp⟩
  · obtain ⟨h₁, h₂⟩ := call_of_not_accepts h
    exact Or.inl ⟨h₁, h₂, h⟩

/-- **Acceptance.**  "Valid TX" is answered exactly to a request that passes, names a public
key in every output and leaves an `int` over; the tables are then those of `committed`. -/
theorem call_valid {env : Env} {t : Tables} {req : Request}
    (h : (call env req t).1 = .ok "Valid TX") :
    ∃ publicKey sum value remain, Passes env t.utxos req publicKey sum value remain ∧
      (∀ output ∈ req.message.outputs, output.Complete) ∧
      (remain.scale = 0 ∧ IsInt remain.unscaled) ∧
      (call env req t).2 = committed env t req (changeUtxos env req publicKey remain) := by
  rcases call_cases env t req with ⟨-, hne, -⟩ | ⟨publicKey, sum, value, remain, hp, hc⟩
  · exact absurd h hne
  · generalize call env req t = r at h hc
    cases hc with
    | done complete int => exact ⟨publicKey, sum, value, remain, hp, complete, int, rfl⟩
    | noChange => cases h
    | incomplete => cases h

/-- **Tables after a call.**  They are unchanged, or those of a commit that got as far as the
change row or not so far. -/
theorem call_tables (env : Env) (t : Tables) (req : Request) :
    (call env req t).2 = t ∨
    ∃ publicKey sum value remain change, Passes env t.utxos req publicKey sum value remain ∧
      (call env req t).2 = committed env t req change ∧
      (change = [] ∨ change = changeUtxos env req publicKey remain ∧ remain.scale = 0 ∧
        ∀ output ∈ req.message.outputs, output.Complete) := by
  rcases call_cases env t req with ⟨hsame, -, -⟩ | ⟨publicKey, sum, value, remain, hp, hc⟩
  · exact Or.inl hsame
  · right
    generalize call env req t = r at hc
    cases hc with
    | done complete int =>
      exact ⟨publicKey, sum, value, remain, _, hp, rfl, Or.inr ⟨rfl, int.1, complete⟩⟩
    | noChange => exact ⟨publicKey, sum, value, remain, [], hp, rfl, Or.inl rfl⟩
    | incomplete => exact ⟨publicKey, sum, value, remain, [], hp, rfl, Or.inl rfl⟩

/-! ## A small instance -/

/-- Every signature verifies, a digest is its text, and a message's text is `others`. -/
def openEnv : Env := ⟨id, fun _ _ _ => true, Message.others⟩

/-- An unspent row of the key `aa`. -/
def coin (hash value : String) : Utxo := ⟨hash, value, "aa", "genesis", "0", unspentTail⟩

/-- The owner of the key `aa` spends `hashes` for outputs of the given values and keys. -/
def spendRequest (hashes : List String) (outputs : List (String × String)) (text : String) :
    Request :=
  ⟨"", ⟨"aa", hashes.map fun hash => ⟨some hash⟩,
    outputs.map fun output => ⟨some output.1, some output.2⟩, text⟩⟩

example : (call openEnv (spendRequest ["c1"] [("3", "bb")] "m") ⟨[], [coin "c1" "5"]⟩).2.utxos.map
    (fun u => (u.value, u.publicKey, decide u.Unspent)) =
    [("5", "aa", false), ("3", "bb", true), ("2", "aa", true)] := by decide

end MoaCrypto.Transaction
