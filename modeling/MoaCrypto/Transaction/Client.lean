import MoaCrypto.Transaction.Ledger

/-!
# The client that pays (`client/transaction`)

The client adds up its outputs, asks the server for rows of its key that are worth the sum
(`AutoUTXOSelector`, no part of the repository), signs the message with these rows and sends it.
If the selector does what `utxoSelector` says of it, all the clients and the server together are the
ledger (`payments_refined`): the payments one after the other succeed where the key has what is to be
paid, and else change nothing.
-/

namespace MoaCrypto.Transaction

open Java QueryProg Weigh

/-! ## The message -/

structure UtxoSingleOutput where
  publicKey : String
  value : String

def UtxoSingleOutput.getJson (o : UtxoSingleOutput) : Output := ⟨some o.value, some o.publicKey⟩

structure JSONTransactionArrayOutput where
  outputArray : List Output
  totalVal : BigDecimal

def JSONTransactionArrayOutput.addToArray (a : JSONTransactionArrayOutput) (o : UtxoSingleOutput) :
    Option JSONTransactionArrayOutput := do
  let value ← BigDecimal.ofString o.value
  let totalVal ← a.totalVal.add value
  return ⟨a.outputArray ++ [o.getJson], totalVal⟩

/-- The constructor, with the outputs that it adds. -/
def JSONTransactionArrayOutput.new (outputs : List UtxoSingleOutput) : Option JSONTransactionArrayOutput :=
  outputs.foldlM addToArray ⟨[], .zero⟩

/-- `Pair`: the private key and the public key. -/
structure Pair where
  a : List UInt8
  b : List UInt8

/-- What the client takes from packages and from the server: `Ed25519.sign`, and the array that is
parsed from the answer of the selector. -/
structure ClientEnv where
  sign : Pair → List UInt8 → List UInt8
  utxoSelector : Tables → String → BigDecimal → List Input

/-- Somebody who sends, and what is to be paid. -/
structure Sending where
  keyPair : Pair
  outputs : List UtxoSingleOutput

section

variable (env : Env) (client : ClientEnv)

/-- `setMSG`: the message, with the signature of its text. -/
def setMSG (keyPair : Pair) (inputs : List Input) (outputs : List Output) : Request :=
  let message : Message := ⟨encodeHexString keyPair.b, inputs, outputs, ""⟩
  ⟨encodeHexString (client.sign keyPair (utf8 (env.toJSONString message))), message⟩

/-- What `sendToServer` sends; `none` where a value is no decimal. -/
def requestOf (t : Tables) (s : Sending) : Option Request := do
  let jao ← JSONTransactionArrayOutput.new s.outputs
  let value ← BigDecimal.ofString jao.totalVal.toString
  return setMSG env client s.keyPair (client.utxoSelector t (encodeHexString s.keyPair.b) value) jao.outputArray

/-- The answer to what is sent, and the tables after it. -/
def sendToServer (t : Tables) (s : Sending) : Except TxException String × Tables :=
  match requestOf env client t s with
  | none => (.error .numberFormat, t)
  | some req => call env req t

def sent (t : Tables) (s : Sending) : Tables := (sendToServer env client t s).2

end

/-! ## What it relies on -/

/-- Rows that `utxoSelector` may answer: different ones, of the key, not spent, worth enough. -/
structure Proposal (us : List Utxo) (publicKey : String) (value : BigDecimal) (inputs : List Input) :
    Prop where
  nodup : (inputHashes inputs).Nodup
  owned : ∀ input ∈ inputs, ∃ u ∈ us,
    input.hashUTXO = some u.hashUTXO ∧ u.Unspent ∧ u.publicKey = publicKey
  covers : value.toRat ≤ markedWorth us (inputHashes inputs)

/-- "server will return proper utxoes that publicKey has, if the publicKey has not enough balance,
return empty array." -/
def ClientEnv.Selects (client : ClientEnv) : Prop :=
  ∀ t publicKey value, WholeRows t.utxos → (t.utxos.map Utxo.hashUTXO).Nodup →
    (value.toRat ≤ ledger t.utxos publicKey →
      Proposal t.utxos publicKey value (client.utxoSelector t publicKey value)) ∧
    (ledger t.utxos publicKey < value.toRat → client.utxoSelector t publicKey value = [])

/-- A signature verifies. -/
def ClientEnv.Signs (client : ClientEnv) (env : Env) : Prop :=
  ∀ keyPair bytes, env.verify (client.sign keyPair bytes) bytes keyPair.b = true

/-! ## The ledger of the clients -/

def Sending.payment (s : Sending) : Payment where
  payer := encodeHexString s.keyPair.b
  payouts := s.outputs.map fun o => (o.publicKey, worth o.value)

instance (l : Ledger) (p : Payment) : Decidable (Covered l p) := inferInstanceAs (Decidable (_ ≤ _))

/-- A payment is made if the payer has what is paid. -/
def payCovered (l : Ledger) (s : Sending) : Ledger :=
  if Covered l s.payment then pay l s.payment else l

def covers (l : Ledger) (s : Sending) : Except TxException String :=
  .ok (if Covered l s.payment then "Valid TX" else "Invalid TX")

/-! ## What is sent -/

theorem new_eq {outputs : List UtxoSingleOutput} (h : ∀ o ∈ outputs, Whole o.value) :
    ∃ totalVal, JSONTransactionArrayOutput.new outputs =
        some ⟨outputs.map UtxoSingleOutput.getJson, totalVal⟩ ∧
      totalVal.scale = 0 ∧ totalVal.toRat = outputsWorth (outputs.map UtxoSingleOutput.getJson) := by
  suffices hfold : ∀ a : JSONTransactionArrayOutput, a.totalVal.scale = 0 →
      ∃ totalVal, outputs.foldlM JSONTransactionArrayOutput.addToArray a =
          some ⟨a.outputArray ++ outputs.map UtxoSingleOutput.getJson, totalVal⟩ ∧ totalVal.scale = 0 ∧
        totalVal.toRat = a.totalVal.toRat + outputsWorth (outputs.map UtxoSingleOutput.getJson) by
    obtain ⟨totalVal, hnew, hscale, hrat⟩ := hfold ⟨[], .zero⟩ rfl
    exact ⟨totalVal, hnew, hscale, by rw [hrat, BigDecimal.toRat_zero, zero_add]⟩
  induction outputs with
  | nil =>
    intro a ha
    refine ⟨a.totalVal, ?_, ha, (add_zero _).symm⟩
    rw [List.foldlM_nil, List.map_nil, List.append_nil]
    rfl
  | cons o outputs ih =>
    intro a ha
    obtain ⟨d, hd, hscale, -⟩ := h o List.mem_cons_self
    obtain ⟨sum, hsum⟩ := BigDecimal.add_of_scale_zero ha hscale
    have hsumScale : sum.scale = 0 := by rw [BigDecimal.add_scale hsum, ha, hscale, max_self]
    obtain ⟨totalVal, hfold, htotal, hrat⟩ :=
      ih (fun o' ho' => h o' (List.mem_cons_of_mem _ ho')) ⟨a.outputArray ++ [o.getJson], sum⟩ hsumScale
    have hadd : a.addToArray o = some ⟨a.outputArray ++ [o.getJson], sum⟩ := by
      simp only [JSONTransactionArrayOutput.addToArray, hd, hsum, Option.bind_eq_bind, Option.bind_some]
      rfl
    refine ⟨totalVal, ?_, htotal, ?_⟩
    · rw [List.foldlM_cons, hadd, Option.bind_eq_bind, Option.bind_some, hfold, List.map_cons,
        List.append_assoc, List.singleton_append]
    · rw [hrat, BigDecimal.toRat_add hsum, add_assoc, List.map_cons, ← worth_of_ofString hd]
      rfl

section

variable (env : Env) (client : ClientEnv) {t : Tables} {s : Sending}
  (hwhole : ∀ o ∈ s.outputs, Whole o.value)

theorem payment_setMSG (keyPair : Pair) (inputs : List Input) (outputs : List UtxoSingleOutput) :
    (setMSG env client keyPair inputs (outputs.map UtxoSingleOutput.getJson)).message.payment =
      Sending.payment ⟨keyPair, outputs⟩ := by
  unfold setMSG Message.payment Message.payer Sending.payment
  simp only [decodeHex_encodeHexString, Option.map_some, Option.getD_some, List.map_map]
  rfl

include hwhole

theorem requestOf_eq (t : Tables) : ∃ value : BigDecimal, value.toRat = s.payment.amount ∧
    requestOf env client t s = some (setMSG env client s.keyPair
      (client.utxoSelector t (encodeHexString s.keyPair.b) value)
        (s.outputs.map UtxoSingleOutput.getJson)) := by
  obtain ⟨totalVal, hnew, hscale, hrat⟩ := new_eq hwhole
  refine ⟨totalVal, ?_, ?_⟩
  · rw [hrat, ← payment_setMSG env client s.keyPair [], Message.amount_payment]
    rfl
  · simp only [requestOf, hnew, BigDecimal.ofString_toString hscale, Option.bind_eq_bind, Option.bind_some]
    rfl

theorem proper_setMSG {inputs : List Input} (h : (inputHashes inputs).Nodup) :
    Proper (setMSG env client s.keyPair inputs (s.outputs.map UtxoSingleOutput.getJson)) := by
  refine ⟨h, fun output ho => ?_, fun output ho => ?_⟩
  · obtain ⟨o, hmem, rfl⟩ := List.mem_map.1 ho
    exact ⟨o.value, rfl, hwhole o hmem⟩
  · obtain ⟨o, -, rfl⟩ := List.mem_map.1 ho
    rfl

/-- A message that names no row and pays something is turned down. -/
theorem call_nothing (h : 0 < s.payment.amount) :
    call env (setMSG env client s.keyPair [] (s.outputs.map UtxoSingleOutput.getJson)) t =
      (.ok "Invalid TX", t) := by
  have houtputs (output : Output) (ho : output ∈ s.outputs.map UtxoSingleOutput.getJson) :
      ∃ d, outputDecimal output = some d ∧ d.scale = 0 := by
    obtain ⟨o, hmem, rfl⟩ := List.mem_map.1 ho
    obtain ⟨d, hd, hscale, -⟩ := hwhole o hmem
    exact ⟨d, hd, hscale⟩
  obtain ⟨es, hes, hesScale⟩ := exists_map_some houtputs
  obtain ⟨value, hvalue, hscale⟩ := sumFrom_whole (rfl : BigDecimal.zero.scale = 0) hesScale
  obtain ⟨remain, hremain⟩ :=
    BigDecimal.add_of_scale_zero (rfl : BigDecimal.zero.scale = 0) (b := value.negate) hscale
  have hrat := OutputSum.toRat ⟨es, hes, hvalue⟩
  have hless : BigDecimal.zero.compareTo value = .lt := by
    rw [BigDecimal.compareTo_lt, hrat, BigDecimal.toRat_zero, zero_add]
    rwa [← payment_setMSG env client s.keyPair [], Message.amount_payment] at h
  have hchecked (signature msg : String) :
      (txValidationCheck env signature msg s.keyPair.b [] (s.outputs.map UtxoSingleOutput.getJson)).run
        perform t = (.ok ⟨false, remain.toString⟩, t) := by
    unfold txValidationCheck
    rw [Prog.run_bind_ok _ (utxoCheck_eq_true.2 fun input hi => absurd hi List.not_mem_nil),
      Prog.run_bind_ok _ (valueCheck_eq_ok.2
        ⟨.zero, value, remain, ⟨[], rfl, rfl⟩, ⟨es, hes, hvalue⟩, hremain, rfl⟩)]
    simp [hless]
  unfold call receiveFromClient setMSG
  simp only [decodeHex_encodeHexString]
  rw [Prog.orFail_some, Prog.ret_bind, Prog.run_bind_ok _ (hchecked _ _)]
  rfl

variable {env client} (hsigns : client.Signs env) (hselects : client.Selects) (hrows : WholeRows t.utxos)
  (hnames : (t.utxos.map Utxo.hashUTXO).Nodup)

include hsigns hselects hrows hnames

/-- **Step.**  What is sent is answered, and moves what the ledger moves. -/
theorem sendToServer_covers :
    (sendToServer env client t s).1 = covers (ledger t.utxos) s ∧
      ledger (sent env client t s).utxos = payCovered (ledger t.utxos) s ∧
      WholeRows (sent env client t s).utxos := by
  obtain ⟨value, hvalue, hreq⟩ := requestOf_eq env client hwhole t
  obtain ⟨hproposed, hnone⟩ := hselects t (encodeHexString s.keyPair.b) value hrows hnames
  have hsend : sendToServer env client t s = call env (setMSG env client s.keyPair
      (client.utxoSelector t (encodeHexString s.keyPair.b) value)
        (s.outputs.map UtxoSingleOutput.getJson)) t := by rw [sendToServer, hreq]
  rw [hvalue] at hproposed hnone
  unfold sent covers payCovered
  rw [hsend]
  by_cases hcovered : Covered (ledger t.utxos) s.payment
  · have hproposal := hproposed hcovered
    have hproper := proper_setMSG env client hwhole hproposal.nodup
    have hpays : Pays env t.utxos (setMSG env client s.keyPair
        (client.utxoSelector t (encodeHexString s.keyPair.b) value)
          (s.outputs.map UtxoSingleOutput.getJson)) := by
      refine ⟨s.keyPair.b, decodeHex_encodeHexString _, ?_, hproposal.owned, ?_⟩
      · unfold signCheck setMSG
        simp only [decodeHex_encodeHexString]
        exact hsigns _ _
      · rw [← Message.amount_payment, payment_setMSG, ← hvalue]
        exact hproposal.covers
    rcases serve_cases hnames hrows fun _ => hproper with ⟨hn, -⟩ | ⟨-, hvalid, -, hledger, hkept⟩
    · exact absurd ((accepts_iff_pays hnames hrows hproper).2 hpays) hn
    · rw [payment_setMSG] at hledger
      rw [if_pos hcovered, if_pos hcovered]
      exact ⟨hvalid, hledger, hkept⟩
  · have hless : ledger t.utxos s.payment.payer < s.payment.amount := lt_of_not_ge hcovered
    have hhas : 0 ≤ ledger t.utxos s.payment.payer :=
      weigh_nonneg _ _ fun u hu => le_of_lt (hrows.positive u hu)
    rw [hnone hless, call_nothing env client hwhole (lt_of_le_of_lt hhas hless), if_neg hcovered, if_neg hcovered]
    exact ⟨rfl, rfl, hrows⟩

end

/-! ## Payments one after the other -/

theorem names_sent (env : Env) (client : ClientEnv) (t : Tables) (s : Sending) :
    ∃ new, (sent env client t s).utxos.map Utxo.hashUTXO = t.utxos.map Utxo.hashUTXO ++ new := by
  unfold sent sendToServer
  cases requestOf env client t s with
  | none => exact ⟨[], (List.append_nil _).symm⟩
  | some req => exact names_serve env t req

/-- The names are different all the way if they are in the end. -/
theorem along_names {env : Env} {client : ClientEnv} {t : Tables} {ss : List Sending}
    (h : ((StepRun.run (sent env client) t ss).utxos.map Utxo.hashUTXO).Nodup) :
    (t.utxos.map Utxo.hashUTXO).Nodup ∧
      StepRun.Along (sent env client) (fun t _ => (t.utxos.map Utxo.hashUTXO).Nodup) t ss := by
  induction ss generalizing t with
  | nil => exact ⟨h, trivial⟩
  | cons s ss ih =>
    obtain ⟨new, hnew⟩ := names_sent env client t s
    obtain ⟨hnext, hrest⟩ := ih h
    rw [hnew] at hnext
    exact ⟨hnext.of_append_left, hnext.of_append_left, hrest⟩

/-- A client of `openEnv`, and a selector that answers all rows of the key or none. -/
def openClient : ClientEnv where
  sign := fun _ _ => []
  utxoSelector := fun t publicKey value =>
    if value.toRat ≤ ledger t.utxos publicKey then
      (t.utxos.filter fun u => u.Unspent ∧ u.publicKey = publicKey).map fun u => ⟨some u.hashUTXO⟩
    else []

theorem openClient_selects : openClient.Selects := by
  intro t publicKey value hrows hnames
  refine ⟨fun hle => ?_, fun hlt => if_neg (not_le_of_gt hlt)⟩
  have hhashes : inputHashes (openClient.utxoSelector t publicKey value) =
      (t.utxos.filter fun u => u.Unspent ∧ u.publicKey = publicKey).map Utxo.hashUTXO := by
    unfold openClient inputHashes
    simp only [if_pos hle, List.filterMap_map]
    rw [← List.filterMap_eq_map]
    rfl
  refine ⟨?_, fun input hi => ?_, ?_⟩
  · rw [hhashes]
    exact hnames.sublist (List.filter_sublist.map _)
  · unfold openClient at hi
    simp only [if_pos hle] at hi
    obtain ⟨u, hu, rfl⟩ := List.mem_map.1 hi
    obtain ⟨hmem, hrow⟩ := List.mem_filter.1 hu
    simp only [decide_eq_true_eq] at hrow
    exact ⟨u, hmem, rfl, hrow⟩
  · rw [hhashes]
    refine hle.trans (weigh_mono _ _ _ (fun u hu => le_of_lt (hrows.positive u hu)) fun u hu hrow => ?_)
    exact ⟨hrow.1, List.mem_map_of_mem (List.mem_filter.2 ⟨hu, by simpa using hrow⟩)⟩

end MoaCrypto.Transaction
