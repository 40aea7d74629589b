import MoaCrypto.Transaction.Atomicity
import MoaCrypto.Transaction.Runs

/-!
# The ledger that the rows stand for

What a key has are its unspent rows.  The server never adds up what a key has, it checks single rows
and writes new ones; as long as the rows hold whole coins, no more of them than an `int`, it keeps
the accounts of a ledger all the same (`ledger_refined`): a request is accepted exactly if it is
signed and names rows of its key that cover what it pays, it then moves what it pays from the key
to the keys of the outputs, which the key had, and no other request moves anything.
-/

namespace MoaCrypto.Transaction

open Java QueryProg Weigh

/-! ## The ledger -/

/-- What each key has. -/
abbrev Ledger := String → ℚ

structure Payment where
  payer : String
  payouts : List (String × ℚ)

def Payment.amount (p : Payment) : ℚ := (p.payouts.map Prod.snd).sum

/-- What is paid to a key. -/
def Payment.due (p : Payment) (key : String) : ℚ := weigh Prod.snd (fun o => o.1 = key) p.payouts

def pay (l : Ledger) (p : Payment) : Ledger :=
  fun key => l key + p.due key - if key = p.payer then p.amount else 0

/-- The payer has what is paid. -/
def Covered (l : Ledger) (p : Payment) : Prop := p.amount ≤ l p.payer

/-! ## Rows and requests -/

def ledger (us : List Utxo) : Ledger := fun key => heldWorth (· = key) us

/-- The key of a message as the rows have it. -/
def Message.payer (m : Message) : String := ((decodeHex m.publicKey).map encodeHexString).getD ""

def Message.payment (m : Message) : Payment where
  payer := m.payer
  payouts := m.outputs.map fun output =>
    (output.publicKey.getD "", (output.value.map worth).getD 0)

/-- The text of a positive whole number. -/
def Whole (s : String) : Prop := ∃ d, BigDecimal.ofString s = some d ∧ d.scale = 0 ∧ 0 < d.unscaled

/-- Every row holds whole coins, and all unspent ones together no more than an `int`. -/
structure WholeRows (us : List Utxo) : Prop where
  whole : ∀ u ∈ us, Whole u.value
  fits : unspentWorth us ≤ 2147483647

/-- The request names no row twice and pays whole coins to keys. -/
structure Proper (req : Request) : Prop where
  nodup : (inputHashes req.message.inputs).Nodup
  whole : ∀ output ∈ req.message.outputs, ∃ value, output.value = some value ∧ Whole value
  keyed : ∀ output ∈ req.message.outputs, output.publicKey.isSome = true

/-- The request is signed, and names unspent rows of its key that cover what it pays. -/
def Pays (env : Env) (us : List Utxo) (req : Request) : Prop :=
  ∃ publicKey, decodeHex req.message.publicKey = some publicKey ∧
    signCheck env req.signature (env.toJSONString req.message) publicKey = true ∧
    (∀ input ∈ req.message.inputs, ∃ u ∈ us,
      input.hashUTXO = some u.hashUTXO ∧ u.Unspent ∧ u.publicKey = encodeHexString publicKey) ∧
    outputsWorth req.message.outputs ≤ markedWorth us (inputHashes req.message.inputs)

theorem Whole.worth_pos {s : String} (h : Whole s) : 0 < worth s := by
  obtain ⟨d, hd, hscale, hpos⟩ := h
  rw [worth_of_ofString hd, BigDecimal.toRat_of_scale_zero hscale]
  exact_mod_cast hpos

theorem WholeRows.positive {us : List Utxo} (h : WholeRows us) : Positive us :=
  fun u hu => (h.whole u hu).worth_pos

theorem Proper.fair {req : Request} (h : Proper req) : Fair req := by
  refine ⟨h.nodup, fun output ho => ?_⟩
  obtain ⟨value, hvalue, hwhole⟩ := h.whole output ho
  rw [hvalue]
  exact hwhole.worth_pos

theorem outputsWorth_nonneg {outputs : List Output}
    (h : ∀ output ∈ outputs, 0 < (output.value.map worth).getD 0) : 0 ≤ outputsWorth outputs := by
  refine List.sum_nonneg fun x hx => ?_
  obtain ⟨output, ho, rfl⟩ := List.mem_map.1 hx
  exact le_of_lt (h output ho)

theorem markedWorth_le {us : List Utxo} (h : Positive us) (hashes : List String) :
    markedWorth us hashes ≤ unspentWorth us :=
  weigh_mono _ _ _ (fun u hu => le_of_lt (h u hu)) fun _ _ hrow => hrow.1

/-- With distinct names, what inputs that do not repeat are given is what the rows are worth. -/
theorem referencedWorth_eq_marked {us : List Utxo} (hnames : (us.map Utxo.hashUTXO).Nodup)
    {inputs : List Input} (h : (inputHashes inputs).Nodup) :
    referencedWorth us inputs = markedWorth us (inputHashes inputs) := by
  rw [referencedWorth_eq hnames, repeatedWorth_of_nodup us h, add_zero]

/-! ## Acceptance -/

/-- Whole coins are added without a failure. -/
theorem sumFrom_whole {acc : BigDecimal} (hacc : acc.scale = 0) {ds : List BigDecimal}
    (h : ∀ d ∈ ds, d.scale = 0) : ∃ sum, BigDecimal.sumFrom acc ds = some sum ∧ sum.scale = 0 := by
  induction ds generalizing acc with
  | nil => exact ⟨acc, rfl, hacc⟩
  | cons d ds ih =>
    obtain ⟨acc', hadd⟩ := BigDecimal.add_of_scale_zero hacc (h d List.mem_cons_self)
    have hscale := BigDecimal.add_scale hadd
    rw [hacc, h d List.mem_cons_self] at hscale
    obtain ⟨sum, hsum, hzero⟩ := ih hscale fun e he => h e (List.mem_cons_of_mem _ he)
    exact ⟨sum, by rw [BigDecimal.sumFrom, hadd, Option.bind_some, hsum], hzero⟩

/-- Decimals that are there for all members of a list are a list. -/
theorem exists_map_some {α β : Type} {f : α → Option β} {p : β → Prop} {l : List α}
    (h : ∀ a ∈ l, ∃ b, f a = some b ∧ p b) : ∃ bs : List β, l.map f = bs.map some ∧ ∀ b ∈ bs, p b := by
  induction l with
  | nil => exact ⟨[], rfl, fun b hb => absurd hb List.not_mem_nil⟩
  | cons a l ih =>
    obtain ⟨b, hb, hpb⟩ := h a List.mem_cons_self
    obtain ⟨bs, hbs, hpbs⟩ := ih fun c hc => h c (List.mem_cons_of_mem _ hc)
    refine ⟨b :: bs, by rw [List.map_cons, List.map_cons, hb, hbs], fun c hc => ?_⟩
    rcases List.mem_cons.1 hc with rfl | hc
    · exact hpb
    · exact hpbs c hc

/-- The value that is selected for an unspent row is that of a row of the name. -/
theorem exists_valueOfHash {us : List Utxo} {u : Utxo} (hu : u ∈ us) (hunspent : u.Unspent) :
    ∃ v ∈ us, valueOfHash us u.hashUTXO = some v.value := by
  unfold valueOfHash
  cases hfind : us.find? fun v => v.Unspent ∧ v.hashUTXO = u.hashUTXO with
  | none =>
    have := List.find?_eq_none.1 hfind u hu
    simp [hunspent] at this
  | some v => exact ⟨v, List.mem_of_find?_eq_some hfind, rfl⟩

/-- A name that no other row has is counted once. -/
theorem countOfHash_le_one {us : List Utxo} (hnames : (us.map Utxo.hashUTXO).Nodup) (hash publicKey : String) :
    countOfHash us hash publicKey ≤ 1 := by
  have hle : countOfHash us hash publicKey ≤ (us.map Utxo.hashUTXO).count hash := by
    rw [countOfHash, List.count, List.countP_map]
    refine List.countP_mono_left fun u _ h => ?_
    simp only [decide_eq_true_eq] at h
    simp [h.2.1]
  exact hle.trans (List.nodup_iff_count_le_one.1 hnames hash)

section

variable {env : Env} {us : List Utxo} {req : Request} (hnames : (us.map Utxo.hashUTXO).Nodup)
  (hrows : WholeRows us) (hproper : Proper req)

include hnames hrows hproper

theorem accepts_iff_pays : Accepts env us req ↔ Pays env us req := by
  constructor
  · rintro ⟨publicKey, sum, value, remain, hp⟩
    refine ⟨publicKey, hp.key, hp.signed, fun input hi => ?_, ?_⟩
    · obtain ⟨hash, hhash, -⟩ := hp.owned input hi
      obtain ⟨u, hu, hunspent, hname, hkey⟩ := hp.exists_row (List.mem_filterMap.2 ⟨input, hi, hhash⟩)
      exact ⟨u, hu, by rw [hname, hhash], hunspent, hkey⟩
    · have hrest := hp.remain_nonneg
      rw [hp.remain_toRat, referencedWorth_eq_marked hnames hproper.nodup] at hrest
      linarith
  · rintro ⟨publicKey, hkey, hsigned, hnamed, hcovers⟩
    have howned (input : Input) (hi : input ∈ req.message.inputs) :
        Owned us (encodeHexString publicKey) input := by
      obtain ⟨u, hu, hname, hunspent, howner⟩ := hnamed input hi
      have hcount : 0 < countOfHash us u.hashUTXO (encodeHexString publicKey) :=
        List.countP_pos_iff.2 ⟨u, hu, by simp [hunspent, howner]⟩
      have hone := countOfHash_le_one hnames u.hashUTXO (encodeHexString publicKey)
      exact ⟨u.hashUTXO, hname, hcount, by omega⟩
    have hinputs (input : Input) (hi : input ∈ req.message.inputs) :
        ∃ d, inputDecimal us input = some d ∧ d.scale = 0 := by
      obtain ⟨u, hu, hname, hunspent, -⟩ := hnamed input hi
      obtain ⟨v, hv, hvalue⟩ := exists_valueOfHash hu hunspent
      obtain ⟨d, hd, hscale, -⟩ := hrows.whole v hv
      exact ⟨d, by rw [inputDecimal, hname, Option.bind_some, hvalue, Option.bind_some, hd], hscale⟩
    have houtputs (output : Output) (ho : output ∈ req.message.outputs) :
        ∃ d, outputDecimal output = some d ∧ d.scale = 0 := by
      obtain ⟨value, hvalue, d, hd, hscale, -⟩ := hproper.whole output ho
      exact ⟨d, by rw [outputDecimal, hvalue, Option.bind_some, hd], hscale⟩
    obtain ⟨ds, hds, hdsScale⟩ := exists_map_some hinputs
    obtain ⟨es, hes, hesScale⟩ := exists_map_some houtputs
    obtain ⟨sum, hsum, hsumScale⟩ := sumFrom_whole (rfl : BigDecimal.zero.scale = 0) hdsScale
    obtain ⟨value, hvalue, hvalueScale⟩ := sumFrom_whole (rfl : BigDecimal.zero.scale = 0) hesScale
    obtain ⟨remain, hremain⟩ := BigDecimal.add_of_scale_zero hsumScale (b := value.negate) hvalueScale
    have hsumRat := InputSum.toRat ⟨ds, hds, hsum⟩
    have hvalueRat := OutputSum.toRat ⟨es, hes, hvalue⟩
    rw [BigDecimal.toRat_zero, zero_add] at hsumRat hvalueRat
    rw [referencedWorth_eq_marked hnames hproper.nodup] at hsumRat
    refine ⟨publicKey, sum, value, remain, hkey, hsigned, howned, ⟨ds, hds, hsum⟩, ⟨es, hes, hvalue⟩,
      fun hlt => ?_, hremain⟩
    have hless := (BigDecimal.compareTo_lt sum value).1 hlt
    linarith

end

/-! ## What an accepted request moves -/

@[simp] theorem Utxo.spendAny_publicKey (TX : String) (hashes : List String) (u : Utxo) :
    (u.spendAny TX hashes).publicKey = u.publicKey := by
  unfold Utxo.spendAny; split <;> rfl

theorem Message.payer_eq {m : Message} {publicKey : List UInt8} (h : decodeHex m.publicKey = some publicKey) :
    m.payer = encodeHexString publicKey := by
  rw [Message.payer, h]
  rfl

theorem Message.amount_payment (m : Message) : m.payment.amount = outputsWorth m.outputs := by
  rw [Payment.amount, Message.payment, List.map_map, outputsWorth]
  rfl

/-- The rows of complete outputs are what they pay to each key. -/
theorem ledger_newUtxos (env : Env) (TX : String) (i : Nat) {m : Message}
    (h : ∀ output ∈ m.outputs, output.Complete) (key : String) :
    ledger (newUtxos env TX i m.outputs) key = m.payment.due key := by
  unfold Message.payment Payment.due
  simp only
  generalize m.outputs = outputs at h
  induction outputs generalizing i with
  | nil => rfl
  | cons output outputs ih =>
    have hrest := ih (i + 1) fun o ho => h o (List.mem_cons_of_mem _ ho)
    obtain ⟨hvalue, hkey⟩ := h output List.mem_cons_self
    obtain ⟨_ | value, _ | pk⟩ := output
    · cases hvalue
    · cases hvalue
    · cases hkey
    · unfold ledger heldWorth at hrest ⊢
      rw [newUtxos, weigh_cons, List.map_cons, weigh_cons, hrest]
      congr 1
      exact if_congr ⟨fun h => h.2, fun h => ⟨rfl, h⟩⟩ rfl rfl

theorem newUtxos_whole {env : Env} {TX : String} {i : Nat} {outputs : List Output}
    (h : ∀ output ∈ outputs, ∃ value, output.value = some value ∧ Whole value) {u : Utxo}
    (hu : u ∈ newUtxos env TX i outputs) : Whole u.value := by
  induction outputs generalizing i with
  | nil => cases hu
  | cons output outputs ih =>
    obtain ⟨value, hvalue, hwhole⟩ := h output List.mem_cons_self
    obtain ⟨_ | value', _ | pk⟩ := output
    · cases hu
    · cases hu
    · cases hu
    · cases hvalue
      rcases List.mem_cons.1 hu with rfl | hu
      · exact hwhole
      · exact ih (fun o ho => h o (List.mem_cons_of_mem _ ho)) hu

theorem changeUtxos_whole {env : Env} {req : Request} {publicKey : List UInt8} {remain : BigDecimal}
    (hscale : remain.scale = 0) {u : Utxo} (hu : u ∈ changeUtxos env req publicKey remain) :
    Whole u.value := by
  unfold changeUtxos at hu
  split at hu
  next hpos =>
    rw [List.mem_singleton.1 hu]
    exact ⟨remain, BigDecimal.ofString_toString hscale, hscale, hpos⟩
  next => cases hu

theorem ledger_append (us vs : List Utxo) (key : String) : ledger (us ++ vs) key = ledger us key + ledger vs key :=
  weigh_append _ _ us vs

section

variable {env : Env} {us : List Utxo} {req : Request} {publicKey : List UInt8} {sum value remain : BigDecimal}
  (hp : Passes env us req publicKey sum value remain) (hnames : (us.map Utxo.hashUTXO).Nodup)

include hp

theorem ledger_changeUtxos (hscale : remain.scale = 0) (key : String) :
    ledger (changeUtxos env req publicKey remain) key =
      if key = req.message.payer then remain.toRat else 0 := by
  have hworth := changeUtxos_worth env req publicKey hscale hp.remain_nonneg
  have hheld (u : Utxo) (hu : u ∈ changeUtxos env req publicKey remain) :
      u.Unspent ∧ u.publicKey = req.message.payer := by
    refine ⟨changeUtxos_unspent hu, ?_⟩
    unfold changeUtxos at hu
    split at hu
    · rw [List.mem_singleton.1 hu, Message.payer_eq hp.key]
      rfl
    · cases hu
  unfold ledger heldWorth
  by_cases hkey : key = req.message.payer
  · rw [if_pos hkey, weigh_all _ _ fun u hu => ⟨(hheld u hu).1, (hheld u hu).2.trans hkey.symm⟩, hworth]
  · rw [if_neg hkey]
    exact weigh_none _ _ fun u hu hrow => hkey (hrow.2.symm.trans (hheld u hu).2)

include hnames

/-- A row that is named is the payer's. -/
theorem Passes.owner {u : Utxo} (hu : u ∈ us) (hnamed : u.hashUTXO ∈ inputHashes req.message.inputs) :
    u.publicKey = req.message.payer := by
  obtain ⟨v, hv, -, hname, hkey⟩ := hp.exists_row hnamed
  rw [List.inj_on_of_nodup_map hnames hu hv hname.symm, hkey, Message.payer_eq hp.key]

/-- Marking takes what the named rows are worth from the payer, and nothing from another. -/
theorem ledger_spendAny (key : String) :
    ledger us key = (if key = req.message.payer then markedWorth us (inputHashes req.message.inputs) else 0) +
      ledger (us.map (Utxo.spendAny (hashHex env (env.toJSONString req.message))
        (inputHashes req.message.inputs))) key := by
  have hTX := hashHex_ne_unspentTail env (env.toJSONString req.message)
  have hkept : ledger (us.map (Utxo.spendAny (hashHex env (env.toJSONString req.message))
      (inputHashes req.message.inputs))) key =
        weigh Utxo.worth (fun u => (u.Unspent ∧ u.publicKey = key) ∧
          ¬ u.hashUTXO ∈ inputHashes req.message.inputs) us := by
    unfold ledger heldWorth
    rw [weigh_map Utxo.worth _ _ fun u => by simp [Utxo.worth]]
    refine weigh_congr _ _ _ fun u _ => ?_
    rw [unspent_spendAny hTX, Utxo.spendAny_publicKey, and_right_comm]
  have hmarked : weigh Utxo.worth (fun u => (u.Unspent ∧ u.publicKey = key) ∧
      u.hashUTXO ∈ inputHashes req.message.inputs) us =
        if key = req.message.payer then markedWorth us (inputHashes req.message.inputs) else 0 := by
    by_cases hkey : key = req.message.payer
    · rw [if_pos hkey, markedWorth]
      refine weigh_congr _ _ _ fun u hu => ⟨fun h => ⟨h.1.1, h.2⟩, fun h => ?_⟩
      exact ⟨⟨h.1, (hp.owner hnames hu h.2).trans hkey.symm⟩, h.2⟩
    · rw [if_neg hkey]
      exact weigh_none _ _ fun u hu h => hkey (h.1.2.symm.trans (hp.owner hnames hu h.2))
  rw [hkept, ← hmarked]
  exact weigh_split _ _ _ us

/-- What a request that passes pays is the payer's. -/
theorem Passes.covered (hrows : WholeRows us) (hproper : Proper req) :
    Covered (ledger us) req.message.payment := by
  have hrest := hp.remain_nonneg
  rw [hp.remain_toRat, referencedWorth_eq_marked hnames hproper.nodup] at hrest
  have htaken := ledger_spendAny hp hnames req.message.payer
  rw [if_pos rfl] at htaken
  have hleft : 0 ≤ ledger (us.map (Utxo.spendAny (hashHex env (env.toJSONString req.message))
      (inputHashes req.message.inputs))) req.message.payer := by
    refine weigh_nonneg _ _ fun u hu => ?_
    obtain ⟨v, hv, rfl⟩ := List.mem_map.1 hu
    rw [Utxo.worth, Utxo.spendAny_value]
    exact le_of_lt (hrows.positive v hv)
  show req.message.payment.amount ≤ ledger us req.message.payer
  rw [Message.amount_payment, htaken]
  linarith

/-- **Commit.**  The tables of a commit stand for the ledger after the payment. -/
theorem ledger_committed {transactions : List (String × String)} (hproper : Proper req)
    (hcomplete : ∀ output ∈ req.message.outputs, output.Complete) (hscale : remain.scale = 0) :
    ledger (committed env ⟨transactions, us⟩ req (changeUtxos env req publicKey remain)).utxos =
      pay (ledger us) req.message.payment := by
  funext key
  have hremain := hp.remain_toRat
  rw [referencedWorth_eq_marked hnames hproper.nodup] at hremain
  have htaken := ledger_spendAny hp hnames key
  rw [committed, ledger_append, ledger_append, ledger_newUtxos env _ 1 hcomplete,
    ledger_changeUtxos hp hscale, pay, htaken, Message.amount_payment]
  show _ = _ - if key = req.message.payer then _ else _
  by_cases hkey : key = req.message.payer
  · rw [if_pos hkey, if_pos hkey, if_pos hkey, hremain]
    ring
  · rw [if_neg hkey, if_neg hkey, if_neg hkey]
    ring

end

/-! ## Runs -/

/-- A call keeps the names of the rows. -/
theorem names_serve (env : Env) (t : Tables) (req : Request) :
    ∃ new, (serve env t req).utxos.map Utxo.hashUTXO = t.utxos.map Utxo.hashUTXO ++ new := by
  unfold serve
  rcases call_tables env t req with hsame | ⟨publicKey, sum, value, remain, change, -, htables, -⟩
  · exact ⟨[], by rw [hsame, List.append_nil]⟩
  · have hkept (TX : String) (hashes : List String) :
        (t.utxos.map (Utxo.spendAny TX hashes)).map Utxo.hashUTXO = t.utxos.map Utxo.hashUTXO := by
      rw [List.map_map]
      exact List.map_congr_left fun u _ => Utxo.spendAny_hashUTXO TX hashes u
    rw [htables, committed, List.append_assoc, List.map_append, hkept]
    exact ⟨_, rfl⟩

theorem nodup_names_of_run {env : Env} {t : Tables} {reqs : List Request}
    (h : ((StepRun.run (serve env) t reqs).utxos.map Utxo.hashUTXO).Nodup) :
    (t.utxos.map Utxo.hashUTXO).Nodup := by
  induction reqs generalizing t with
  | nil => exact h
  | cons req reqs ih =>
    obtain ⟨new, hnew⟩ := names_serve env t req
    have hnext := ih h
    rw [hnew] at hnext
    exact hnext.of_append_left

section

variable {env : Env} {t : Tables} {req : Request} (hnames : (t.utxos.map Utxo.hashUTXO).Nodup)
  (hrows : WholeRows t.utxos)

include hnames hrows

/-- A proper request that passes can be committed in full. -/
theorem Passes.done {publicKey : List UInt8} {sum value remain : BigDecimal}
    (hp : Passes env t.utxos req publicKey sum value remain) (hproper : Proper req) :
    (∀ output ∈ req.message.outputs, output.Complete) ∧ (remain.scale = 0 ∧ IsInt remain.unscaled) := by
  rw [narrow_iff hp]
  refine ⟨hproper.keyed, fun input _ d hd => ?_, fun output ho d hd => ?_, ?_⟩
  · obtain ⟨hash, -, hd⟩ := Option.bind_eq_some_iff.1 hd
    obtain ⟨s, hs, hd⟩ := Option.bind_eq_some_iff.1 hd
    obtain ⟨u, hfind, rfl⟩ := Option.map_eq_some_iff.1 hs
    obtain ⟨e, he, hscale, -⟩ := hrows.whole u (List.mem_of_find?_eq_some hfind)
    rw [he] at hd
    cases hd
    omega
  · obtain ⟨value, hvalue, e, he, hscale, -⟩ := hproper.whole output ho
    rw [outputDecimal, hvalue, Option.bind_some, he] at hd
    cases hd
    omega
  · have hgiven := markedWorth_le hrows.positive (inputHashes req.message.inputs)
    have hpaid := outputsWorth_nonneg hproper.fair.2
    have hfits := hrows.fits
    rw [referencedWorth_eq_marked hnames hproper.nodup]
    linarith

/-- **Step.**  Nothing happens, or the request is proper, is accepted, and moves what it pays. -/
theorem serve_cases (hproper : Accepts env t.utxos req → Proper req) :
    (¬ Accepts env t.utxos req ∧ (call env req t).1 ≠ .ok "Valid TX" ∧ serve env t req = t) ∨
      (Accepts env t.utxos req ∧ (call env req t).1 = .ok "Valid TX" ∧
        Covered (ledger t.utxos) req.message.payment ∧
        ledger (serve env t req).utxos = pay (ledger t.utxos) req.message.payment ∧
        WholeRows (serve env t req).utxos) := by
  rcases call_cases env t req with ⟨hsame, hne, hn⟩ | ⟨publicKey, sum, value, remain, hp, hc⟩
  · exact Or.inl ⟨hn, hne, hsame⟩
  right
  have haccepts : Accepts env t.utxos req := ⟨publicKey, sum, value, remain, hp⟩
  have hreq := hproper haccepts
  obtain ⟨hcomplete, hscale, hint⟩ := hp.done hnames hrows hreq
  have hcall : call env req t = (.ok "Valid TX", committed env t req (changeUtxos env req publicKey remain)) := by
    generalize call env req t = r at hc
    cases hc with
    | done => rfl
    | noChange _ hn => exact absurd ⟨hscale, hint⟩ hn
    | incomplete hn => exact absurd hcomplete hn
  have hserve : serve env t req = committed env t req (changeUtxos env req publicKey remain) := by
    rw [serve, hcall]
  refine ⟨haccepts, by rw [hcall], hp.covered hnames hrows hreq, ?_, ?_, ?_⟩
  · rw [hserve]
    exact ledger_committed hp hnames hreq hcomplete hscale
  · rw [hserve, committed]
    intro u hu
    rcases List.mem_append.1 hu with hu | hu
    · rcases List.mem_append.1 hu with hu | hu
      · obtain ⟨v, hv, rfl⟩ := List.mem_map.1 hu
        rw [Utxo.spendAny_value]
        exact hrows.whole v hv
      · exact newUtxos_whole hreq.whole hu
    · exact changeUtxos_whole hscale hu
  · exact (serve_fair hrows.positive fun _ => hreq.fair).2.trans hrows.fits

/-- A proper request is accepted exactly if it pays. -/
theorem valid_iff_pays (hproper : Accepts env t.utxos req → Proper req) :
    (call env req t).1 = .ok "Valid TX" ↔ Proper req ∧ Pays env t.utxos req := by
  rcases serve_cases hnames hrows hproper with ⟨hn, hne, -⟩ | ⟨haccepts, hvalid, -⟩
  · refine ⟨fun h => absurd h hne, fun ⟨hreq, hpays⟩ => ?_⟩
    exact absurd ((accepts_iff_pays hnames hrows hreq).2 hpays) hn
  · have hreq := hproper haccepts
    exact ⟨fun _ => ⟨hreq, (accepts_iff_pays hnames hrows hreq).1 haccepts⟩, fun _ => hvalid⟩

end

/-- **The ledger.**  From rows of whole coins, and if the names that are written are all different, a
run in which the requests that pass are proper answers "Valid TX" exactly to the proper requests
that pay, and ends with the ledger that the payments of the accepted messages make, none of which
overdraws. -/
theorem ledger_refined (env : Env) (t : Tables) (reqs : List Request) (hrows : WholeRows t.utxos)
    (hnames : ((StepRun.run (serve env) t reqs).utxos.map Utxo.hashUTXO).Nodup)
    (hproper : StepRun.Along (serve env) (fun t req => Accepts env t.utxos req → Proper req) t reqs) :
    StepRun.Along (serve env)
        (fun t req => (call env req t).1 = .ok "Valid TX" ↔ Proper req ∧ Pays env t.utxos req) t reqs ∧
      StepRun.Along pay Covered (ledger t.utxos) ((accepted env t reqs).map Message.payment) ∧
      ledger (StepRun.run (serve env) t reqs).utxos =
        StepRun.run pay (ledger t.utxos) ((accepted env t reqs).map Message.payment) := by
  induction reqs generalizing t with
  | nil => exact ⟨trivial, trivial, rfl⟩
  | cons req reqs ih =>
    have hnow := nodup_names_of_run hnames
    have hiff := valid_iff_pays hnow hrows hproper.1
    rw [accepted]
    rcases serve_cases hnow hrows hproper.1 with ⟨-, hne, hsame⟩ | ⟨-, hvalid, hcovered, hledger, hwhole⟩
    · obtain ⟨hvalids, hcovers, hend⟩ := ih _ (by rwa [hsame]) hnames hproper.2
      rw [if_neg hne]
      refine ⟨⟨hiff, hvalids⟩, ?_, ?_⟩
      · rwa [hsame] at hcovers ⊢
      · rw [StepRun.run_cons, hend, hsame]
    · obtain ⟨hvalids, hcovers, hend⟩ := ih _ hwhole hnames hproper.2
      rw [if_pos hvalid, List.map_cons]
      rw [hledger] at hcovers hend
      exact ⟨⟨hiff, hvalids⟩, ⟨hcovered, hcovers⟩, hend⟩

theorem wholeRows_coin : WholeRows [coin "c1" "5"] := by
  have h5 : worth "5" = (5 : Int) := worth_int (by decide)
  refine ⟨fun u hu => ?_, ?_⟩
  · rw [List.mem_singleton.1 hu]
    exact ⟨⟨5, 0, by decide⟩, by decide, rfl, by decide⟩
  · show worth "5" + 0 ≤ 2147483647
    rw [h5]
    norm_num

/-- A payment and one with the same row after it. -/
theorem ledger_refined_single :
    ledger (StepRun.run (serve openEnv) ⟨[], [coin "c1" "5"]⟩
        [spendRequest ["c1"] [("3", "bb")] "m", spendRequest ["c1"] [("1", "cc")] "n"]).utxos =
      StepRun.run pay (ledger [coin "c1" "5"])
        ((accepted openEnv ⟨[], [coin "c1" "5"]⟩
          [spendRequest ["c1"] [("3", "bb")] "m", spendRequest ["c1"] [("1", "cc")] "n"]).map
            Message.payment) := by
  have hproper (value key text : String) (d : BigDecimal) (hd : BigDecimal.ofString value = some d)
      (hscale : d.scale = 0) (hpos : 0 < d.unscaled) : Proper (spendRequest ["c1"] [(value, key)] text) := by
    refine ⟨List.nodup_singleton _, fun output ho => ?_, fun output ho => ?_⟩
    · rw [List.mem_singleton.1 ho]
      exact ⟨value, rfl, d, hd, hscale, hpos⟩
    · rw [List.mem_singleton.1 ho]
      rfl
  refine (ledger_refined openEnv ⟨[], [coin "c1" "5"]⟩
    [spendRequest ["c1"] [("3", "bb")] "m", spendRequest ["c1"] [("1", "cc")] "n"] wholeRows_coin (by decide)
    ⟨fun _ => ?_, fun _ => ?_, trivial⟩).2.2
  · exact hproper "3" "bb" "m" ⟨3, 0, by decide⟩ (by decide) rfl (by decide)
  · exact hproper "1" "cc" "n" ⟨1, 0, by decide⟩ (by decide) rfl (by decide)

end MoaCrypto.Transaction
