import MoaCrypto.Transaction.Call
import MoaCrypto.Lib.Weigh

/-!
# What rows and requests are worth

A value text is worth the number its decimal denotes (nothing, if it is none).
The rows of a table are weighed by it, the unspent ones, those of a hash, those
of a key.  The sums that validation computes are such weights
(`Passes.sum_toRat`, `Passes.value_toRat`), and so are the rows that a commit
adds.
-/

namespace MoaCrypto.Transaction

open Java QueryProg Weigh

/-- The number a value text denotes. -/
def worth (s : String) : ℚ := ((BigDecimal.ofString s).map BigDecimal.toRat).getD 0

def Utxo.worth (u : Utxo) : ℚ := Transaction.worth u.value

/-- The sum of the values of all unspent rows. -/
def unspentWorth (us : List Utxo) : ℚ := weigh Utxo.worth Utxo.Unspent us

/-- The sum of the values of the unspent rows of a hash. -/
def hashWorth (us : List Utxo) (hash : String) : ℚ :=
  weigh Utxo.worth (fun u => u.Unspent ∧ u.hashUTXO = hash) us

/-- The value that the inputs are given, hash by hash. -/
def referencedWorth (us : List Utxo) (inputs : List Input) : ℚ :=
  ((inputHashes inputs).map fun hash => ((valueOfHash us hash).map worth).getD 0).sum

def outputsWorth (outputs : List Output) : ℚ :=
  (outputs.map fun output => (output.value.map worth).getD 0).sum

theorem worth_of_ofString {s : String} {d : BigDecimal} (h : BigDecimal.ofString s = some d) :
    worth s = d.toRat := by
  rw [worth, h]
  rfl

/-- An integral decimal's own text is worth what it denotes. -/
theorem worth_toString {d : BigDecimal} (h : d.scale = 0) : worth d.toString = d.toRat :=
  worth_of_ofString (BigDecimal.ofString_toString h)

theorem worth_int {s : String} {n : Int} (h : BigDecimal.ofString s = some ⟨n, 0, by decide⟩) :
    worth s = n := by
  rw [worth_of_ofString h, BigDecimal.toRat_of_scale_zero rfl]

/-! ## The sums of validation -/

theorem InputSum.toRat {us : List Utxo} {inputs : List Input} {acc sum : BigDecimal}
    (h : InputSum us inputs acc sum) : sum.toRat = acc.toRat + referencedWorth us inputs := by
  obtain ⟨ds, hds, hsum⟩ := h
  rw [BigDecimal.toRat_sumFrom hsum]
  congr 1
  clear hsum
  induction inputs generalizing ds with
  | nil =>
    cases ds with
    | nil => rfl
    | cons d ds => cases hds
  | cons input inputs ih =>
    cases ds with
    | nil => cases hds
    | cons d ds =>
      simp only [List.map_cons, List.cons.injEq, inputDecimal, Option.bind_eq_some_iff] at hds
      obtain ⟨⟨hash, hhash, s, hs, hd⟩, hds⟩ := hds
      have htail : (ds.map BigDecimal.toRat).sum = referencedWorth us inputs := ih ds hds
      simp only [List.map_cons, List.sum_cons, htail, referencedWorth, inputHashes,
        List.filterMap_cons, hhash, hs, Option.map_some, Option.getD_some, worth_of_ofString hd]

theorem OutputSum.toRat {outputs : List Output} {acc value : BigDecimal}
    (h : OutputSum outputs acc value) : value.toRat = acc.toRat + outputsWorth outputs := by
  obtain ⟨ds, hds, hsum⟩ := h
  rw [BigDecimal.toRat_sumFrom hsum]
  congr 1
  clear hsum
  induction outputs generalizing ds with
  | nil =>
    cases ds with
    | nil => rfl
    | cons d ds => cases hds
  | cons output outputs ih =>
    cases ds with
    | nil => cases hds
    | cons d ds =>
      simp only [List.map_cons, List.cons.injEq, outputDecimal, Option.bind_eq_some_iff] at hds
      obtain ⟨⟨s, hs, hd⟩, hds⟩ := hds
      have htail : (ds.map BigDecimal.toRat).sum = outputsWorth outputs := ih ds hds
      simp only [List.map_cons, List.sum_cons, htail, outputsWorth, hs, Option.map_some,
        Option.getD_some, worth_of_ofString hd]

section

variable {env : Env} {us : List Utxo} {req : Request} {publicKey : List UInt8}
  {sum value remain : BigDecimal} (hp : Passes env us req publicKey sum value remain)

include hp

theorem Passes.sum_toRat : sum.toRat = referencedWorth us req.message.inputs := by
  rw [hp.inputs.toRat, BigDecimal.toRat_zero, zero_add]

theorem Passes.value_toRat : value.toRat = outputsWorth req.message.outputs := by
  rw [hp.outputs.toRat, BigDecimal.toRat_zero, zero_add]

theorem Passes.remain_toRat :
    remain.toRat = referencedWorth us req.message.inputs - outputsWorth req.message.outputs := by
  rw [BigDecimal.toRat_subtract hp.remains, hp.sum_toRat, hp.value_toRat]

theorem Passes.remain_nonneg : 0 ≤ remain.toRat := by
  have h : ¬ sum.toRat < value.toRat := fun hlt =>
    hp.covers ((BigDecimal.compareTo_lt sum value).mpr hlt)
  rw [BigDecimal.toRat_subtract hp.remains]
  linarith

/-- The sender has an unspent row of every hash that is referenced. -/
theorem Passes.exists_row {hash : String} (h : hash ∈ inputHashes req.message.inputs) :
    ∃ u ∈ us, u.Unspent ∧ u.hashUTXO = hash ∧ u.publicKey = encodeHexString publicKey := by
  obtain ⟨input, hi, hhash⟩ := List.mem_filterMap.mp h
  obtain ⟨hash', hhash', hpos, -⟩ := hp.owned input hi
  rw [hhash] at hhash'
  cases hhash'
  obtain ⟨u, hu, hrow⟩ := List.countP_pos_iff.mp hpos
  simp only [decide_eq_true_eq] at hrow
  exact ⟨u, hu, hrow⟩

end

/-! ## Rows of a commit -/

/-- A digest's text has an even number of digits. -/
theorem hashHex_ne (env : Env) (s : String) {name : String} (h : name.toList.length % 2 = 1) :
    hashHex env s ≠ name := by
  intro he
  have hlen := length_encodeHexString (env.doubleDigest (utf8 s))
  rw [hashHex] at he
  rw [he] at hlen
  omega

theorem hashHex_ne_unspentTail (env : Env) (s : String) : hashHex env s ≠ unspentTail :=
  hashHex_ne env s (by decide)

/-- Of the old rows, those stay unspent that no input names. -/
theorem unspent_spendAny {TX : String} (hTX : TX ≠ unspentTail) (hashes : List String) (u : Utxo) :
    (u.spendAny TX hashes).Unspent ↔ u.Unspent ∧ u.hashUTXO ∉ hashes := by
  unfold Utxo.spendAny
  by_cases h : u.hashUTXO ∈ hashes
  · rw [if_pos h]
    exact ⟨fun hu => absurd hu hTX, fun hu => absurd h hu.2⟩
  · rw [if_neg h]
    exact ⟨fun hu => ⟨hu, h⟩, fun hu => hu.1⟩

theorem newUtxos_unspent {env : Env} {TX : String} {i : Nat} {outputs : List Output} {u : Utxo}
    (hu : u ∈ newUtxos env TX i outputs) : u.Unspent := by
  induction outputs generalizing i with
  | nil => cases hu
  | cons output outputs ih =>
    obtain ⟨_ | value, _ | pk⟩ := output
    · cases hu
    · cases hu
    · cases hu
    · rcases List.mem_cons.mp hu with rfl | hu
      · rfl
      · exact ih hu

theorem changeUtxos_unspent {env : Env} {req : Request} {publicKey : List UInt8}
    {remain : BigDecimal} {u : Utxo} (hu : u ∈ changeUtxos env req publicKey remain) :
    u.Unspent := by
  unfold changeUtxos at hu
  split at hu
  · rw [List.mem_singleton] at hu
    subst hu
    rfl
  · cases hu

/-- A commit names its rows by digests. -/
theorem inserted_hash {env : Env} {req : Request} {publicKey : List UInt8} {remain : BigDecimal}
    {TX : String} {i : Nat} {outputs : List Output} {u : Utxo}
    (hu : u ∈ newUtxos env TX i outputs ++ changeUtxos env req publicKey remain) :
    ∃ s, u.hashUTXO = hashHex env s := by
  rcases List.mem_append.mp hu with hu | hu
  · induction outputs generalizing i with
    | nil => cases hu
    | cons output outputs ih =>
      obtain ⟨_ | value, _ | pk⟩ := output
      · cases hu
      · cases hu
      · cases hu
      · rcases List.mem_cons.mp hu with rfl | hu
        · exact ⟨_, rfl⟩
        · exact ih (List.mem_append_left _ hu) hu
  · unfold changeUtxos at hu
    split at hu
    · rw [List.mem_singleton] at hu
      subst hu
      exact ⟨_, rfl⟩
    · cases hu

/-- The rows of complete outputs are worth what the outputs are. -/
theorem newUtxos_worth (env : Env) (TX : String) (i : Nat) {outputs : List Output}
    (h : ∀ output ∈ outputs, output.Complete) :
    ((newUtxos env TX i outputs).map Utxo.worth).sum = outputsWorth outputs := by
  induction outputs generalizing i with
  | nil => rfl
  | cons output outputs ih =>
    have hhead := h output List.mem_cons_self
    have htail := ih (i + 1) fun o ho => h o (List.mem_cons_of_mem _ ho)
    obtain ⟨_ | value, _ | pk⟩ := output
    · exact absurd hhead.1 (by simp)
    · exact absurd hhead.1 (by simp)
    · exact absurd hhead.2 (by simp)
    · simp only [newUtxos, List.map_cons, List.sum_cons, htail, outputsWorth, Option.map_some,
        Option.getD_some]
      rfl

/-- The change row is worth the remainder. -/
theorem changeUtxos_worth (env : Env) (req : Request) (publicKey : List UInt8)
    {remain : BigDecimal} (hscale : remain.scale = 0) (hnn : 0 ≤ remain.toRat) :
    ((changeUtxos env req publicKey remain).map Utxo.worth).sum = remain.toRat := by
  unfold changeUtxos
  by_cases h : 0 < remain.unscaled
  · rw [if_pos h]
    simp only [List.map_cons, List.map_nil, List.sum_cons, List.sum_nil, add_zero]
    exact worth_toString hscale
  · rw [if_neg h]
    rw [BigDecimal.toRat_of_scale_zero hscale] at hnn ⊢
    have hzero : remain.unscaled = 0 := by
      have : 0 ≤ remain.unscaled := by exact_mod_cast hnn
      omega
    rw [hzero]
    rfl

end MoaCrypto.Transaction
