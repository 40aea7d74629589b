import MoaCrypto.Transaction.Server

/-!
# What the checks of a request accept

Validation only reads the tables, so its three checks see the same rows.  Each of
them is turned into a statement about these rows: every input an unspent row of
the sender (`utxoCheck_eq_true`), the decimals read for inputs and outputs and
their sums (`valueCheck_eq_ok`).  `Passes` collects them, with the sums as
parameters, and `txValidationCheck_valid` says that it is what validation decides.
-/

namespace MoaCrypto.Transaction

open Java QueryProg

/-! ## Only reads -/


def Query.IsRead : Query → Prop
  | .insertTransaction _ _ => False
  | .updateUTXO _ _ => False
  | .insertUTXO _ _ _ _ _ => False
  | .selectCountOfHash _ _ => True
  | .selectValue _ => True

theorem perform_read (q : Query) (t : Tables) (h : q.IsRead) : (perform q t).2 = t := by
  cases q with
  | insertTransaction => cases h
  | updateUTXO => cases h
  | insertUTXO => cases h
  | selectCountOfHash => rfl
  | selectValue => rfl

theorem uses_utxoCheckLoop (publicKey : String) (inputs : List Input) (isTExist : Bool)
    (count : Nat) : Prog.Uses Query.IsRead (utxoCheckLoop publicKey inputs isTExist count) := by
  induction inputs generalizing isTExist count with
  | nil => trivial
  | cons input inputs ih =>
    apply Prog.Uses.bind (Prog.Uses.orFail _ _)
    intro hash
    apply Prog.Uses.bind (Prog.Uses.query trivial)
    intro hasValue
    apply Prog.Uses.bind (Prog.Uses.orFail _ _)
    intro n
    split
    · exact ih _ _
    · exact ih _ _

theorem uses_sumInputs {allowed : Query → Prop} (h : ∀ hash, allowed (.selectValue hash))
    (inputs : List Input) (sum : BigDecimal) : Prog.Uses allowed (sumInputs inputs sum) := by
  induction inputs generalizing sum with
  | nil => trivial
  | cons input inputs ih =>
    apply Prog.Uses.bind (Prog.Uses.orFail _ _)
    intro hash
    apply Prog.Uses.bind (Prog.Uses.query (h hash))
    intro s
    apply Prog.Uses.bind (Prog.Uses.orFail _ _)
    intro s
    apply Prog.Uses.bind (Prog.Uses.orFail _ _)
    intro d
    apply Prog.Uses.bind (Prog.Uses.orFail _ _)
    intro sum'
    exact ih sum'

/-- The sum of the outputs asks nothing. -/
theorem uses_sumOutputs (allowed : Query → Prop) (outputs : List Output) (value : BigDecimal) :
    Prog.Uses allowed (sumOutputs outputs value) := by
  induction outputs generalizing value with
  | nil => trivial
  | cons output outputs ih =>
    apply Prog.Uses.bind (Prog.Uses.orFail _ _)
    intro s
    apply Prog.Uses.bind (Prog.Uses.orFail _ _)
    intro d
    apply Prog.Uses.bind (Prog.Uses.orFail _ _)
    intro value'
    exact ih value'

/-- `valueCheck` only selects values. -/
theorem uses_valueCheck {allowed : Query → Prop} (h : ∀ hash, allowed (.selectValue hash))
    (inputs : List Input) (outputs : List Output) :
    Prog.Uses allowed (valueCheck inputs outputs) := by
  apply Prog.Uses.bind (uses_sumInputs h _ _)
  intro sum
  apply Prog.Uses.bind (uses_sumOutputs _ _ _)
  intro value
  apply Prog.Uses.bind (Prog.Uses.orFail _ _)
  intro remain
  trivial

theorem uses_utxoCheck (publicKey : List UInt8) (inputs : List Input) :
    Prog.Uses Query.IsRead (utxoCheck publicKey inputs) := by
  apply Prog.Uses.bind (uses_utxoCheckLoop _ _ _ _)
  intro r
  trivial

/-- Validation only reads. -/
theorem uses_txValidationCheck (env : Env) (signature msg : String) (publicKey : List UInt8)
    (inputs : List Input) (outputs : List Output) :
    Prog.Uses Query.IsRead (txValidationCheck env signature msg publicKey inputs outputs) := by
  apply Prog.Uses.bind (uses_utxoCheck publicKey inputs)
  intro isTExist
  apply Prog.Uses.bind (uses_valueCheck (fun _ => trivial) inputs outputs)
  intro r
  trivial

/-! ## What each check says -/

/-- The decimal that `valueCheck` reads for an input. -/
def inputDecimal (us : List Utxo) (input : Input) : Option BigDecimal :=
  input.hashUTXO.bind fun hash => (valueOfHash us hash).bind BigDecimal.ofString

/-- The decimal that `valueCheck` reads for an output. -/
def outputDecimal (output : Output) : Option BigDecimal := output.value.bind BigDecimal.ofString

/-- The input names an unspent row of the sender (and the count of these rows fits an `int`). -/
def Owned (us : List Utxo) (publicKey : String) (input : Input) : Prop :=
  ∃ hash, input.hashUTXO = some hash ∧ 0 < countOfHash us hash publicKey ∧
    (countOfHash us hash publicKey : Int) ≤ 2147483647

theorem valueOf_count (n : Nat) :
    Integer.valueOf (String.ofList (intDigits n)) =
      if (n : Int) ≤ 2147483647 then some (n : Int) else none := by
  rw [valueOf_intDigits]
  by_cases h : (n : Int) ≤ 2147483647
  · rw [if_pos h, if_pos ⟨by omega, h⟩]
  · rw [if_neg h, if_neg (fun hi => h hi.2)]

/-- The loop of `utxoCheck` counts the owned inputs; it finds all of them owned only
if every one is. -/
theorem utxoCheckLoop_ok {publicKey : String} {inputs : List Input} {isTExist : Bool}
    {count : Nat} {t t' : Tables} {r : Bool × Nat}
    (h : (utxoCheckLoop publicKey inputs isTExist count).run perform t = (.ok r, t')) :
    r.2 ≤ count + inputs.length ∧
      (r.2 = count + inputs.length → ∀ input ∈ inputs, Owned t.utxos publicKey input) := by
  induction inputs generalizing isTExist count with
  | nil =>
    cases h
    exact ⟨by simp, fun _ input hi => by cases hi⟩
  | cons input inputs ih =>
    simp only [utxoCheckLoop, Prog.run_orFail_bind_eq_ok, Prog.query_bind, Prog.run_ask] at h
    obtain ⟨hash, hhash, n, hn, hrest⟩ := h
    change Integer.valueOf (String.ofList (intDigits (countOfHash t.utxos hash publicKey))) =
      some n at hn
    rw [valueOf_count] at hn
    split at hn
    · next hint =>
      cases hn
      by_cases hzero : ((countOfHash t.utxos hash publicKey : Nat) : Int) = 0
      · rw [if_pos hzero] at hrest
        obtain ⟨h1, h2⟩ := ih hrest
        simp only [List.length_cons]
        exact ⟨by omega, fun he => by omega⟩
      · rw [if_neg hzero] at hrest
        obtain ⟨h1, h2⟩ := ih hrest
        simp only [List.length_cons]
        refine ⟨by omega, fun he i hi => ?_⟩
        rcases List.mem_cons.mp hi with rfl | hi
        · exact ⟨hash, hhash, by omega, hint⟩
        · exact h2 (by omega) i hi
    · cases hn

theorem utxoCheckLoop_of_owned {publicKey : String} {inputs : List Input} (isTExist : Bool)
    (count : Nat) {t : Tables} (h : ∀ input ∈ inputs, Owned t.utxos publicKey input) :
    (utxoCheckLoop publicKey inputs isTExist count).run perform t =
      (.ok (isTExist, count + inputs.length), t) := by
  induction inputs generalizing isTExist count with
  | nil => rfl
  | cons input inputs ih =>
    obtain ⟨hash, hhash, hpos, hint⟩ := h input List.mem_cons_self
    have hn : Integer.valueOf (String.ofList (intDigits (countOfHash t.utxos hash publicKey))) =
        some (countOfHash t.utxos hash publicKey : Int) := by rw [valueOf_count, if_pos hint]
    simp only [utxoCheckLoop, hhash, Prog.orFail_some, Prog.ret_bind, Prog.query_bind, Prog.run_ask]
    simp only [perform, Option.bind_some, hn, Prog.orFail_some, Prog.ret_bind]
    rw [if_neg (by omega), ih isTExist (count + 1) fun i hi => h i (List.mem_cons_of_mem _ hi)]
    simp only [List.length_cons, Prod.mk.injEq, Except.ok.injEq, true_and, and_true]
    omega

/-- **`utxoCheck`** accepts exactly if every input is an unspent row of the sender. -/
theorem utxoCheck_eq_true {publicKey : List UInt8} {inputs : List Input} {t : Tables} :
    (utxoCheck publicKey inputs).run perform t = (.ok true, t) ↔
      ∀ input ∈ inputs, Owned t.utxos (encodeHexString publicKey) input := by
  constructor
  · intro h
    unfold utxoCheck at h
    rw [Prog.run_bind_eq_ok] at h
    obtain ⟨r, t₁, hloop, hr⟩ := h
    obtain ⟨-, hall⟩ := utxoCheckLoop_ok hloop
    apply hall
    by_contra hne
    simp only [Prog.run_ret, Prod.mk.injEq, Except.ok.injEq] at hr
    rw [if_pos (by omega)] at hr
    exact absurd hr.1 (by decide)
  · intro h
    unfold utxoCheck
    rw [Prog.run_bind_ok _ (utxoCheckLoop_of_owned true 0 h)]
    simp

/-- The decimals read for `inputs` add up to `sum`. -/
def InputSum (us : List Utxo) (inputs : List Input) (acc sum : BigDecimal) : Prop :=
  ∃ ds : List BigDecimal, inputs.map (inputDecimal us) = ds.map some ∧
    BigDecimal.sumFrom acc ds = some sum

def OutputSum (outputs : List Output) (acc value : BigDecimal) : Prop :=
  ∃ ds : List BigDecimal, outputs.map outputDecimal = ds.map some ∧
    BigDecimal.sumFrom acc ds = some value

theorem sumInputs_eq_ok {inputs : List Input} {acc sum : BigDecimal} {t : Tables} :
    (sumInputs inputs acc).run perform t = (.ok sum, t) ↔ InputSum t.utxos inputs acc sum := by
  induction inputs generalizing acc with
  | nil =>
    constructor
    · intro h
      cases h
      exact ⟨[], rfl, rfl⟩
    · rintro ⟨ds, hds, hsum⟩
      cases ds with
      | nil => cases hsum; rfl
      | cons d ds => cases hds
  | cons input inputs ih =>
    simp only [sumInputs, Prog.run_orFail_bind_eq_ok, Prog.query_bind, Prog.run_ask, perform]
    constructor
    · rintro ⟨hash, hhash, s, hs, d, hd, acc', hadd, hrest⟩
      obtain ⟨ds, hds, hsum⟩ := ih.mp hrest
      refine ⟨d :: ds, ?_, ?_⟩
      · rw [List.map_cons, List.map_cons, hds, inputDecimal, hhash, Option.bind_some, hs,
          Option.bind_some, hd]
      · rw [BigDecimal.sumFrom, hadd]; exact hsum
    · rintro ⟨ds, hds, hsum⟩
      cases ds with
      | nil => cases hds
      | cons d ds =>
        simp only [List.map_cons, List.cons.injEq, inputDecimal, Option.bind_eq_some_iff] at hds
        obtain ⟨⟨hash, hhash, s, hs, hd⟩, hds⟩ := hds
        simp only [BigDecimal.sumFrom, Option.bind_eq_some_iff] at hsum
        obtain ⟨acc', hadd, hsum⟩ := hsum
        exact ⟨hash, hhash, s, hs, d, hd, acc', hadd, ih.mpr ⟨ds, hds, hsum⟩⟩

theorem sumOutputs_eq_ok {outputs : List Output} {acc value : BigDecimal} {t : Tables} :
    (sumOutputs outputs acc).run perform t = (.ok value, t) ↔ OutputSum outputs acc value := by
  induction outputs generalizing acc with
  | nil =>
    constructor
    · intro h
      cases h
      exact ⟨[], rfl, rfl⟩
    · rintro ⟨ds, hds, hsum⟩
      cases ds with
      | nil => cases hsum; rfl
      | cons d ds => cases hds
  | cons output outputs ih =>
    simp only [sumOutputs, Prog.run_orFail_bind_eq_ok]
    constructor
    · rintro ⟨s, hs, d, hd, acc', hadd, hrest⟩
      obtain ⟨ds, hds, hsum⟩ := ih.mp hrest
      refine ⟨d :: ds, ?_, ?_⟩
      · rw [List.map_cons, List.map_cons, hds, outputDecimal, hs, Option.bind_some, hd]
      · rw [BigDecimal.sumFrom, hadd]; exact hsum
    · rintro ⟨ds, hds, hsum⟩
      cases ds with
      | nil => cases hds
      | cons d ds =>
        simp only [List.map_cons, List.cons.injEq, outputDecimal, Option.bind_eq_some_iff] at hds
        obtain ⟨⟨s, hs, hd⟩, hds⟩ := hds
        simp only [BigDecimal.sumFrom, Option.bind_eq_some_iff] at hsum
        obtain ⟨acc', hadd, hsum⟩ := hsum
        exact ⟨s, hs, d, hd, acc', hadd, ih.mpr ⟨ds, hds, hsum⟩⟩

/-- **`valueCheck`** returns the comparison and the text of the difference of the two sums. -/
theorem valueCheck_eq_ok {inputs : List Input} {outputs : List Output} {t : Tables}
    {r : Bool × String} :
    (valueCheck inputs outputs).run perform t = (.ok r, t) ↔
      ∃ sum value remain, InputSum t.utxos inputs .zero sum ∧ OutputSum outputs .zero value ∧
        sum.subtract value = some remain ∧
        r = (decide (sum.compareTo value ≠ .lt), remain.toString) := by
  unfold valueCheck
  constructor
  · intro h
    rw [Prog.run_bind_eq_ok] at h
    obtain ⟨sum, t₁, hsum, h⟩ := h
    have ht₁ : t₁ = t := by
      rw [← Prog.run_readOnly perform perform_read (uses_sumInputs (fun _ => trivial) inputs .zero) t, hsum]
    subst ht₁
    rw [Prog.run_bind_eq_ok] at h
    obtain ⟨value, t₂, hvalue, h⟩ := h
    have ht₂ : t₂ = t₁ := by
      rw [← Prog.run_readOnly perform perform_read (uses_sumOutputs _ outputs .zero) t₁, hvalue]
    subst ht₂
    rw [Prog.run_orFail_bind_eq_ok] at h
    obtain ⟨remain, hremain, h⟩ := h
    simp only [Prog.run_ret, Prod.mk.injEq, Except.ok.injEq, and_true] at h
    exact ⟨sum, value, remain, sumInputs_eq_ok.mp hsum, sumOutputs_eq_ok.mp hvalue, hremain, h.symm⟩
  · rintro ⟨sum, value, remain, hsum, hvalue, hremain, rfl⟩
    rw [Prog.run_bind_ok _ (sumInputs_eq_ok.mpr hsum), Prog.run_bind_ok _ (sumOutputs_eq_ok.mpr hvalue),
      hremain]
    rfl

/-- The request passes all checks of the tables' rows `us`: its inputs are worth `sum`, its
outputs `value`, and `remain` is left. -/
structure Passes (env : Env) (us : List Utxo) (req : Request) (publicKey : List UInt8)
    (sum value remain : BigDecimal) : Prop where
  key : decodeHex req.message.publicKey = some publicKey
  signed : signCheck env req.signature (env.toJSONString req.message) publicKey = true
  owned : ∀ input ∈ req.message.inputs, Owned us (encodeHexString publicKey) input
  inputs : InputSum us req.message.inputs .zero sum
  outputs : OutputSum req.message.outputs .zero value
  covers : sum.compareTo value ≠ .lt
  remains : sum.subtract value = some remain

/-- Some sums witness that the request passes. -/
def Accepts (env : Env) (us : List Utxo) (req : Request) : Prop :=
  ∃ publicKey sum value remain, Passes env us req publicKey sum value remain

/-- **The three checks together** are `Passes`. -/
theorem txValidationCheck_valid {env : Env} {req : Request} {publicKey : List UInt8} {t : Tables}
    {remainVal : String} (hkey : decodeHex req.message.publicKey = some publicKey) :
    (txValidationCheck env req.signature (env.toJSONString req.message) publicKey
        req.message.inputs req.message.outputs).run perform t = (.ok ⟨true, remainVal⟩, t) ↔
      ∃ sum value remain, Passes env t.utxos req publicKey sum value remain ∧
        remainVal = remain.toString := by
  unfold txValidationCheck
  constructor
  · intro h
    rw [Prog.run_bind_eq_ok] at h
    obtain ⟨isTExist, t₁, hexist, h⟩ := h
    have ht₁ : t₁ = t := by
      rw [← Prog.run_readOnly perform perform_read (uses_utxoCheck publicKey req.message.inputs) t,
        hexist]
    subst ht₁
    rw [Prog.run_bind_eq_ok] at h
    obtain ⟨r, t₂, hvalue, h⟩ := h
    have ht₂ : t₂ = t₁ := by
      rw [← Prog.run_readOnly perform perform_read
        (uses_valueCheck (fun _ => trivial) req.message.inputs req.message.outputs) t₁, hvalue]
    subst ht₂
    obtain ⟨sum, value, remain, hsum, hval, hremain, rfl⟩ := valueCheck_eq_ok.mp hvalue
    simp only [Prog.run_ret, Prod.mk.injEq, Except.ok.injEq, Validation.mk.injEq,
      Bool.and_eq_true, decide_eq_true_eq, and_true] at h
    obtain ⟨⟨⟨hsigned, htrue⟩, hcovers⟩, hrem⟩ := h
    subst htrue
    exact ⟨sum, value, remain,
      ⟨hkey, hsigned, utxoCheck_eq_true.mp hexist, hsum, hval, hcovers, hremain⟩, hrem.symm⟩
  · rintro ⟨sum, value, remain, hp, rfl⟩
    rw [Prog.run_bind_ok _ (utxoCheck_eq_true.mpr hp.owned),
      Prog.run_bind_ok _ (valueCheck_eq_ok.mpr
        ⟨sum, value, remain, hp.inputs, hp.outputs, hp.remains, rfl⟩)]
    simp [hp.signed, hp.covers]

end MoaCrypto.Transaction
