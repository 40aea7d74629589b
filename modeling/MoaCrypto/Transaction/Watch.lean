import MoaCrypto.Transaction.Checks

/-!
# One request under observation

A monitor keeps the hashes that a request's thread has found unspent.  Whatever the queries are
answered, the request marks no others (`follows_receiveFromClient`): this is what it can rely on
when other requests step between its queries.
-/

namespace MoaCrypto.Transaction

open Java QueryProg

/-! ## The monitor -/

/-- The transaction a request stands for and the hashes its thread has found unspent. -/
structure Watch where
  TX : String
  found : List String

/-- A count has found an unspent row. -/
def FoundUnspent (hasValue : Option String) : Prop :=
  ∃ n, hasValue.bind Integer.valueOf = some n ∧ n ≠ 0

instance (hasValue : Option String) : Decidable (FoundUnspent hasValue) :=
  match h : hasValue.bind Integer.valueOf with
  | none => isFalse fun ⟨n, hn, _⟩ => by rw [h] at hn; cases hn
  | some n => if hn : n = 0 then isFalse fun ⟨n', hn', hne⟩ => by rw [h] at hn'; cases hn'; exact hne hn
    else isTrue ⟨n, h, hn⟩

theorem not_foundUnspent {hasValue : Option String}
    (h : hasValue.bind Integer.valueOf = none) : ¬ FoundUnspent hasValue := by
  rintro ⟨n, hn, -⟩
  rw [h] at hn
  cases hn

theorem foundUnspent_iff {hasValue : Option String} {n : Int}
    (h : hasValue.bind Integer.valueOf = some n) : FoundUnspent hasValue ↔ n ≠ 0 := by
  constructor
  · rintro ⟨n', hn', hne⟩
    rw [h] at hn'
    cases hn'
    exact hne
  · exact fun hne => ⟨n, h, hne⟩

def Watch.may (w : Watch) : Query → Prop
  | .insertTransaction _ _ => True
  | .updateUTXO TX hash => TX = w.TX ∧ hash ∈ w.found
  | .insertUTXO _ _ _ _ _ => True
  | .selectCountOfHash _ _ => True
  | .selectValue _ => True

def Watch.next (w : Watch) : (q : Query) → Answer q → Watch
  | .insertTransaction _ _, _ => w
  | .updateUTXO _ _, _ => w
  | .insertUTXO _ _ _ _ _, _ => w
  | .selectCountOfHash hash _, hasValue =>
    if FoundUnspent hasValue then { w with found := hash :: w.found } else w
  | .selectValue _, _ => w

/-- The monitor has moved on from `w`, with all hashes of `inputs` found. -/
def Watch.Covers (w w' : Watch) (inputs : List Input) : Prop :=
  w'.TX = w.TX ∧ (∀ hash ∈ w.found, hash ∈ w'.found) ∧
    ∀ input ∈ inputs, ∀ hash, input.hashUTXO = some hash → hash ∈ w'.found

/-! ## What a request marks -/

/-- The loop of `utxoCheck` counts at most all inputs, and all only if each was found. -/
theorem follows_utxoCheckLoop (publicKey : String) (inputs : List Input) (isTExist : Bool)
    (count : Nat) (w : Watch) :
    Prog.Follows Watch.may Watch.next
      (fun w' r => w'.TX = w.TX ∧ (∀ hash ∈ w.found, hash ∈ w'.found) ∧
        ∀ v, r = .ok v → v.2 ≤ count + inputs.length ∧
          (v.2 = count + inputs.length → w.Covers w' inputs))
      w (utxoCheckLoop publicKey inputs isTExist count) := by
  induction inputs generalizing isTExist count w with
  | nil =>
    refine ⟨rfl, fun _ h => h, ?_⟩
    intro v hv
    cases hv
    exact ⟨le_refl _, fun _ => ⟨rfl, fun _ h => h, fun i hi => absurd hi List.not_mem_nil⟩⟩
  | cons input inputs ih =>
    unfold utxoCheckLoop
    cases hhash : input.hashUTXO with
    | none => exact ⟨rfl, fun _ h => h, fun v hv => by cases hv⟩
    | some hash =>
      simp only [Prog.orFail_some, Prog.ret_bind, Prog.query_bind]
      refine ⟨trivial, fun hasValue => ?_⟩
      beta_reduce
      cases hn : Option.bind hasValue Integer.valueOf with
      | none =>
        have hmiss : ¬ FoundUnspent hasValue := not_foundUnspent hn
        refine ⟨?_, ?_, fun v hv => by cases hv⟩
        · simp only [Watch.next, if_neg hmiss]
        · intro h hh
          simpa only [Watch.next, if_neg hmiss] using hh
      | some n =>
        rw [Prog.orFail_some, Prog.ret_bind]
        by_cases hzero : n = 0
        · have hmiss : ¬ FoundUnspent hasValue := by
            rw [foundUnspent_iff hn]
            exact fun hne => hne hzero
          rw [if_pos hzero]
          simp only [Watch.next, if_neg hmiss]
          apply (ih false count w).mono
          rintro w' r ⟨hTX, hfound, hr⟩
          refine ⟨hTX, hfound, fun v hv => ?_⟩
          obtain ⟨h1, -⟩ := hr v hv
          simp only [List.length_cons]
          exact ⟨by omega, fun he => by omega⟩
        · have hhit : FoundUnspent hasValue := (foundUnspent_iff hn).mpr hzero
          rw [if_neg hzero]
          simp only [Watch.next, if_pos hhit]
          apply (ih isTExist (count + 1) { w with found := hash :: w.found }).mono
          rintro w' r ⟨hTX, hfound, hr⟩
          refine ⟨hTX, fun h hh => hfound h (List.mem_cons_of_mem _ hh), fun v hv => ?_⟩
          obtain ⟨h1, h2⟩ := hr v hv
          simp only [List.length_cons]
          refine ⟨by omega, fun he => ?_⟩
          obtain ⟨-, -, hall⟩ := h2 (by omega)
          refine ⟨hTX, fun h hh => hfound h (List.mem_cons_of_mem _ hh), ?_⟩
          intro i hi h hh
          rcases List.mem_cons.mp hi with rfl | hi
          · rw [hhash] at hh
            cases hh
            exact hfound _ List.mem_cons_self
          · exact hall i hi h hh

theorem follows_utxoCheck (publicKey : List UInt8) (inputs : List Input) (w : Watch) :
    Prog.Follows Watch.may Watch.next (fun w' r => r = .ok true → w.Covers w' inputs) w
      (utxoCheck publicKey inputs) := by
  apply (follows_utxoCheckLoop (encodeHexString publicKey) inputs true 0 w).bind
  · rintro w' ⟨isTExist, count⟩ ⟨-, -, hr⟩ htrue
    obtain ⟨-, hall⟩ := hr _ rfl
    apply hall
    by_contra hne
    simp only [Except.ok.injEq] at htrue
    rw [if_pos (by simp only at hne; omega)] at htrue
    cases htrue
  · intro w' e _ h
    cases h

/-- A request that is valid has found all its inputs. -/
theorem follows_txValidationCheck (env : Env) (signature msg : String) (publicKey : List UInt8)
    (inputs : List Input) (outputs : List Output) (w : Watch) :
    Prog.Follows Watch.may Watch.next
      (fun w' r => ∀ v, r = .ok v → v.isValid = true → w.Covers w' inputs) w
      (txValidationCheck env signature msg publicKey inputs outputs) := by
  apply (follows_utxoCheck publicKey inputs w).bind
  · intro w' isTExist hexist
    have hselect (q : Query) (hq : ∃ hash, q = .selectValue hash) :
        w'.may q ∧ ∀ a, w'.next q a = w' := by
      obtain ⟨hash, rfl⟩ := hq
      exact ⟨trivial, fun _ => rfl⟩
    have hvalue := Prog.Follows.of_uses w' hselect
      (uses_valueCheck (fun hash => ⟨hash, rfl⟩) inputs outputs)
    apply hvalue.bind
    · rintro w'' r rfl v hv hvalid
      cases hv
      simp only [Bool.and_eq_true] at hvalid
      apply hexist
      rw [hvalid.1.2]
    · rintro w'' e - v hv
      cases hv
  · intro w' e _ v hv
    cases hv

theorem follows_updateInputs (TX : String) (inputs : List Input) (w : Watch) (hTX : TX = w.TX)
    (h : ∀ input ∈ inputs, ∀ hash, input.hashUTXO = some hash → hash ∈ w.found) :
    Prog.Follows Watch.may Watch.next (fun w' _ => w' = w) w (updateInputs TX inputs) := by
  induction inputs with
  | nil => exact rfl
  | cons input inputs ih =>
    unfold updateInputs
    cases hhash : input.hashUTXO with
    | none => exact rfl
    | some hash =>
      refine ⟨⟨hTX, h input List.mem_cons_self hash hhash⟩, fun _ => ?_⟩
      exact ih fun i hi => h i (List.mem_cons_of_mem _ hi)

def Query.IsInsert : Query → Prop
  | .insertUTXO _ _ _ _ _ => True
  | _ => False

theorem uses_insertOutputs (env : Env) (TX : String) (i : Nat) (outputs : List Output) :
    Prog.Uses Query.IsInsert (insertOutputs env TX i outputs) := by
  induction outputs generalizing i with
  | nil => trivial
  | cons output outputs ih =>
    apply Prog.Uses.bind (Prog.Uses.orFail _ _)
    intro val
    apply Prog.Uses.bind (Prog.Uses.orFail _ _)
    intro dstPublic
    apply Prog.Uses.bind (Prog.Uses.query trivial)
    intro _
    exact ih (i + 1)

theorem uses_insertRemain (env : Env) (TX srcPublic remainVal : String) :
    Prog.Uses Query.IsInsert (insertRemain env TX srcPublic remainVal) := by
  apply Prog.Uses.bind (Prog.Uses.orFail _ _)
  intro n
  split
  · exact Prog.Uses.query trivial
  · trivial

/-- **A request marks only what it found.**  Whatever the queries are answered, every update
names a hash that the request's own count found unspent before, and its own transaction. -/
theorem follows_receiveFromClient (env : Env) (req : Request) :
    Prog.Follows Watch.may Watch.next (fun _ _ => True)
      ⟨hashHex env (env.toJSONString req.message), []⟩ (receiveFromClient env req) := by
  unfold receiveFromClient
  cases decodeHex req.message.publicKey with
  | none => trivial
  | some publicKey =>
    apply (follows_txValidationCheck env _ _ publicKey _ _ _).bind
    · intro w v hv
      by_cases hvalid : v.isValid = true
      · rw [if_pos hvalid]
        obtain ⟨hTX, -, hall⟩ := hv v rfl hvalid
        refine ⟨trivial, fun _ => ?_⟩
        apply (follows_updateInputs _ req.message.inputs w hTX.symm hall).bind
        · rintro w' - rfl
          have hinsert (q : Query) (hq : q.IsInsert) :
              w'.may q ∧ ∀ a, w'.next q a = w' := by
            cases q with
            | insertUTXO => exact ⟨trivial, fun _ => rfl⟩
            | insertTransaction => cases hq
            | updateUTXO => cases hq
            | selectCountOfHash => cases hq
            | selectValue => cases hq
          apply (Prog.Follows.of_uses w' hinsert (uses_insertOutputs env _ 1 _)).bind
          · rintro w'' - rfl
            apply (Prog.Follows.of_uses w'' hinsert (uses_insertRemain env _ _ _)).bind
            · intro _ _ _
              trivial
            · intro _ _ _
              trivial
          · intro _ _ _
            trivial
        · intro _ _ _
          trivial
      · rw [if_neg hvalid]
        trivial
    · intro _ _ _
      trivial

end MoaCrypto.Transaction
