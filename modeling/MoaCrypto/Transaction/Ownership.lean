import MoaCrypto.Transaction.Serial

/-!
# Who spends a row

In any interleaving of any requests, raced or not, a row changes only by a request that is signed
under the key of the row and names it (`spent_by_owner`): the count that finds the row asks for the
sender's own key, and nothing is written before the signature has been verified.

A request that only finds a row of its own marks all rows of the name, so the names are assumed to be
distinct.
-/

namespace MoaCrypto.Transaction

open Java QueryProg

/-- The key under which the server counts the inputs of the request. -/
def keyOf (req : Request) : Option String := (decodeHex req.message.publicKey).map encodeHexString

section

variable (env : Env)

/-- The signature of the request verifies under its key. -/
def Signed (req : Request) : Prop :=
  ∃ publicKey, decodeHex req.message.publicKey = some publicKey ∧
    signCheck env req.signature (env.toJSONString req.message) publicKey = true

/-- What a request may ask: it counts rows under its own key, and what it writes it has signed. -/
def Entitled (req : Request) : Query → Prop
  | .insertTransaction _ _ => Signed env req
  | .updateUTXO _ hash => Signed env req ∧ hash ∈ inputHashes req.message.inputs
  | .insertUTXO _ _ _ _ _ => Signed env req
  | .selectCountOfHash _ publicKey => keyOf req = some publicKey
  | .selectValue _ => True

end

/-! ## One request -/

theorem counts_utxoCheckLoop {allowed : Query → Prop} {publicKey : String}
    (h : ∀ hash, allowed (.selectCountOfHash hash publicKey)) (inputs : List Input) (isTExist : Bool)
    (count : Nat) : Prog.Uses allowed (utxoCheckLoop publicKey inputs isTExist count) := by
  induction inputs generalizing isTExist count with
  | nil => trivial
  | cons input inputs ih =>
    apply Prog.Uses.bind (Prog.Uses.orFail _ _)
    intro hash
    apply Prog.Uses.bind (Prog.Uses.query (h hash))
    intro hasValue
    apply Prog.Uses.bind (Prog.Uses.orFail _ _)
    intro n
    split
    · exact ih _ _
    · exact ih _ _

/-- A program that asks only what is allowed, under the monitor that sees nothing. -/
theorem follows_of_uses {ρ : Type} {allowed : Query → Prop} {p : TableProg ρ}
    (hp : Prog.Uses allowed p) :
    Prog.Follows (fun _ : Unit => allowed) (fun _ _ _ => ()) (fun _ _ => True) () p :=
  (Prog.Follows.of_uses () (fun _ hq => ⟨hq, fun _ => rfl⟩) hp).mono fun _ _ _ => trivial

/-- **Signed under its key.**  Whatever the queries are answered, a request writes only if its
signature verifies, and marks only rows that it names. -/
theorem follows_entitled (env : Env) (req : Request) :
    Prog.Follows (fun _ : Unit => Entitled env req) (fun _ _ _ => ()) (fun _ _ => True) ()
      (receiveFromClient env req) := by
  unfold receiveFromClient
  cases hkey : decodeHex req.message.publicKey with
  | none => trivial
  | some publicKey =>
    rw [Prog.orFail_some, Prog.ret_bind]
    have hcount : ∀ hash, Entitled env req (.selectCountOfHash hash (encodeHexString publicKey)) := by
      intro hash
      show (decodeHex req.message.publicKey).map encodeHexString = _
      rw [hkey, Option.map_some]
    have hexist : Prog.Uses (Entitled env req) (utxoCheck publicKey req.message.inputs) := by
      apply Prog.Uses.bind (counts_utxoCheckLoop hcount _ _ _)
      intro r
      trivial
    have hvalidation : Prog.Follows (fun _ : Unit => Entitled env req) (fun _ _ _ => ())
        (fun _ r => ∀ v, r = .ok v → v.isValid = true → Signed env req) ()
        (txValidationCheck env req.signature (env.toJSONString req.message) publicKey
          req.message.inputs req.message.outputs) := by
      apply (follows_of_uses hexist).bind
      · intro _ isTExist _
        apply (follows_of_uses (uses_valueCheck (fun _ => trivial) _ _)).bind
        · rintro _ ⟨isTValue, remainVal⟩ _ v hv hvalid
          cases hv
          simp only [Bool.and_eq_true] at hvalid
          exact ⟨publicKey, hkey, hvalid.1.1⟩
        · intro _ e _ v hv
          cases hv
      · intro _ e _ v hv
        cases hv
    apply hvalidation.bind
    · intro _ v hv
      by_cases hvalid : v.isValid = true
      · have hsigned := hv v rfl hvalid
        rw [if_pos hvalid]
        have hinsert (q : Query) (hq : q.IsInsert) : Entitled env req q := by
          cases q with
          | insertTransaction => cases hq
          | updateUTXO => cases hq
          | insertUTXO => exact hsigned
          | selectCountOfHash => cases hq
          | selectValue => cases hq
        apply follows_of_uses
        refine ⟨hsigned, fun _ => ?_⟩
        apply Prog.Uses.bind (uses_updateInputs _ _ fun hash hhash => ⟨hsigned, hhash⟩)
        intro _
        apply Prog.Uses.bind ((uses_insertOutputs env _ _ _).mono hinsert)
        intro _
        apply Prog.Uses.bind ((uses_insertRemain env _ _ _).mono hinsert)
        intro _
        trivial
      · rw [if_neg hvalid]
        trivial
    · intro _ e _
      trivial

/-! ## All requests together -/

section

variable {ι : Type} [DecidableEq ι] (env : Env) (req : ι → Request)

/-- The row is as it was, or a request signed under its key has marked it. -/
def OwnerOnly (u u' : Utxo) : Prop :=
  u' = u ∨ ∃ i, u' = { u with tailHashTX := txOf env req i } ∧ Signed env (req i) ∧
    keyOf (req i) = some u.publicKey ∧ u.hashUTXO ∈ inputHashes (req i).message.inputs

/-- Every thread on its monitors, and every row it has found is there, under its key. -/
structure OwnFound (c : Servers ι) : Prop where
  follow : Config.AllFollow Watch.may Watch.next (fun _ _ _ => True) (fun i => ⟨txOf env req i, []⟩) c
  entitled : ∀ i, Prog.Follows (fun _ : Unit => Entitled env (req i)) (fun _ _ _ => ())
    (fun _ _ => True) () (c.thread i)
  found : ∀ i, ∀ hash ∈ (watch env req i c.log).found, ∃ u ∈ c.store.utxos,
    u.hashUTXO = hash ∧ keyOf (req i) = some u.publicKey

variable {env req}

omit [DecidableEq ι] in
theorem OwnerOnly.trans {u v w : Utxo} (h : OwnerOnly env req u v) (h' : OwnerOnly env req v w) :
    OwnerOnly env req u w := by
  rcases h with rfl | ⟨i, rfl, hi⟩
  · exact h'
  · rcases h' with rfl | ⟨j, rfl, hj⟩
    · exact Or.inr ⟨i, rfl, hi⟩
    · exact Or.inr ⟨j, rfl, hj⟩

theorem exists_own_of_foundUnspent {us : List Utxo} {hash publicKey : String}
    (h : FoundUnspent (some (String.ofList (intDigits (countOfHash us hash publicKey))))) :
    ∃ u ∈ us, u.hashUTXO = hash ∧ u.publicKey = publicKey := by
  by_contra hnone
  have hzero : countOfHash us hash publicKey = 0 := by
    refine List.countP_eq_zero.mpr fun u hu hrow => hnone ⟨u, hu, ?_⟩
    simp only [decide_eq_true_eq] at hrow
    exact hrow.2
  rw [hzero] at h
  exact absurd h (by decide)

/-- Rows keep their names and keys, so what has been found stays. -/
theorem exists_own_spend {us : List Utxo} {TX hash hash' publicKey : String}
    (h : ∃ u ∈ us, u.hashUTXO = hash' ∧ some publicKey = some u.publicKey) :
    ∃ u ∈ us.map (Utxo.spend TX hash), u.hashUTXO = hash' ∧ some publicKey = some u.publicKey := by
  obtain ⟨u, hu, hname, hkey⟩ := h
  refine ⟨u.spend TX hash, List.mem_map.mpr ⟨u, hu, rfl⟩, ?_, ?_⟩
  · rw [spend_hashUTXO, hname]
  · rw [spend_publicKey, hkey]

/-- The rows are kept in their places, each changed by its owner at most. -/
def KeptByOwners (env : Env) (req : ι → Request) (us us' : List Utxo) : Prop :=
  ∀ (n : Nat) (u : Utxo), us[n]? = some u → ∃ u', us'[n]? = some u' ∧ OwnerOnly env req u u'

omit [DecidableEq ι] in
theorem KeptByOwners.refl (us : List Utxo) : KeptByOwners env req us us :=
  fun _ u hu => ⟨u, hu, Or.inl rfl⟩

omit [DecidableEq ι] in
theorem KeptByOwners.trans {us vs ws : List Utxo} (h : KeptByOwners env req us vs)
    (h' : KeptByOwners env req vs ws) : KeptByOwners env req us ws := by
  intro n u hu
  obtain ⟨v, hv, huv⟩ := h n u hu
  obtain ⟨w, hw, hvw⟩ := h' n v hv
  exact ⟨w, hw, huv.trans hvw⟩

/-- A thread marks a row that it has found under its own key, and the row of that name is its own. -/
theorem OwnFound.mark {c : Servers ι} (hc : OwnFound env req c) {i : ι} {TX hash : String}
    (hasks : c.Asks i (.updateUTXO TX hash)) (hnames : c.store.names.Nodup) :
    KeptByOwners env req c.store.utxos (c.store.utxos.map (Utxo.spend TX hash)) := by
  have hmay : TX = (watch env req i c.log).TX ∧ hash ∈ (watch env req i c.log).found :=
    hc.follow.allowed hasks
  obtain ⟨k, hk⟩ := hasks
  have hentitled := hc.entitled i
  rw [hk] at hentitled
  obtain ⟨⟨hsigned, hnamed⟩, -⟩ := hentitled
  obtain ⟨hTX, hfound⟩ := hmay
  rw [watch_TX] at hTX
  obtain ⟨v, hv, hname, hkey⟩ := hc.found i hash hfound
  intro n u hu
  refine ⟨u.spend TX hash, by rw [List.getElem?_map, hu, Option.map_some], ?_⟩
  by_cases hhash : u.hashUTXO = hash
  · have hown : u = v := List.inj_on_of_nodup_map hnames (List.mem_of_getElem? hu) hv
      (hhash.trans hname.symm)
    subst hown
    refine Or.inr ⟨i, ?_, hsigned, hkey, ?_⟩
    · rw [Utxo.spend, if_pos hhash, hTX]
    · rw [hhash]
      exact hnamed
  · exact Or.inl (spend_ne hhash)

/-- **Step.**  A step keeps what has been found, and changes only rows of the thread's own key. -/
theorem OwnFound.step {c : Servers ι} (hc : OwnFound env req c) (i : ι)
    (hnames : c.store.names.Nodup) :
    OwnFound env req (c.step perform i) ∧
      KeptByOwners env req c.store.utxos (c.step perform i).store.utxos := by
  have hfollow := Config.follows_step perform c i hc.follow
  rcases Config.step_cases perform c i with ⟨hsame, -⟩ | ⟨q, k, hk, hstep⟩
  · rw [hsame]
    exact ⟨hc, KeptByOwners.refl _⟩
  have hasks : c.Asks i q := ⟨k, hk⟩
  have hi := hc.entitled i
  rw [hk] at hi
  have hentitled : ∀ j, Prog.Follows (fun _ : Unit => Entitled env (req j)) (fun _ _ _ => ())
      (fun _ _ => True) () ((c.step perform i).thread j) := by
    intro j
    by_cases hij : j = i
    · subst hij
      rw [Config.step_of_ask perform hk]
      simp only [Function.update_self]
      exact hi.2 _
    · rw [Config.thread_step_ne perform c hij]
      exact hc.entitled j
  rw [hstep] at hfollow hentitled ⊢
  cases q with
  | insertTransaction TX msg =>
    refine ⟨⟨hfollow, hentitled, fun j hash hhash => ?_⟩, KeptByOwners.refl _⟩
    rw [mem_found_cons] at hhash
    exact hc.found j hash (hhash.resolve_left fun h => by cases h.2)
  | selectValue hash' =>
    refine ⟨⟨hfollow, hentitled, fun j hash hhash => ?_⟩, KeptByOwners.refl _⟩
    rw [mem_found_cons] at hhash
    exact hc.found j hash (hhash.resolve_left fun h => by cases h.2)
  | selectCountOfHash hash' publicKey =>
    refine ⟨⟨hfollow, hentitled, fun j hash hhash => ?_⟩, KeptByOwners.refl _⟩
    rw [mem_found_cons] at hhash
    rcases hhash with ⟨rfl, hfound⟩ | hold
    · rw [foundHash] at hfound
      split at hfound
      next hf =>
        obtain ⟨u, hu, hname, hkey⟩ := exists_own_of_foundUnspent hf
        cases hfound
        exact ⟨u, hu, hname, by rw [hkey]; exact hi.1⟩
      next => cases hfound
    · exact hc.found j hash hold
  | updateUTXO TX hash' =>
    refine ⟨⟨hfollow, hentitled, fun j hash hhash => ?_⟩, hc.mark hasks hnames⟩
    rw [mem_found_cons] at hhash
    obtain ⟨u, hu, hname, hkey⟩ := hc.found j hash (hhash.resolve_left fun h => by cases h.2)
    rw [hkey]
    exact exists_own_spend ⟨u, hu, hname, rfl⟩
  | insertUTXO hash' value publicKey TX index =>
    refine ⟨⟨hfollow, hentitled, fun j hash hhash => ?_⟩, ?_⟩
    · rw [mem_found_cons] at hhash
      obtain ⟨u, hu, hrow⟩ := hc.found j hash (hhash.resolve_left fun h => by cases h.2)
      exact ⟨u, List.mem_append_left _ hu, hrow⟩
    · intro n u hu
      obtain ⟨hlt, -⟩ := List.getElem?_eq_some_iff.mp hu
      exact ⟨u, (List.getElem?_append_left hlt).trans hu, Or.inl rfl⟩

/-- No step takes a name away, so the names are distinct before as well. -/
theorem nodup_names_of_exec {c : Servers ι} {sched : List ι}
    (h : (c.exec perform sched).store.names.Nodup) : c.store.names.Nodup := by
  induction sched generalizing c with
  | nil => exact h
  | cons i sched ih =>
    have hnext : (c.step perform i).store.names.Nodup := ih h
    rcases Config.step_cases perform c i with ⟨hsame, -⟩ | ⟨q, k, hk, -⟩
    · rwa [hsame] at hnext
    · rw [Config.store_step perform hk] at hnext
      cases hq : q.selects with
      | true => rwa [tableAccess_lawful.read q _ hq] at hnext
      | false => exact tableAccess_lawful.sound_of_write q _ hq hnext

theorem OwnFound.exec {c : Servers ι} (hc : OwnFound env req c) {sched : List ι}
    (hnames : (c.exec perform sched).store.names.Nodup) :
    OwnFound env req (c.exec perform sched) ∧
      KeptByOwners env req c.store.utxos (c.exec perform sched).store.utxos := by
  induction sched generalizing c with
  | nil => exact ⟨hc, KeptByOwners.refl _⟩
  | cons i sched ih =>
    obtain ⟨hstep, hkept⟩ := hc.step i (nodup_names_of_exec hnames)
    obtain ⟨hrest, hkept'⟩ := ih hstep hnames
    exact ⟨hrest, hkept.trans hkept'⟩

theorem ownFound_start (t : Tables) : OwnFound env req (startAll env req t) where
  follow i := follows_receiveFromClient env (req i)
  entitled i := follows_entitled env (req i)
  found _ _ hhash := absurd hhash List.not_mem_nil

end

/-- **Only the owner spends.**  From any point of any interleaving to its end, every row stays as it
is, or it has been marked by a request whose signature verifies under the key of the row and which
names the row. -/
theorem spent_by_owner {ι : Type} [DecidableEq ι] (env : Env) (req : ι → Request) (t : Tables)
    (before after : List ι)
    (hnames : ((startAll env req t).exec perform (before ++ after)).store.names.Nodup) :
    KeptByOwners env req ((startAll env req t).exec perform before).store.utxos
      ((startAll env req t).exec perform (before ++ after)).store.utxos := by
  have hsplit : (startAll env req t).exec perform (before ++ after) =
      ((startAll env req t).exec perform before).exec perform after := StepRun.run_append _ _ _ _
  rw [hsplit] at hnames ⊢
  have hmid := ((ownFound_start t).exec (nodup_names_of_exec hnames)).1
  exact (hmid.exec hnames).2

theorem spent_by_owner_rivals :
    KeptByOwners openEnv rivals ((startAll openEnv rivals ⟨[], [coin "c1" "5"]⟩).exec perform
        [false, true, false]).store.utxos
      ((startAll openEnv rivals ⟨[], [coin "c1" "5"]⟩).exec perform
        ([false, true, false] ++ [true, false, true, false, true, false, true])).store.utxos :=
  spent_by_owner openEnv rivals ⟨[], [coin "c1" "5"]⟩ [false, true, false]
    [true, false, true, false, true, false, true] (by decide +kernel)

end MoaCrypto.Transaction
