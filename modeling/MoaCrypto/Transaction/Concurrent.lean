import MoaCrypto.Transaction.Watch
import MoaCrypto.Transaction.Worth
import MoaCrypto.Lib.Interleave

/-!
# Concurrent requests

Requests run as threads that share the tables; a query is one atomic step, and
between the count that finds a row unspent and the update that marks it other
threads may step.  If one of them marks the row in that time, it is spent twice.

`no_double_spend` shows that this is the only way: in every interleaving in which
no request marks a row that another has marked since it counted the row itself
(and no digest collides with the name of a spent row), every hash is marked by one
request only, and a row once spent never changes again.

The proof follows each thread by its monitor (`follows_receiveFromClient`) and carries
`Inv` along the schedule, one lemma for each kind of query.
-/

namespace MoaCrypto.Transaction

open Java QueryProg

/-! ## All requests together -/

abbrev TableEvent (ι : Type) := Event ι Query Answer

abbrev Servers (ι : Type) := Config ι Answer TxException String Tables

section

variable {ι : Type}

/-- The hash whose rows the event marks. -/
def markedHash (e : TableEvent ι) : Option String :=
  match e with
  | ⟨_, .updateUTXO _ hash, _⟩ => some hash
  | _ => none

/-- The hash the event finds an unspent row of. -/
def foundHash (e : TableEvent ι) : Option String :=
  match e with
  | ⟨_, .selectCountOfHash hash _, hasValue⟩ => if FoundUnspent hasValue then some hash else none
  | _ => none

/-- Thread `i` has marked the rows of the hash. -/
def Marked (log : List (TableEvent ι)) (i : ι) (hash : String) : Prop :=
  ∃ e ∈ log, e.thread = i ∧ markedHash e = some hash

/-- Another thread has marked the rows of the hash since thread `i` last found one unspent. -/
def Raced (i : ι) (hash : String) : List (TableEvent ι) → Prop
  | [] => False
  | e :: log =>
    (e.thread ≠ i ∧ markedHash e = some hash) ∨
      (¬ (e.thread = i ∧ foundHash e = some hash) ∧ Raced i hash log)

instance Raced.decidable [DecidableEq ι] (i : ι) (hash : String) :
    (log : List (TableEvent ι)) → Decidable (Raced i hash log)
  | [] => isFalse id
  | e :: log =>
    have := Raced.decidable i hash log
    inferInstanceAs (Decidable ((e.thread ≠ i ∧ markedHash e = some hash) ∨
      (¬ (e.thread = i ∧ foundHash e = some hash) ∧ Raced i hash log)))

/-- The step of thread `i` is no race: it marks no row that another thread has marked since
thread `i` found it, and inserts no row under the name of a spent one. -/
def Orderly (c : Servers ι) (i : ι) : Prop :=
  match c.thread i with
  | .ask (.updateUTXO _ hash) _ => ¬ Raced i hash c.log
  | .ask (.insertUTXO hash _ _ _ _) _ => ∀ u ∈ c.store.utxos, u.hashUTXO = hash → u.Unspent
  | _ => True

instance Orderly.decidable [DecidableEq ι] (c : Servers ι) (i : ι) : Decidable (Orderly c i) :=
  match hk : c.thread i with
  | .ret _ => isTrue (by simp only [Orderly, hk])
  | .fail _ => isTrue (by simp only [Orderly, hk])
  | .ask (.insertTransaction _ _) _ => isTrue (by simp only [Orderly, hk])
  | .ask (.selectCountOfHash _ _) _ => isTrue (by simp only [Orderly, hk])
  | .ask (.selectValue _) _ => isTrue (by simp only [Orderly, hk])
  | .ask (.updateUTXO _ hash) _ =>
    decidable_of_iff (¬ Raced i hash c.log) (by simp only [Orderly, hk])
  | .ask (.insertUTXO hash _ _ _ _) _ =>
    decidable_of_iff (∀ u ∈ c.store.utxos, u.hashUTXO = hash → u.Unspent)
      (by simp only [Orderly, hk])

theorem marked_cons {e : TableEvent ι} {log : List (TableEvent ι)} {i : ι} {hash : String} :
    Marked (e :: log) i hash ↔ (e.thread = i ∧ markedHash e = some hash) ∨ Marked log i hash := by
  constructor
  · rintro ⟨e', he', h⟩
    rcases List.mem_cons.mp he' with rfl | he'
    · exact Or.inl h
    · exact Or.inr ⟨e', he', h⟩
  · rintro (h | ⟨e', he', h⟩)
    · exact ⟨e, List.mem_cons_self, h⟩
    · exact ⟨e', List.mem_cons_of_mem _ he', h⟩

/-- Rows of one hash are all spent or all unspent. -/
def Coherent (us : List Utxo) : Prop :=
  ∀ u ∈ us, ∀ v ∈ us, u.hashUTXO = v.hashUTXO → u.Unspent → v.Unspent

theorem coherent_singleton (u : Utxo) : Coherent [u] := by
  intro v hv w hw _ hun
  rw [List.mem_singleton] at hv hw
  rw [hw, ← hv]
  exact hun

/-- Spent rows are still where and as they were. -/
def KeepsSpent (us us' : List Utxo) : Prop :=
  ∀ (n : Nat) (u : Utxo), us[n]? = some u → ¬ u.Unspent → us'[n]? = some u

theorem KeepsSpent.append (us vs : List Utxo) : KeepsSpent us (us ++ vs) := by
  intro n u hu _
  obtain ⟨hlt, -⟩ := List.getElem?_eq_some_iff.mp hu
  rw [List.getElem?_append_left hlt]
  exact hu

theorem KeepsSpent.trans {us vs ws : List Utxo} (h₁ : KeepsSpent us vs) (h₂ : KeepsSpent vs ws) :
    KeepsSpent us ws := fun n u hu hs => h₂ n u (h₁ n u hu hs) hs

variable [DecidableEq ι] (env : Env) (req : ι → Request)

/-- The transaction that thread `i` commits. -/
def txOf (i : ι) : String := hashHex env (env.toJSONString (req i).message)

def watch (i : ι) (log : List (TableEvent ι)) : Watch :=
  Config.track Watch.next ⟨txOf env req i, []⟩ i log

/-- Every request about to be served. -/
def startAll (t : Tables) : Servers ι := Config.start t fun i => receiveFromClient env (req i)

variable {env req}

theorem mem_found_cons {e : TableEvent ι} {log : List (TableEvent ι)} {i : ι} {hash : String} :
    hash ∈ (watch env req i (e :: log)).found ↔
      (e.thread = i ∧ foundHash e = some hash) ∨ hash ∈ (watch env req i log).found := by
  obtain ⟨j, q, a⟩ := e
  by_cases hij : j = i
  · subst hij
    simp only [watch, Config.track_cons_self, true_and]
    cases q with
    | insertTransaction => simp [Watch.next, foundHash]
    | updateUTXO => simp [Watch.next, foundHash]
    | insertUTXO => simp [Watch.next, foundHash]
    | selectValue => simp [Watch.next, foundHash]
    | selectCountOfHash hash' publicKey =>
      by_cases hf : FoundUnspent a
      · simp only [Watch.next, foundHash, if_pos hf, List.mem_cons, Option.some.injEq, eq_comm]
      · simp [Watch.next, foundHash, if_neg hf]
  · simp only [watch, Config.track_cons_ne _ _ hij, hij, false_and, false_or]

theorem watch_TX (i : ι) (log : List (TableEvent ι)) :
    (watch env req i log).TX = txOf env req i := by
  induction log with
  | nil => rfl
  | cons e log ih =>
    obtain ⟨j, q, a⟩ := e
    by_cases hij : j = i
    · subst hij
      simp only [watch, Config.track_cons_self]
      cases q with
      | insertTransaction => exact ih
      | updateUTXO => exact ih
      | insertUTXO => exact ih
      | selectValue => exact ih
      | selectCountOfHash hash' publicKey =>
        simp only [Watch.next]
        split
        · exact ih
        · exact ih
    · simp only [watch, Config.track_cons_ne _ _ hij]
      exact ih

variable (env req)

/-- What the rows and the events of any point of an orderly schedule have in common. -/
structure Inv (us : List Utxo) (log : List (TableEvent ι)) : Prop where
  coherent : Coherent us
  known : ∀ i hash, hash ∈ (watch env req i log).found → ∃ u ∈ us, u.hashUTXO = hash
  marked : ∀ i hash, Marked log i hash → (∃ u ∈ us, u.hashUTXO = hash) ∧
    ∀ u ∈ us, u.hashUTXO = hash → u.tailHashTX = txOf env req i
  unmarked : ∀ i hash, hash ∈ (watch env req i log).found → (∀ j, ¬ Marked log j hash) →
    ∀ u ∈ us, u.hashUTXO = hash → u.Unspent
  single : ∀ i j hash, Marked log i hash → Marked log j hash → i = j
  raced : ∀ i j hash, hash ∈ (watch env req i log).found → j ≠ i → Marked log j hash →
    Raced i hash log

variable {env req}

theorem Inv.spent {us : List Utxo} {log : List (TableEvent ι)} (h : Inv env req us log) {i : ι}
    {hash : String} (hm : Marked log i hash) : ∀ u ∈ us, u.hashUTXO = hash → ¬ u.Unspent := by
  intro u hu hhash hun
  have htail := (h.marked i hash hm).2 u hu hhash
  unfold Utxo.Unspent at hun
  rw [hun] at htail
  exact hashHex_ne_unspentTail env _ htail.symm

/-- An event that neither finds nor marks a row. -/
theorem Inv.quiet {us : List Utxo} {log : List (TableEvent ι)} (h : Inv env req us log)
    {e : TableEvent ι} (hf : foundHash e = none) (hm : markedHash e = none) :
    Inv env req us (e :: log) := by
  have hfound (i : ι) (hash : String) : hash ∈ (watch env req i (e :: log)).found ↔
      hash ∈ (watch env req i log).found := by
    rw [mem_found_cons, hf]
    simp
  have hmarked (i : ι) (hash : String) : Marked (e :: log) i hash ↔ Marked log i hash := by
    rw [marked_cons, hm]
    simp
  refine ⟨h.coherent, ?_, ?_, ?_, ?_, ?_⟩
  · intro i hash hi
    exact h.known i hash ((hfound i hash).mp hi)
  · intro i hash hi
    exact h.marked i hash ((hmarked i hash).mp hi)
  · intro i hash hi hno
    exact h.unmarked i hash ((hfound i hash).mp hi) fun j hj => hno j ((hmarked j hash).mpr hj)
  · intro i j hash hi hj
    exact h.single i j hash ((hmarked i hash).mp hi) ((hmarked j hash).mp hj)
  · intro i j hash hi hne hj
    refine Or.inr ⟨?_, h.raced i j hash ((hfound i hash).mp hi) hne ((hmarked j hash).mp hj)⟩
    rintro ⟨-, hfe⟩
    rw [hf] at hfe
    cases hfe

/-- A count that finds an unspent row: no thread has marked the hash. -/
theorem Inv.count {us : List Utxo} {log : List (TableEvent ι)} (h : Inv env req us log)
    {e : TableEvent ι} {hash : String} (hf : foundHash e = some hash) (hm : markedHash e = none)
    (hrow : ∃ u ∈ us, u.hashUTXO = hash ∧ u.Unspent) : Inv env req us (e :: log) := by
  obtain ⟨u, hu, hhash, hun⟩ := hrow
  have hnone : ∀ j, ¬ Marked log j hash := fun j hj => h.spent hj u hu hhash hun
  have hmarked (i : ι) (hash' : String) : Marked (e :: log) i hash' ↔ Marked log i hash' := by
    rw [marked_cons, hm]
    simp
  refine ⟨h.coherent, ?_, ?_, ?_, ?_, ?_⟩
  · intro i hash' hi
    rcases mem_found_cons.mp hi with ⟨-, hfe⟩ | hi
    · rw [hf] at hfe
      cases hfe
      exact ⟨u, hu, hhash⟩
    · exact h.known i hash' hi
  · intro i hash' hi
    exact h.marked i hash' ((hmarked i hash').mp hi)
  · intro i hash' hi hno
    rcases mem_found_cons.mp hi with ⟨-, hfe⟩ | hi
    · rw [hf] at hfe
      cases hfe
      intro v hv hvhash
      exact h.coherent u hu v hv (hhash.trans hvhash.symm) hun
    · exact h.unmarked i hash' hi fun j hj => hno j ((hmarked j hash').mpr hj)
  · intro i j hash' hi hj
    exact h.single i j hash' ((hmarked i hash').mp hi) ((hmarked j hash').mp hj)
  · intro i j hash' hi hne hj
    have hj' := (hmarked j hash').mp hj
    have hother : ¬ (e.thread = i ∧ foundHash e = some hash') := by
      rintro ⟨-, hfe⟩
      rw [hf] at hfe
      cases hfe
      exact hnone j hj'
    rcases mem_found_cons.mp hi with hfe | hi
    · exact absurd hfe hother
    · exact Or.inr ⟨hother, h.raced i j hash' hi hne hj'⟩

/-- What a thread that is not in a race marks: rows that it has marked before, or that nobody has
and that are unspent. -/
theorem Inv.mine {us : List Utxo} {log : List (TableEvent ι)} (h : Inv env req us log) {i : ι}
    {hash : String} (hfound : hash ∈ (watch env req i log).found) (hrace : ¬ Raced i hash log) :
    (∀ j, Marked log j hash → j = i) ∧
      ∀ u ∈ us, u.hashUTXO = hash → u.tailHashTX = txOf env req i ∨ u.Unspent := by
  have hother : ∀ j, Marked log j hash → j = i := by
    intro j hj
    by_contra hne
    exact hrace (h.raced i j hash hfound hne hj)
  refine ⟨hother, ?_⟩
  intro u hu hhash
  by_cases hi : Marked log i hash
  · exact Or.inl ((h.marked i hash hi).2 u hu hhash)
  · right
    apply h.unmarked i hash hfound _ u hu hhash
    intro j hj
    rw [hother j hj] at hj
    exact hi hj

theorem spend_tail {TX hash : String} {u : Utxo} (h : u.hashUTXO = hash) :
    (u.spend TX hash).tailHashTX = TX := by
  rw [Utxo.spend, if_pos h]

theorem spend_ne {TX hash : String} {u : Utxo} (h : u.hashUTXO ≠ hash) : u.spend TX hash = u :=
  if_neg h

theorem spend_hashUTXO (TX hash : String) (u : Utxo) :
    (u.spend TX hash).hashUTXO = u.hashUTXO := by
  unfold Utxo.spend
  split
  · rfl
  · rfl

theorem exists_spend {us : List Utxo} {TX hash hash' : String}
    (h : ∃ u ∈ us, u.hashUTXO = hash') :
    ∃ u ∈ us.map (Utxo.spend TX hash), u.hashUTXO = hash' := by
  obtain ⟨u, hu, hhash⟩ := h
  refine ⟨u.spend TX hash, List.mem_map_of_mem hu, ?_⟩
  rw [spend_hashUTXO]
  exact hhash

/-- An update marks all rows of its hash. -/
theorem Coherent.spend {us : List Utxo} (h : Coherent us) {TX : String} (hTX : TX ≠ unspentTail)
    (hash : String) : Coherent (us.map (Utxo.spend TX hash)) := by
  intro u' hu' v' hv' hhash hun
  obtain ⟨u, hu, rfl⟩ := List.mem_map.mp hu'
  obtain ⟨v, hv, rfl⟩ := List.mem_map.mp hv'
  rw [spend_hashUTXO, spend_hashUTXO] at hhash
  by_cases hu1 : u.hashUTXO = hash
  · unfold Utxo.Unspent at hun
    rw [spend_tail hu1] at hun
    exact absurd hun hTX
  · rw [spend_ne hu1] at hun
    rw [spend_ne (by rw [← hhash]; exact hu1)]
    exact h u hu v hv hhash hun

/-- An update outside a race. -/
theorem Inv.mark {us : List Utxo} {log : List (TableEvent ι)} (h : Inv env req us log)
    {e : TableEvent ι} {hash : String} (hf : foundHash e = none)
    (hm : markedHash e = some hash) (hfound : hash ∈ (watch env req e.thread log).found)
    (hrace : ¬ Raced e.thread hash log) :
    Inv env req (us.map (Utxo.spend (txOf env req e.thread) hash)) (e :: log) := by
  obtain ⟨hother, -⟩ := h.mine hfound hrace
  have hwatch (i : ι) (hash' : String) : hash' ∈ (watch env req i (e :: log)).found ↔
      hash' ∈ (watch env req i log).found := by
    rw [mem_found_cons, hf]
    simp
  have hold {i : ι} {hash' : String} (hi : Marked (e :: log) i hash') :
      Marked log i hash' ∨ (e.thread = i ∧ hash = hash') := by
    rcases marked_cons.mp hi with ⟨hti, hme⟩ | hi
    · rw [hm] at hme
      cases hme
      exact Or.inr ⟨hti, rfl⟩
    · exact Or.inl hi
  refine ⟨h.coherent.spend (hashHex_ne_unspentTail env _) hash, ?_, ?_, ?_, ?_, ?_⟩
  · intro i hash' hi
    exact exists_spend (h.known i hash' ((hwatch i hash').mp hi))
  · intro i hash' hi
    rcases hold hi with hi | ⟨hti, rfl⟩
    · obtain ⟨hex, htail⟩ := h.marked i hash' hi
      refine ⟨exists_spend hex, ?_⟩
      intro u' hu' hhash
      obtain ⟨u, hu, rfl⟩ := List.mem_map.mp hu'
      rw [spend_hashUTXO] at hhash
      by_cases hu1 : u.hashUTXO = hash
      · rw [spend_tail hu1]
        rw [← hhash, hu1] at hi
        rw [hother i hi]
      · rw [spend_ne hu1]
        exact htail u hu hhash
    · refine ⟨exists_spend (h.known e.thread hash hfound), ?_⟩
      intro u' hu' hhash
      obtain ⟨u, hu, rfl⟩ := List.mem_map.mp hu'
      rw [spend_hashUTXO] at hhash
      rw [spend_tail hhash, hti]
  · intro i hash' hi hno u' hu' hhash
    obtain ⟨u, hu, rfl⟩ := List.mem_map.mp hu'
    rw [spend_hashUTXO] at hhash
    have hne : u.hashUTXO ≠ hash := by
      intro he
      apply hno e.thread
      apply marked_cons.mpr
      exact Or.inl ⟨rfl, by rw [hm, ← he, hhash]⟩
    rw [spend_ne hne]
    apply h.unmarked i hash' ((hwatch i hash').mp hi) _ u hu hhash
    intro j hj
    exact hno j (marked_cons.mpr (Or.inr hj))
  · intro i j hash' hi hj
    rcases hold hi with hi | ⟨rfl, rfl⟩
    · rcases hold hj with hj | ⟨rfl, rfl⟩
      · exact h.single i j hash' hi hj
      · exact hother i hi
    · rcases hold hj with hj | ⟨rfl, -⟩
      · exact (hother j hj).symm
      · rfl
  · intro i j hash' hi hne hj
    have hfe : ¬ (e.thread = i ∧ foundHash e = some hash') := by
      rintro ⟨-, hfe⟩
      rw [hf] at hfe
      cases hfe
    rcases hold hj with hj | ⟨rfl, rfl⟩
    · exact Or.inr ⟨hfe, h.raced i j hash' ((hwatch i hash').mp hi) hne hj⟩
    · exact Or.inl ⟨hne, hm⟩

/-- A new row under a name that no spent row has. -/
theorem Inv.insert {us : List Utxo} {log : List (TableEvent ι)} (h : Inv env req us log)
    {u : Utxo} (hun : u.Unspent) (hfree : ∀ v ∈ us, v.hashUTXO = u.hashUTXO → v.Unspent) :
    Inv env req (us ++ [u]) log := by
  have hmem {v : Utxo} (hv : v ∈ us ++ [u]) : v ∈ us ∨ v = u := by
    rcases List.mem_append.mp hv with hv | hv
    · exact Or.inl hv
    · exact Or.inr (List.mem_singleton.mp hv)
  have hrow {hash : String} (hex : ∃ v ∈ us, v.hashUTXO = hash) :
      ∃ v ∈ us ++ [u], v.hashUTXO = hash := by
    obtain ⟨v, hv, hhash⟩ := hex
    exact ⟨v, List.mem_append_left _ hv, hhash⟩
  refine ⟨?_, ?_, ?_, ?_, h.single, h.raced⟩
  · intro v hv w hw hhash hvun
    rcases hmem hw with hwold | rfl
    · rcases hmem hv with hvold | rfl
      · exact h.coherent v hvold w hwold hhash hvun
      · exact hfree w hwold hhash.symm
    · exact hun
  · intro i hash hi
    exact hrow (h.known i hash hi)
  · intro i hash hi
    obtain ⟨⟨v, hv, hvhash⟩, htail⟩ := h.marked i hash hi
    refine ⟨hrow ⟨v, hv, hvhash⟩, ?_⟩
    intro w hw hhash
    rcases hmem hw with hw | rfl
    · exact htail w hw hhash
    · exact absurd (hfree v hv (hvhash.trans hhash.symm)) (h.spent hi v hv hvhash)
  · intro i hash hi hno v hv hhash
    rcases hmem hv with hv | rfl
    · exact h.unmarked i hash hi hno v hv hhash
    · exact hun

/-- An update outside a race leaves every spent row as it was. -/
theorem keepsSpent_mark {us : List Utxo} {TX hash : String}
    (h : ∀ u ∈ us, u.hashUTXO = hash → u.tailHashTX = TX ∨ u.Unspent) :
    KeepsSpent us (us.map (Utxo.spend TX hash)) := by
  intro n u hu hs
  rw [List.getElem?_map, hu, Option.map_some]
  by_cases hhash : u.hashUTXO = hash
  · rcases h u (List.mem_of_getElem? hu) hhash with htail | hun
    · rw [Utxo.spend, if_pos hhash, ← htail]
    · exact absurd hun hs
  · rw [spend_ne hhash]

/-- A nonzero count means an unspent row. -/
theorem exists_of_foundUnspent {us : List Utxo} {hash publicKey : String}
    (h : FoundUnspent (some (String.ofList (intDigits (countOfHash us hash publicKey))))) :
    ∃ u ∈ us, u.hashUTXO = hash ∧ u.Unspent := by
  obtain ⟨n, hn, hne⟩ := h
  rw [Option.bind_some, valueOf_count] at hn
  split at hn
  · cases hn
    have hpos : 0 < countOfHash us hash publicKey := by omega
    obtain ⟨u, hu, hrow⟩ := List.countP_pos_iff.mp hpos
    simp only [decide_eq_true_eq] at hrow
    exact ⟨u, hu, hrow.2.1, hrow.1⟩
  · cases hn

variable (env req)

/-- All threads on their monitors, and the invariant of rows and events. -/
def Good (c : Servers ι) : Prop :=
  Config.AllFollow Watch.may Watch.next (fun _ _ _ => True) (fun i => ⟨txOf env req i, []⟩) c ∧
    Inv env req c.store.utxos c.log

variable {env req}

/-- **Step.**  An orderly step keeps the invariant and every spent row. -/
theorem good_step {c : Servers ι} {i : ι} (hc : Good env req c) (ho : Orderly c i) :
    Good env req (c.step perform i) ∧
      KeepsSpent c.store.utxos (c.step perform i).store.utxos := by
  obtain ⟨hfollow, hinv⟩ := hc
  have hfollow' := Config.follows_step perform c i hfollow
  rcases Config.step_cases perform c i with ⟨hsame, -⟩ | ⟨q, k, hk, hstep⟩
  · rw [hsame]
    exact ⟨⟨hfollow, hinv⟩, fun _ _ hu _ => hu⟩
  · have hasks : c.Asks i q := ⟨k, hk⟩
    unfold Orderly at ho
    rw [hk] at ho
    unfold Good
    rw [hstep] at hfollow' ⊢
    cases q with
    | insertTransaction TX msg =>
      exact ⟨⟨hfollow', hinv.quiet rfl rfl⟩, fun _ _ hu _ => hu⟩
    | selectValue hash =>
      exact ⟨⟨hfollow', hinv.quiet rfl rfl⟩, fun _ _ hu _ => hu⟩
    | selectCountOfHash hash publicKey =>
      refine ⟨⟨hfollow', ?_⟩, fun _ _ hu _ => hu⟩
      by_cases hf : FoundUnspent
          (some (String.ofList (intDigits (countOfHash c.store.utxos hash publicKey))))
      · exact hinv.count (if_pos hf) rfl (exists_of_foundUnspent hf)
      · exact hinv.quiet (if_neg hf) rfl
    | updateUTXO TX hash =>
      have hmay : TX = (watch env req i c.log).TX ∧ hash ∈ (watch env req i c.log).found :=
        hfollow.allowed hasks
      obtain ⟨hTX, hfound⟩ := hmay
      rw [watch_TX] at hTX
      subst hTX
      have hrace : ¬ Raced i hash c.log := ho
      have hinv' : Inv env req (c.store.utxos.map (Utxo.spend (txOf env req i) hash))
          (⟨i, .updateUTXO (txOf env req i) hash, ()⟩ :: c.log) :=
        Inv.mark (e := ⟨i, .updateUTXO (txOf env req i) hash, ()⟩) hinv rfl rfl hfound hrace
      exact ⟨⟨hfollow', hinv'⟩, keepsSpent_mark (hinv.mine hfound hrace).2⟩
    | insertUTXO hash value publicKey TX index =>
      have hfree : ∀ u ∈ c.store.utxos, u.hashUTXO = hash → u.Unspent := ho
      refine ⟨⟨hfollow', ?_⟩, KeepsSpent.append _ _⟩
      apply Inv.quiet _ rfl rfl
      exact hinv.insert rfl hfree

theorem good_start {t : Tables} (hcoherent : Coherent t.utxos) :
    Good env req (startAll env req t) := by
  refine ⟨fun i => follows_receiveFromClient env (req i), hcoherent, ?_, ?_, ?_, ?_, ?_⟩
  · intro i hash hi
    cases hi
  · rintro i hash ⟨e, he, -⟩
    cases he
  · intro i hash hi
    cases hi
  · rintro i j hash ⟨e, he, -⟩
    cases he
  · intro i j hash hi
    cases hi

/-- An orderly schedule keeps the invariant and every spent row. -/
theorem good_exec {c : Servers ι} {sched : List ι} (hc : Good env req c)
    (ho : StepRun.Along (Config.step perform) Orderly c sched) :
    Good env req (c.exec perform sched) ∧
      KeepsSpent c.store.utxos (c.exec perform sched).store.utxos := by
  induction sched generalizing c with
  | nil => exact ⟨hc, fun _ _ hu _ => hu⟩
  | cons i sched ih =>
    obtain ⟨hgood, hkeeps⟩ := good_step hc ho.1
    obtain ⟨hgood', hkeeps'⟩ := ih hgood ho.2
    exact ⟨hgood', hkeeps.trans hkeeps'⟩

/-- **No double spend.**  In an orderly schedule, from a table whose rows of one hash are all
spent or all unspent, no two requests mark the same hash, and what is spent at any point is
still the same row at the end. -/
theorem no_double_spend (env : Env) (req : ι → Request) (t : Tables) (sched : List ι)
    (hcoherent : Coherent t.utxos)
    (ho : StepRun.Along (Config.step perform) Orderly (startAll env req t) sched) :
    (∀ i j hash, Marked ((startAll env req t).exec perform sched).log i hash →
      Marked ((startAll env req t).exec perform sched).log j hash → i = j) ∧
    ∀ before after, sched = before ++ after →
      KeepsSpent ((startAll env req t).exec perform before).store.utxos
        ((startAll env req t).exec perform sched).store.utxos := by
  have hstart : Good env req (startAll env req t) := good_start hcoherent
  refine ⟨(good_exec hstart ho).1.2.single, ?_⟩
  rintro before after rfl
  obtain ⟨hbefore, hafter⟩ := (StepRun.along_append _ Orderly _ before after).mp ho
  have hmid := (good_exec hstart hbefore).1
  have hkeeps := (good_exec hmid hafter).2
  unfold Config.exec at hkeeps ⊢
  rw [StepRun.run_append]
  exact hkeeps

end

/-- Two requests of one owner for one row. -/
def rivals : Bool → Request
  | false => spendRequest ["c1"] [("5", "bb")] "m"
  | true => spendRequest ["c1"] [("5", "cc")] "n"

theorem no_double_spend_sequential :
    Coherent [coin "c1" "5"] ∧
    StepRun.Along (Config.step perform) Orderly
      (startAll openEnv rivals ⟨[], [coin "c1" "5"]⟩)
      [false, false, false, false, false, true, true] ∧
    (∀ i j hash, Marked ((startAll openEnv rivals ⟨[], [coin "c1" "5"]⟩).exec perform
        [false, false, false, false, false, true, true]).log i hash →
      Marked ((startAll openEnv rivals ⟨[], [coin "c1" "5"]⟩).exec perform
        [false, false, false, false, false, true, true]).log j hash → i = j) ∧
    ∀ before after, [false, false, false, false, false, true, true] = before ++ after →
      KeepsSpent ((startAll openEnv rivals ⟨[], [coin "c1" "5"]⟩).exec perform
        before).store.utxos
        ((startAll openEnv rivals ⟨[], [coin "c1" "5"]⟩).exec perform
          [false, false, false, false, false, true, true]).store.utxos := by
  have hcoherent : Coherent [coin "c1" "5"] := coherent_singleton _
  have halong : StepRun.Along (Config.step perform) Orderly
      (startAll openEnv rivals ⟨[], [coin "c1" "5"]⟩)
      [false, false, false, false, false, true, true] := by decide +kernel
  exact ⟨hcoherent, halong, no_double_spend openEnv rivals _ _ hcoherent halong⟩

/-- Both rivals count and select the row before either marks it: both are answered "Valid TX",
and both have spent it. -/
theorem double_spend :
    ¬ ∀ (env : Env) (req : Bool → Request) (t : Tables) (sched : List Bool), Coherent t.utxos →
      (∀ i j hash, ((startAll env req t).exec perform sched).thread i = .ret "Valid TX" →
        ((startAll env req t).exec perform sched).thread j = .ret "Valid TX" →
        Marked ((startAll env req t).exec perform sched).log i hash →
        Marked ((startAll env req t).exec perform sched).log j hash → i = j) := by
  intro h
  have hcoherent : Coherent [coin "c1" "5"] := coherent_singleton _
  have heq := h openEnv rivals ⟨[], [coin "c1" "5"]⟩
    [false, true, false, true, false, true, false, true, false, true] hcoherent false true "c1"
    (by rfl) (by rfl) (by unfold Marked; decide +kernel) (by unfold Marked; decide +kernel)
  cases heq

end MoaCrypto.Transaction
