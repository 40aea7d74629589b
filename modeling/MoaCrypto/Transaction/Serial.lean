import MoaCrypto.Lib.Serial
import MoaCrypto.Transaction.Concurrent
import MoaCrypto.Transaction.Runs
import Mathlib.Data.List.Perm.Basic

/-!
# Requests for different rows

Requests that name no common row may be interleaved in any way: their effect is the one of serving
them one after the other, in the order in which they start to write (`serializable`).

A request reads first, counting and selecting rows that it names, and then writes; this is the
discipline `tableAccess`.  Marking the rows that one request names and inserting a row of a new name
change nothing for another request that has found its rows, and writes of two requests differ at most
in the order in which rows are added.  If two rows end up with one name, a request may have read the
other row, so the names are assumed to be distinct.
-/

namespace MoaCrypto.Transaction

open Java QueryProg Weigh

/-! ## Reading and writing the tables -/

def Query.selects : Query → Bool
  | .insertTransaction _ _ => false
  | .updateUTXO _ _ => false
  | .insertUTXO _ _ _ _ _ => false
  | .selectCountOfHash _ _ => true
  | .selectValue _ => true

/-- The hashes that a request names, and those of them that it has found unspent. -/
structure Access where
  named : List String
  found : List String

/-- The answer lets the request go on. -/
def Query.accepts : (q : Query) → Answer q → Prop
  | .insertTransaction _ _, _ => True
  | .updateUTXO _ _, _ => True
  | .insertUTXO _ _ _ _ _, _ => True
  | .selectCountOfHash _ _, hasValue => FoundUnspent hasValue
  | .selectValue _, s => s.isSome = true

def Access.may (m : Access) : Query → Prop
  | .insertTransaction _ _ => True
  | .updateUTXO _ hash => hash ∈ m.named ∧ hash ∈ m.found
  | .insertUTXO _ _ _ _ _ => True
  | .selectCountOfHash hash _ => hash ∈ m.named
  | .selectValue hash => hash ∈ m.named

def Access.note (m : Access) : (q : Query) → Answer q → Access
  | .selectCountOfHash hash _, _ => { m with found := hash :: m.found }
  | _, _ => m

/-- The names of the rows. -/
def Tables.names (t : Tables) : List String := t.utxos.map Utxo.hashUTXO

/-- The same rows, in any order. -/
def SameRows (t t' : Tables) : Prop :=
  t.transactions.Perm t'.transactions ∧ t.utxos.Perm t'.utxos

def tableAccess : Discipline Query Answer Tables Access where
  isRead := Query.selects
  accepts := Query.accepts
  may := Access.may
  note := Access.note
  apart m m' := ∀ hash ∈ m.named, hash ∉ m'.named
  holds m t := ∀ hash ∈ m.found, hash ∈ t.names
  sound t := t.names.Nodup
  same := SameRows

theorem sameRows_equivalence : Equivalence SameRows where
  refl _ := ⟨List.Perm.refl _, List.Perm.refl _⟩
  symm h := ⟨h.1.symm, h.2.symm⟩
  trans h h' := ⟨h.1.trans h'.1, h.2.trans h'.2⟩

theorem SameRows.names {t t' : Tables} (h : SameRows t t') : t.names.Perm t'.names := h.2.map _

/-! ## What the queries do to each other -/

theorem names_spend (us : List Utxo) (TX hash : String) :
    (us.map (Utxo.spend TX hash)).map Utxo.hashUTXO = us.map Utxo.hashUTXO := by
  rw [List.map_map]
  exact List.map_congr_left fun u _ => spend_hashUTXO TX hash u

/-- Marking the rows of one hash does not show under another. -/
theorem selects_spend (TX : String) {hash hash' : String} (hne : hash ≠ hash') (u : Utxo) :
    ((u.spend TX hash).Unspent ∧ (u.spend TX hash).hashUTXO = hash') ↔
      (u.Unspent ∧ u.hashUTXO = hash') := by
  rw [spend_hashUTXO]
  by_cases h : u.hashUTXO = hash'
  · rw [spend_ne (by rw [h]; exact Ne.symm hne)]
  · simp [h]

theorem spend_value (TX hash : String) (u : Utxo) : (u.spend TX hash).value = u.value := by
  unfold Utxo.spend
  split
  · rfl
  · rfl

theorem spend_publicKey (TX hash : String) (u : Utxo) :
    (u.spend TX hash).publicKey = u.publicKey := by
  unfold Utxo.spend
  split
  · rfl
  · rfl

theorem countOfHash_spend (us : List Utxo) (TX : String) {hash hash' : String} (hne : hash ≠ hash')
    (publicKey : String) :
    countOfHash (us.map (Utxo.spend TX hash)) hash' publicKey = countOfHash us hash' publicKey := by
  unfold countOfHash
  rw [List.countP_map]
  apply List.countP_congr
  intro u _
  have hrow := selects_spend TX hne u
  simp only [Function.comp, decide_eq_true_eq, spend_publicKey, ← and_assoc]
  rw [hrow]

theorem valueOfHash_spend (us : List Utxo) (TX : String) {hash hash' : String} (hne : hash ≠ hash') :
    valueOfHash (us.map (Utxo.spend TX hash)) hash' = valueOfHash us hash' := by
  unfold valueOfHash
  have hselects : ((fun u : Utxo => decide (u.Unspent ∧ u.hashUTXO = hash')) ∘ Utxo.spend TX hash) =
      fun u => decide (u.Unspent ∧ u.hashUTXO = hash') := by
    funext u
    exact decide_eq_decide.mpr (selects_spend TX hne u)
  have hvalue : Utxo.value ∘ Utxo.spend TX hash = Utxo.value := funext (spend_value TX hash)
  rw [List.find?_map, hselects, Option.map_map, hvalue]

/-- Two requests mark different rows, so the order does not matter. -/
theorem spend_comm {TX hash TX' hash' : String} (hne : hash ≠ hash') (u : Utxo) :
    Utxo.spend TX' hash' (Utxo.spend TX hash u) = Utxo.spend TX hash (Utxo.spend TX' hash' u) := by
  by_cases h : u.hashUTXO = hash
  · have hother : u.hashUTXO ≠ hash' := fun he => hne (h.symm.trans he)
    rw [spend_ne hother, spend_ne (by rw [spend_hashUTXO]; exact hother)]
  · have hother : (Utxo.spend TX' hash' u).hashUTXO ≠ hash := by
      rw [spend_hashUTXO]
      exact h
    rw [spend_ne h, spend_ne hother]

/-- With distinct names, one row at most is selected. -/
theorem valueOfHash_eq_some_iff {us : List Utxo} (hnodup : (us.map Utxo.hashUTXO).Nodup)
    (hash value : String) : valueOfHash us hash = some value ↔
      ∃ u ∈ us, u.Unspent ∧ u.hashUTXO = hash ∧ u.value = value := by
  unfold valueOfHash
  constructor
  · intro h
    obtain ⟨u, hfind, hvalue⟩ := Option.map_eq_some_iff.mp h
    have hrow := List.find?_some hfind
    simp only [decide_eq_true_eq] at hrow
    exact ⟨u, List.mem_of_find?_eq_some hfind, hrow.1, hrow.2, hvalue⟩
  · rintro ⟨u, hu, hunspent, hhash, hvalue⟩
    cases hfind : us.find? fun u => u.Unspent ∧ u.hashUTXO = hash with
    | none =>
      have hmiss := List.find?_eq_none.mp hfind u hu
      simp [hunspent, hhash] at hmiss
    | some v =>
      have hrow := List.find?_some hfind
      simp only [decide_eq_true_eq] at hrow
      have huv : v = u := List.inj_on_of_nodup_map hnodup (List.mem_of_find?_eq_some hfind) hu
        (hrow.2.trans hhash.symm)
      rw [huv, Option.map_some, hvalue]

theorem valueOfHash_perm {us vs : List Utxo} (hperm : us.Perm vs)
    (hnodup : (us.map Utxo.hashUTXO).Nodup) (hash : String) :
    valueOfHash vs hash = valueOfHash us hash := by
  apply Option.ext
  intro value
  rw [valueOfHash_eq_some_iff hnodup,
    valueOfHash_eq_some_iff ((hperm.map Utxo.hashUTXO).nodup_iff.mp hnodup)]
  exact exists_congr fun u => and_congr_left fun _ => hperm.symm.mem_iff

theorem exists_of_valueOfHash {us : List Utxo} {hash : String}
    (h : (valueOfHash us hash).isSome = true) : ∃ u ∈ us, u.hashUTXO = hash := by
  obtain ⟨value, hvalue⟩ := Option.isSome_iff_exists.mp h
  obtain ⟨u, hfind, -⟩ := Option.map_eq_some_iff.mp hvalue
  have hrow := List.find?_some hfind
  simp only [decide_eq_true_eq] at hrow
  exact ⟨u, List.mem_of_find?_eq_some hfind, hrow.2⟩

/-- A row of another name is not counted, and not selected. -/
theorem countOfHash_append_ne {us : List Utxo} {v : Utxo} {hash : String} (hne : v.hashUTXO ≠ hash)
    (publicKey : String) : countOfHash (us ++ [v]) hash publicKey = countOfHash us hash publicKey := by
  simp [countOfHash, List.countP_append, hne]

theorem valueOfHash_append_ne {us : List Utxo} {v : Utxo} {hash : String} (hne : v.hashUTXO ≠ hash) :
    valueOfHash (us ++ [v]) hash = valueOfHash us hash := by
  simp [valueOfHash, List.find?_append, hne]

/-- The new row is not of a name that is there already. -/
theorem ne_of_nodup_append {us : List Utxo} {v : Utxo} {hash : String}
    (h : ((us ++ [v]).map Utxo.hashUTXO).Nodup) (hmem : ∃ u ∈ us, u.hashUTXO = hash) :
    v.hashUTXO ≠ hash := by
  rintro rfl
  obtain ⟨u, hu, hname⟩ := hmem
  rw [List.map_append] at h
  exact (List.nodup_append.mp h).2.2 _ (List.mem_map.mpr ⟨u, hu, hname⟩) _ List.mem_cons_self rfl

theorem selects_cases {q : Query} (h : q.selects = true) :
    (∃ hash publicKey, q = .selectCountOfHash hash publicKey) ∨ ∃ hash, q = .selectValue hash := by
  cases q with
  | insertTransaction => cases h
  | updateUTXO => cases h
  | insertUTXO => cases h
  | selectCountOfHash hash publicKey => exact Or.inl ⟨hash, publicKey, rfl⟩
  | selectValue hash => exact Or.inr ⟨hash, rfl⟩

theorem mem_names {t : Tables} {hash : String} : hash ∈ t.names ↔ ∃ u ∈ t.utxos, u.hashUTXO = hash :=
  List.mem_map

theorem names_write {w : Query} (hwrite : w.selects = false) (t : Tables) :
    ∃ new, (perform w t).2.names = t.names ++ new := by
  cases w with
  | insertTransaction TX msg => exact ⟨[], (List.append_nil _).symm⟩
  | updateUTXO TX hash => exact ⟨[], (names_spend t.utxos TX hash).trans (List.append_nil _).symm⟩
  | insertUTXO hash value publicKey TX index => exact ⟨[hash], List.map_append⟩
  | selectCountOfHash => cases hwrite
  | selectValue => cases hwrite

/-- A good answer to one request stays as it is when another one writes. -/
theorem perform_stable {m m' : Access} {q w : Query} {t : Tables}
    (hapart : ∀ hash ∈ m.named, hash ∉ m'.named) (hread : q.selects = true) (hmay : m.may q)
    (hwrite : w.selects = false) (hmay' : m'.may w) (hsound : (perform w t).2.names.Nodup)
    (haccepts : q.accepts (perform q t).1) : (perform q (perform w t).2).1 = (perform q t).1 := by
  rcases selects_cases hread with ⟨hash, publicKey, rfl⟩ | ⟨hash, rfl⟩
  · obtain ⟨u, hu, hname, -⟩ := exists_of_foundUnspent haccepts
    cases w with
    | insertTransaction TX msg => rfl
    | updateUTXO TX hash' =>
      have hne : hash' ≠ hash := fun he => hapart hash hmay (he ▸ hmay'.1)
      simp only [perform, countOfHash_spend _ _ hne]
    | insertUTXO hash' value publicKey' TX index =>
      have hne := ne_of_nodup_append hsound ⟨u, hu, hname⟩
      simp only [perform, countOfHash_append_ne hne]
    | selectCountOfHash => cases hwrite
    | selectValue => cases hwrite
  · have hrow := exists_of_valueOfHash haccepts
    cases w with
    | insertTransaction TX msg => rfl
    | updateUTXO TX hash' =>
      have hne : hash' ≠ hash := fun he => hapart hash hmay (he ▸ hmay'.1)
      exact valueOfHash_spend _ _ hne
    | insertUTXO hash' value publicKey TX index =>
      exact valueOfHash_append_ne (ne_of_nodup_append hsound hrow)
    | selectCountOfHash => cases hwrite
    | selectValue => cases hwrite

/-- Inserting a row of a new name before or after marking a row that is there. -/
theorem insert_update_comm {t : Tables} {hash : String} (hrow : hash ∈ t.names) (TX : String)
    {hash' : String} (hnodup : (t.names ++ [hash']).Nodup) (value publicKey TX' index : String) :
    (perform (.insertUTXO hash' value publicKey TX' index) (perform (.updateUTXO TX hash) t).2).2 =
      (perform (.updateUTXO TX hash) (perform (.insertUTXO hash' value publicKey TX' index) t).2).2 := by
  have hne : hash' ≠ hash := by
    rintro rfl
    exact (List.nodup_append.mp hnodup).2.2 _ hrow _ List.mem_cons_self rfl
  simp only [perform, List.map_append, List.map_singleton]
  rw [spend_ne hne]

/-- Writes of two requests differ at most in the order of the rows. -/
theorem perform_comm {m m' : Access} {w w' : Query} {t : Tables}
    (hapart : ∀ hash ∈ m.named, hash ∉ m'.named) (hwrite : w.selects = false) (hmay : m.may w)
    (hholds : ∀ hash ∈ m.found, hash ∈ t.names) (hwrite' : w'.selects = false) (hmay' : m'.may w')
    (hholds' : ∀ hash ∈ m'.found, hash ∈ t.names)
    (hsound : (perform w' (perform w t).2).2.names.Nodup) :
    SameRows (perform w' (perform w t).2).2 (perform w (perform w' t).2).2 := by
  have hrefl := sameRows_equivalence.refl
  cases w with
  | selectCountOfHash => cases hwrite
  | selectValue => cases hwrite
  | insertTransaction TX msg =>
    cases w' with
    | selectCountOfHash => cases hwrite'
    | selectValue => cases hwrite'
    | insertTransaction TX' msg' =>
      refine ⟨?_, List.Perm.refl _⟩
      simp only [perform, List.append_assoc]
      exact List.Perm.append_left _ (List.Perm.swap _ _ _)
    | updateUTXO TX' hash' => exact hrefl _
    | insertUTXO hash' value' publicKey' TX' index' => exact hrefl _
  | updateUTXO TX hash =>
    cases w' with
    | selectCountOfHash => cases hwrite'
    | selectValue => cases hwrite'
    | insertTransaction TX' msg' => exact hrefl _
    | updateUTXO TX' hash' =>
      have hne : hash ≠ hash' := fun he => hapart hash hmay.1 (he ▸ hmay'.1)
      have hcomm : Utxo.spend TX' hash' ∘ Utxo.spend TX hash =
          Utxo.spend TX hash ∘ Utxo.spend TX' hash' := funext (spend_comm hne)
      simp only [perform, List.map_map, hcomm]
      exact hrefl _
    | insertUTXO hash' value' publicKey' TX' index' =>
      have hnodup : (t.names ++ [hash']).Nodup := by
        simpa only [Tables.names, perform, List.map_append, List.map_singleton, names_spend] using hsound
      rw [insert_update_comm (hholds hash hmay.2) TX hnodup]
      exact hrefl _
  | insertUTXO hash value publicKey TX index =>
    cases w' with
    | selectCountOfHash => cases hwrite'
    | selectValue => cases hwrite'
    | insertTransaction TX' msg' => exact hrefl _
    | updateUTXO TX' hash' =>
      have hnodup : (t.names ++ [hash]).Nodup := by
        simpa only [Tables.names, perform, names_spend, List.map_append, List.map_singleton,
          spend_hashUTXO] using hsound
      rw [← insert_update_comm (hholds' hash' hmay'.2) TX' hnodup]
      exact hrefl _
    | insertUTXO hash' value' publicKey' TX' index' =>
      refine ⟨List.Perm.refl _, ?_⟩
      simp only [perform, List.append_assoc]
      exact List.Perm.append_left _ (List.Perm.swap _ _ _)

theorem SameRows.perform {w : Query} {t t' : Tables} (h : SameRows t t') :
    SameRows (Transaction.perform w t).2 (Transaction.perform w t').2 := by
  cases w with
  | insertTransaction TX msg => exact ⟨h.1.append_right _, h.2⟩
  | updateUTXO TX hash => exact ⟨h.1, h.2.map _⟩
  | insertUTXO hash value publicKey TX index => exact ⟨h.1, h.2.append_right _⟩
  | selectCountOfHash hash publicKey => exact h
  | selectValue hash => exact h

/-- A read is answered from the rows, in any order. -/
theorem SameRows.read {q : Query} {t t' : Tables} (h : SameRows t t') (hread : q.selects = true)
    (hsound : t.names.Nodup) : (Transaction.perform q t').1 = (Transaction.perform q t).1 := by
  rcases selects_cases hread with ⟨hash, publicKey, rfl⟩ | ⟨hash, rfl⟩
  · simp only [Transaction.perform, countOfHash, h.2.countP_eq]
  · exact valueOfHash_perm h.2 hsound hash

theorem tableAccess_lawful : tableAccess.Lawful perform where
  equiv := sameRows_equivalence
  sound_same _ _ h := h.names.nodup_iff.mp
  holds_same _ _ _ h hholds hash hhash := h.names.mem_iff.mp (hholds hash hhash)
  apart_symm _ _ h hash hhash hmine := h hash hmine hhash
  apart_note m m' q a h := by
    cases q with
    | insertTransaction => exact h
    | updateUTXO => exact h
    | insertUTXO => exact h
    | selectCountOfHash => exact h
    | selectValue => exact h
  may_note m q q' a hread hmay := by
    have hnamed : (m.note q' a).named = m.named := by
      cases q' with
      | insertTransaction => rfl
      | updateUTXO => rfl
      | insertUTXO => rfl
      | selectCountOfHash => rfl
      | selectValue => rfl
    rcases selects_cases hread with ⟨hash, publicKey, rfl⟩ | ⟨hash, rfl⟩
    · show hash ∈ (m.note q' a).named
      rwa [hnamed]
    · show hash ∈ (m.note q' a).named
      rwa [hnamed]
  read q t hread := by
    rcases selects_cases hread with ⟨hash, publicKey, rfl⟩ | ⟨hash, rfl⟩
    · rfl
    · rfl
  read_same q t t' hread hsound hsame _ := hsame.read hread hsound
  holds_note m q t hread hholds haccepts := by
    rcases selects_cases hread with ⟨hash, publicKey, rfl⟩ | ⟨hash, rfl⟩
    · intro hash' hmem
      rcases List.mem_cons.mp hmem with rfl | hmem
      · obtain ⟨u, hu, hname, -⟩ := exists_of_foundUnspent haccepts
        exact mem_names.mpr ⟨u, hu, hname⟩
      · exact hholds hash' hmem
    · exact hholds
  write_answer w t t' hwrite := by
    cases w with
    | insertTransaction => rfl
    | updateUTXO => rfl
    | insertUTXO => rfl
    | selectCountOfHash => cases hwrite
    | selectValue => cases hwrite
  write_same _ _ _ _ h := h.perform
  sound_of_write w t hwrite hsound := by
    obtain ⟨new, hnew⟩ := names_write hwrite t
    show t.names.Nodup
    change (perform w t).2.names.Nodup at hsound
    rw [hnew] at hsound
    exact (List.nodup_append.mp hsound).1
  holds_write m w t hwrite hholds hash hmem := by
    obtain ⟨new, hnew⟩ := names_write hwrite t
    rw [hnew]
    exact List.mem_append_left _ (hholds hash hmem)
  stable _ _ _ _ _ hapart hread hmay hwrite hmay' hsound haccepts :=
    perform_stable hapart hread hmay hwrite hmay' hsound haccepts
  comm _ _ _ _ _ hapart hwrite hmay hholds hwrite' hmay' hholds' hsound :=
    perform_comm hapart hwrite hmay hholds hwrite' hmay' hholds' hsound

/-! ## A request reads first -/

/-- The checks so far: the thread has not written, and if it has not been refused, it has found all
of `inputs`. -/
def Checked (inputs : List Input) (x x' : Access × Stage) : Prop :=
  x'.1.named = x.1.named ∧ (∀ hash ∈ x.1.found, hash ∈ x'.1.found) ∧ x'.2 = x.2 ∧
    (x.2 = .reading → ∀ hash ∈ inputHashes inputs, hash ∈ x'.1.found)

theorem inputHashes_cons {input : Input} {hash : String} (h : input.hashUTXO = some hash)
    (inputs : List Input) : inputHashes (input :: inputs) = hash :: inputHashes inputs :=
  List.filterMap_cons_some h

/-- A count of a hash that the request names, in either stage before it writes. -/
theorem allows_read {x : Access × Stage} (hstage : x.2 ≠ .writing) {q : Query}
    (hread : q.selects = true) (hmay : x.1.may q) : tableAccess.allows x q := by
  obtain ⟨m, stage⟩ := x
  cases stage with
  | reading => exact hmay
  | refused => exact hread
  | writing => exact absurd rfl hstage

theorem moves_count_found {x : Access × Stage} (hstage : x.2 ≠ .writing) (hash publicKey : String)
    {hasValue : Option String} (h : FoundUnspent hasValue) :
    (tableAccess.moves x (.selectCountOfHash hash publicKey) hasValue).2 = x.2 ∧
      (tableAccess.moves x (.selectCountOfHash hash publicKey) hasValue).1.named = x.1.named ∧
      (∀ hash' ∈ x.1.found,
        hash' ∈ (tableAccess.moves x (.selectCountOfHash hash publicKey) hasValue).1.found) ∧
      (x.2 = .reading →
        hash ∈ (tableAccess.moves x (.selectCountOfHash hash publicKey) hasValue).1.found) := by
  obtain ⟨m, stage⟩ := x
  cases stage with
  | reading =>
    rw [moves_accepts rfl h]
    exact ⟨rfl, rfl, fun _ hmem => List.mem_cons_of_mem _ hmem, fun _ => List.mem_cons_self⟩
  | refused => exact ⟨rfl, rfl, fun _ hmem => hmem, fun h => by cases h⟩
  | writing => exact absurd rfl hstage

theorem moves_count_missed {x : Access × Stage} (hstage : x.2 ≠ .writing) {hash publicKey : String}
    {hasValue : Option String} (h : ¬ FoundUnspent hasValue) :
    tableAccess.moves x (.selectCountOfHash hash publicKey) hasValue = (x.1, .refused) := by
  obtain ⟨m, stage⟩ := x
  cases stage with
  | reading => exact moves_rejects rfl h
  | refused => rfl
  | writing => exact absurd rfl hstage

/-- The loop of `utxoCheck` counts all inputs only if none of them was refused. -/
theorem keeps_utxoCheckLoop (publicKey : String) (inputs : List Input) (isTExist : Bool) (count : Nat)
    (x : Access × Stage) (hstage : x.2 ≠ .writing)
    (hnamed : ∀ hash ∈ inputHashes inputs, hash ∈ x.1.named) :
    Prog.Follows tableAccess.allows tableAccess.moves
      (fun x' r => ∀ v, r = .ok v → x'.1.named = x.1.named ∧ x'.2 ≠ .writing ∧
        v.2 ≤ count + inputs.length ∧ (v.2 = count + inputs.length → Checked inputs x x'))
      x (utxoCheckLoop publicKey inputs isTExist count) := by
  induction inputs generalizing isTExist count x with
  | nil =>
    intro v hv
    cases hv
    refine ⟨rfl, hstage, le_refl _, fun _ => ⟨rfl, fun _ h => h, rfl, ?_⟩⟩
    intro _ hash hhash
    cases hhash
  | cons input inputs ih =>
    unfold utxoCheckLoop
    cases hhash : input.hashUTXO with
    | none =>
      intro v hv
      cases hv
    | some hash =>
      rw [inputHashes_cons hhash] at hnamed
      simp only [Prog.orFail_some, Prog.ret_bind, Prog.query_bind]
      refine ⟨allows_read hstage rfl (hnamed hash List.mem_cons_self), fun hasValue => ?_⟩
      beta_reduce
      cases hn : Option.bind hasValue Integer.valueOf with
      | none =>
        intro v hv
        cases hv
      | some n =>
        rw [Prog.orFail_some, Prog.ret_bind]
        by_cases hzero : n = 0
        · have hmiss : ¬ FoundUnspent hasValue := by
            rw [foundUnspent_iff hn]
            exact fun hne => hne hzero
          rw [if_pos hzero, moves_count_missed hstage hmiss]
          apply (ih false count (x.1, .refused) (fun he => by cases he)
            fun h hh => hnamed h (List.mem_cons_of_mem _ hh)).mono
          intro x' r hr v hv
          obtain ⟨hsame, hnot, hle, -⟩ := hr v hv
          simp only [List.length_cons]
          exact ⟨hsame, hnot, by omega, fun he => by omega⟩
        · have hhit : FoundUnspent hasValue := (foundUnspent_iff hn).mpr hzero
          rw [if_neg hzero]
          obtain ⟨hstage', hnamed', hkept, hfound⟩ :=
            moves_count_found hstage hash publicKey hhit
          apply (ih isTExist (count + 1) _ (by rw [hstage']; exact hstage)
            fun h hh => by rw [hnamed']; exact hnamed h (List.mem_cons_of_mem _ hh)).mono
          intro x' r hr v hv
          obtain ⟨hsame, hnot, hle, hall⟩ := hr v hv
          simp only [List.length_cons]
          refine ⟨hsame.trans hnamed', hnot, by omega, fun he => ?_⟩
          obtain ⟨-, hkept', hstage'', hrest⟩ := hall (by omega)
          refine ⟨hsame.trans hnamed', fun h hh => hkept' h (hkept h hh), hstage''.trans hstage', ?_⟩
          intro hreading h hh
          rw [inputHashes_cons hhash] at hh
          rcases List.mem_cons.mp hh with rfl | hh
          · exact hkept' _ (hfound hreading)
          · exact hrest (hstage'.trans hreading) h hh

theorem keeps_utxoCheck (publicKey : List UInt8) (inputs : List Input) (x : Access × Stage)
    (hstage : x.2 ≠ .writing) (hnamed : ∀ hash ∈ inputHashes inputs, hash ∈ x.1.named) :
    Prog.Follows tableAccess.allows tableAccess.moves
      (fun x' r => ∀ isTExist, r = .ok isTExist → x'.1.named = x.1.named ∧ x'.2 ≠ .writing ∧
        (isTExist = true → Checked inputs x x'))
      x (utxoCheck publicKey inputs) := by
  apply (keeps_utxoCheckLoop (encodeHexString publicKey) inputs true 0 x hstage hnamed).bind
  · rintro x' ⟨isTExist, count⟩ hr b hb
    obtain ⟨hsame, hnot, -, hall⟩ := hr _ rfl
    refine ⟨hsame, hnot, fun htrue => hall ?_⟩
    subst htrue
    by_contra hne
    simp only [Except.ok.injEq] at hb
    rw [if_pos (by simp only at hne; omega)] at hb
    cases hb
  · intro x' e _ b hb
    cases hb

/-- Selecting values notes nothing. -/
theorem keeps_sumInputs (inputs : List Input) (sum : BigDecimal) (x : Access × Stage)
    (hstage : x.2 ≠ .writing) (hnamed : ∀ hash ∈ inputHashes inputs, hash ∈ x.1.named) :
    Prog.Follows tableAccess.allows tableAccess.moves (fun x' r => ∀ v, r = .ok v → x' = x) x
      (sumInputs inputs sum) := by
  induction inputs generalizing sum with
  | nil =>
    intro v _
    rfl
  | cons input inputs ih =>
    unfold sumInputs
    cases hhash : input.hashUTXO with
    | none =>
      intro v hv
      cases hv
    | some hash =>
      rw [inputHashes_cons hhash] at hnamed
      simp only [Prog.orFail_some, Prog.ret_bind, Prog.query_bind]
      refine ⟨allows_read hstage rfl (hnamed hash List.mem_cons_self), fun s => ?_⟩
      cases s with
      | none =>
        intro v hv
        cases hv
      | some s =>
        have hmoves : tableAccess.moves x (.selectValue hash) (some s) = x := by
          obtain ⟨m, stage⟩ := x
          cases stage with
          | reading => exact moves_accepts rfl rfl
          | refused => rfl
          | writing => rfl
        rw [hmoves]
        beta_reduce
        rw [Prog.orFail_some, Prog.ret_bind, Prog.follows_orFail_bind]
        refine ⟨fun d _ => ?_, fun _ v hv => by cases hv⟩
        rw [Prog.follows_orFail_bind]
        refine ⟨fun sum' _ => ?_, fun _ v hv => by cases hv⟩
        exact ih sum' fun h hh => hnamed h (List.mem_cons_of_mem _ hh)

theorem keeps_valueCheck (inputs : List Input) (outputs : List Output) (x : Access × Stage)
    (hstage : x.2 ≠ .writing) (hnamed : ∀ hash ∈ inputHashes inputs, hash ∈ x.1.named) :
    Prog.Follows tableAccess.allows tableAccess.moves (fun x' r => ∀ v, r = .ok v → x' = x) x
      (valueCheck inputs outputs) := by
  apply (keeps_sumInputs inputs BigDecimal.zero x hstage hnamed).bind
  · intro x' sum hr
    obtain rfl := hr sum rfl
    have hnone : Prog.Follows tableAccess.allows tableAccess.moves (fun x'' _ => x'' = x') x'
        (sumOutputs outputs BigDecimal.zero) :=
      Prog.Follows.of_uses x' (fun q hq => False.elim hq) (uses_sumOutputs (fun _ => False) _ _)
    apply hnone.bind
    · rintro x'' value rfl
      rw [Prog.follows_orFail_bind]
      exact ⟨fun remain _ v _ => rfl, fun _ v hv => by cases hv⟩
    · rintro x'' e - v hv
      cases hv
  · intro x' e _ v hv
    cases hv

theorem keeps_txValidationCheck (env : Env) (signature msg : String) (publicKey : List UInt8)
    (inputs : List Input) (outputs : List Output) :
    Prog.Follows tableAccess.allows tableAccess.moves
      (fun x' r => ∀ v, r = .ok v → v.isValid = true →
        Checked inputs (⟨inputHashes inputs, []⟩, .reading) x')
      (⟨inputHashes inputs, []⟩, .reading)
      (txValidationCheck env signature msg publicKey inputs outputs) := by
  have hreading : Stage.reading ≠ .writing := by decide
  apply (keeps_utxoCheck publicKey inputs _ hreading fun _ hhash => hhash).bind
  · intro x' isTExist hr
    obtain ⟨hnamed, hstage, hall⟩ := hr isTExist rfl
    apply (keeps_valueCheck inputs outputs x' hstage fun hash hhash => by rwa [hnamed]).bind
    · rintro x'' ⟨isTValue, remainVal⟩ hsame v hv hvalid
      obtain rfl := hsame _ rfl
      cases hv
      simp only [Bool.and_eq_true] at hvalid
      exact hall hvalid.1.2
    · rintro x'' e - v hv
      cases hv
  · intro x' e _ v hv
    cases hv

theorem uses_updateInputs {allowed : Query → Prop} (TX : String) (inputs : List Input)
    (h : ∀ hash ∈ inputHashes inputs, allowed (.updateUTXO TX hash)) :
    Prog.Uses allowed (updateInputs TX inputs) := by
  induction inputs with
  | nil => trivial
  | cons input inputs ih =>
    unfold updateInputs
    cases hhash : input.hashUTXO with
    | none => trivial
    | some hash =>
      rw [inputHashes_cons hhash] at h
      refine ⟨h hash List.mem_cons_self, fun _ => ?_⟩
      exact ih fun hash' hhash' => h hash' (List.mem_cons_of_mem _ hhash')

theorem writes_of_isInsert {m : Access} {ρ : Type} {p : TableProg ρ}
    (hp : Prog.Uses Query.IsInsert p) : tableAccess.Writes m p := by
  apply hp.mono
  intro q hq
  cases q with
  | insertTransaction => cases hq
  | updateUTXO => cases hq
  | insertUTXO => exact ⟨rfl, trivial⟩
  | selectCountOfHash => cases hq
  | selectValue => cases hq

/-- **Reads first.**  A request reads only rows it names, and once all of them are found unspent it
writes, and marks no other row. -/
theorem keeps_receiveFromClient (env : Env) (req : Request) :
    tableAccess.Keeps ⟨inputHashes req.message.inputs, []⟩ (receiveFromClient env req) := by
  unfold receiveFromClient Discipline.Keeps
  cases decodeHex req.message.publicKey with
  | none => trivial
  | some publicKey =>
    rw [Prog.orFail_some, Prog.ret_bind]
    apply (keeps_txValidationCheck env _ _ publicKey _ _).bind
    · intro x v hv
      by_cases hvalid : v.isValid = true
      · obtain ⟨hnamed, -, hstage, hfound⟩ := hv v rfl hvalid
        obtain ⟨m, stage⟩ := x
        obtain rfl : stage = .reading := hstage
        rw [if_pos hvalid]
        apply follows_of_writes _ (by decide)
        refine ⟨⟨rfl, trivial⟩, fun _ => ?_⟩
        have hmay (hash : String) (hhash : hash ∈ inputHashes req.message.inputs) :
            hash ∈ m.named ∧ hash ∈ m.found := by
          refine ⟨?_, hfound rfl hash hhash⟩
          rw [show m.named = _ from hnamed]
          exact hhash
        apply Prog.Uses.bind (uses_updateInputs _ _ fun hash hhash => ⟨rfl, hmay hash hhash⟩)
        intro _
        apply Prog.Uses.bind (writes_of_isInsert (uses_insertOutputs env _ _ _))
        intro _
        apply Prog.Uses.bind (writes_of_isInsert (uses_insertRemain env _ _ _))
        intro _
        trivial
      · rw [if_neg hvalid]
        trivial
    · intro x e _
      trivial

/-- Whether the thread has written. -/
def hasWritten (wrote : Bool) (q : Query) (_ : Answer q) : Bool := wrote || !q.selects

theorem follows_hasWritten {ρ : Type} (p : TableProg ρ) :
    Prog.Follows (fun _ _ => True) hasWritten (fun wrote _ => wrote = true) true p := by
  refine .of_invariant (fun wrote => wrote = true) (fun _ _ _ => trivial) ?_ (fun _ _ h => h) rfl p
  rintro wrote q - rfl
  exact Bool.true_or _

/-- A request that is answered "Valid TX" has written. -/
theorem hasWritten_receiveFromClient (env : Env) (req : Request) :
    Prog.Follows (fun _ _ => True) hasWritten (fun wrote r => r = .ok "Valid TX" → wrote = true) false
      (receiveFromClient env req) := by
  unfold receiveFromClient
  cases decodeHex req.message.publicKey with
  | none =>
    intro h
    cases h
  | some publicKey =>
    rw [Prog.orFail_some, Prog.ret_bind]
    have hchecks (p : TableProg Validation) :
        Prog.Follows (fun _ _ => True) hasWritten (fun _ _ => True) false p :=
      .of_invariant (fun _ => True) (fun _ _ _ => trivial) (fun _ _ _ _ => trivial)
        (fun _ _ _ => trivial) trivial p
    apply (hchecks (txValidationCheck env _ _ publicKey _ _)).bind
    · intro wrote v _
      by_cases hvalid : v.isValid = true
      · rw [if_pos hvalid]
        refine ⟨trivial, fun _ => ?_⟩
        have hwrote : hasWritten wrote (.insertTransaction (hashHex env (env.toJSONString req.message))
            (env.toJSONString req.message)) () = true := Bool.or_true wrote
        rw [hwrote]
        refine (follows_hasWritten _).mono ?_
        intro _ _ h _
        exact h
      · rw [if_neg hvalid]
        intro h
        exact absurd h (by decide)
    · intro wrote e _ h
      cases h

/-! ## Any interleaving -/

/-- No row is named by two requests. -/
def Apart {ι : Type} (req : ι → Request) : Prop :=
  ∀ i j, i ≠ j → ∀ hash ∈ inputHashes (req i).message.inputs,
    hash ∉ inputHashes (req j).message.inputs

section

variable {ι : Type} [DecidableEq ι] {env : Env} {req : ι → Request} {t : Tables}

omit [DecidableEq ι] in
theorem serial_eq_serve (order : List ι) :
    serial perform (fun i => receiveFromClient env (req i)) t order =
      StepRun.run (serve env) t (order.map req) := by
  induction order generalizing t with
  | nil => rfl
  | cons i order ih => exact ih

/-- The monitor has seen a write exactly if the log has one. -/
theorem track_hasWritten {i : ι} {log : List (TableEvent ι)}
    (h : Config.track hasWritten false i log = true) :
    ∃ e ∈ log, e.thread = i ∧ e.query.selects = false := by
  induction log with
  | nil => cases h
  | cons e log ih =>
    rw [Config.track] at h
    split at h
    next hthread =>
      rcases Bool.or_eq_true_iff.mp h with hold | hwrite
      · obtain ⟨e', he', hrest⟩ := ih hold
        exact ⟨e', List.mem_cons_of_mem _ he', hrest⟩
      · exact ⟨e, List.mem_cons_self, hthread, by simpa using hwrite⟩
    next =>
      obtain ⟨e', he', hrest⟩ := ih h
      exact ⟨e', List.mem_cons_of_mem _ he', hrest⟩

variable {final : Servers ι} {sched : List ι}

theorem mem_commitOrder_of_valid (hfinal : (startAll env req t).exec perform sched = final) {i : ι}
    (hvalid : final.thread i = .ret "Valid TX") : i ∈ commitOrder Query.selects final.log := by
  have hall : Config.AllFollow (fun _ _ => True) hasWritten
      (fun _ wrote r => r = .ok "Valid TX" → wrote = true) (fun _ => false) final := by
    rw [← hfinal]
    exact StepRun.invariant_run (Config.step perform) (D := fun _ _ => True)
      (fun c i hc _ => Config.follows_step perform c i hc)
      (fun i => hasWritten_receiveFromClient env (req i)) (StepRun.along_of_forall _ (fun _ _ => trivial) _ _)
  have hend := hall i
  rw [hvalid] at hend
  exact mem_commitOrder.mpr (track_hasWritten (hend rfl))

theorem exec_serve (hfinal : (startAll env req t).exec perform sched = final) (hapart : Apart req)
    (hended : ∀ i, ¬ final.Live i) (hnames : final.store.names.Nodup) :
    SameRows final.store
        (StepRun.run (serve env) t ((commitOrder Query.selects final.log).map req)) ∧
      ∀ before i after, commitOrder Query.selects final.log = before ++ i :: after →
        final.thread i =
          Prog.ofResult (call env (req i) (StepRun.run (serve env) t (before.map req))).1 := by
  have hrun := tableAccess_lawful.exec_serial (fun i => keeps_receiveFromClient env (req i)) hapart
    (fun i hash hhash => absurd hhash List.not_mem_nil) hfinal (fun i _ => hended i) hnames
  simp only [serial_eq_serve] at hrun
  exact hrun

end

/-- **Serial order.**  Requests that name no common row, interleaved in any way until all of them have
ended with distinct row names: the tables have the rows, and the requests that have written have the
answers, of serving these one after the other in the order of their first writes; every request that
was answered "Valid TX" is among them. -/
theorem serializable {ι : Type} [DecidableEq ι] (env : Env) (req : ι → Request) (t : Tables)
    (sched : List ι) (final : Servers ι) (hfinal : (startAll env req t).exec perform sched = final)
    (hapart : Apart req) (hended : ∀ i, ¬ final.Live i) (hnames : final.store.names.Nodup) :
    SameRows final.store
        (StepRun.run (serve env) t ((commitOrder Query.selects final.log).map req)) ∧
      (∀ before i after, commitOrder Query.selects final.log = before ++ i :: after →
        final.thread i =
          Prog.ofResult (call env (req i) (StepRun.run (serve env) t (before.map req))).1) ∧
      ∀ i, final.thread i = .ret "Valid TX" → i ∈ commitOrder Query.selects final.log := by
  obtain ⟨hrows, hanswers⟩ := exec_serve hfinal hapart hended hnames
  exact ⟨hrows, hanswers, fun i hvalid => mem_commitOrder_of_valid hfinal hvalid⟩

/-- Two owners' requests, each for a row of its own. -/
def neighbours : Bool → Request
  | false => spendRequest ["c1"] [("5", "bb")] "m"
  | true => spendRequest ["c2"] [("3", "cc")] "n"

/-- Both requests check their rows before either writes, and their writes alternate. -/
def alternating : List Bool :=
  [false, true, true, false, true, false, true, false, true, false, true, true]

def neighboursEnd : Servers Bool :=
  (startAll openEnv neighbours ⟨[], [coin "c1" "5", coin "c2" "7"]⟩).exec perform alternating

theorem neighbours_apart : Apart neighbours := by
  unfold Apart
  decide

theorem neighbours_ended (i : Bool) : ¬ neighboursEnd.Live i := by
  rintro ⟨q, k, hk⟩
  cases i with
  | false =>
    have hend : neighboursEnd.thread false = .ret "Valid TX" := by rfl
    rw [hend] at hk
    cases hk
  | true =>
    have hend : neighboursEnd.thread true = .ret "Valid TX" := by rfl
    rw [hend] at hk
    cases hk

theorem neighbours_names : neighboursEnd.store.names.Nodup := by decide +kernel

theorem serializable_neighbours :
    SameRows neighboursEnd.store (StepRun.run (serve openEnv)
        ⟨[], [coin "c1" "5", coin "c2" "7"]⟩
        ((commitOrder Query.selects neighboursEnd.log).map neighbours)) ∧
      (∀ before i after, commitOrder Query.selects neighboursEnd.log = before ++ i :: after →
        neighboursEnd.thread i = Prog.ofResult (call openEnv (neighbours i)
          (StepRun.run (serve openEnv) ⟨[], [coin "c1" "5", coin "c2" "7"]⟩
            (before.map neighbours))).1) ∧
      ∀ i, neighboursEnd.thread i = .ret "Valid TX" →
        i ∈ commitOrder Query.selects neighboursEnd.log :=
  serializable openEnv neighbours ⟨[], [coin "c1" "5", coin "c2" "7"]⟩ alternating neighboursEnd rfl
    neighbours_apart neighbours_ended neighbours_names

/-! ## No coin from nothing, in any interleaving -/

theorem SameRows.heldWorth {t t' : Tables} (h : SameRows t t') (keys : String → Prop)
    [DecidablePred keys] :
    Transaction.heldWorth keys t.utxos = Transaction.heldWorth keys t'.utxos := by
  unfold Transaction.heldWorth weigh
  exact (h.2.map _).sum_eq

theorem run_fair (env : Env) {t : Tables} {reqs : List Request} (hpos : Positive t.utxos)
    (hfair : ∀ req ∈ reqs, Fair req) :
    Positive (StepRun.run (serve env) t reqs).utxos ∧
      unspentWorth (StepRun.run (serve env) t reqs).utxos ≤ unspentWorth t.utxos := by
  induction reqs generalizing t with
  | nil => exact ⟨hpos, le_refl _⟩
  | cons req reqs ih =>
    obtain ⟨hpos', hle⟩ := serve_fair hpos fun _ => hfair req List.mem_cons_self
    obtain ⟨hrows, hrest⟩ := ih hpos' fun req' hmem => hfair req' (List.mem_cons_of_mem _ hmem)
    exact ⟨hrows, le_trans hrest hle⟩

/-- **No coin from nothing.**  Fair requests that name no common row, interleaved in any way, leave to
no group of keys more than all rows were worth before. -/
theorem no_coin_interleaved {ι : Type} [DecidableEq ι] (env : Env) (req : ι → Request) (t : Tables)
    (sched : List ι) (final : Servers ι) (hfinal : (startAll env req t).exec perform sched = final)
    (hapart : Apart req) (hended : ∀ i, ¬ final.Live i) (hnames : final.store.names.Nodup)
    (hpos : Positive t.utxos) (hfair : ∀ i, Fair (req i)) :
    Positive final.store.utxos ∧ ∀ (keys : String → Prop) [DecidablePred keys],
      heldWorth keys final.store.utxos ≤ totalWorth t.utxos := by
  obtain ⟨hrows, -⟩ := exec_serve hfinal hapart hended hnames
  have hreqs : ∀ r ∈ (commitOrder Query.selects final.log).map req, Fair r := by
    intro r hr
    obtain ⟨i, -, rfl⟩ := List.mem_map.mp hr
    exact hfair i
  obtain ⟨hserial, hworth⟩ := run_fair env hpos hreqs
  refine ⟨fun u hu => hserial u (hrows.2.mem_iff.mp hu), fun keys _ => ?_⟩
  rw [hrows.heldWorth keys]
  calc heldWorth keys _ ≤ unspentWorth _ := heldWorth_le hserial keys
    _ ≤ unspentWorth t.utxos := hworth
    _ ≤ totalWorth t.utxos := unspentWorth_le_total hpos

theorem no_coin_neighbours :
    Positive neighboursEnd.store.utxos ∧ ∀ (keys : String → Prop) [DecidablePred keys],
      heldWorth keys neighboursEnd.store.utxos ≤ totalWorth [coin "c1" "5", coin "c2" "7"] := by
  have h5 : worth "5" = (5 : Int) := worth_int (by decide)
  have h7 : worth "7" = (7 : Int) := worth_int (by decide)
  have h3 : worth "3" = (3 : Int) := worth_int (by decide)
  have hpos : Positive [coin "c1" "5", coin "c2" "7"] := by
    intro u hu
    rcases List.mem_cons.mp hu with rfl | hu
    · show 0 < worth "5"
      rw [h5]
      norm_num
    · rw [List.mem_singleton.mp hu]
      show 0 < worth "7"
      rw [h7]
      norm_num
  have hfair : ∀ i, Fair (neighbours i) := by
    intro i
    cases i with
    | false =>
      refine ⟨by decide, fun output ho => ?_⟩
      rw [List.mem_singleton.mp ho]
      show 0 < worth "5"
      rw [h5]
      norm_num
    | true =>
      refine ⟨by decide, fun output ho => ?_⟩
      rw [List.mem_singleton.mp ho]
      show 0 < worth "3"
      rw [h3]
      norm_num
  exact no_coin_interleaved openEnv neighbours ⟨[], [coin "c1" "5", coin "c2" "7"]⟩ alternating
    neighboursEnd rfl neighbours_apart neighbours_ended neighbours_names hpos hfair

end MoaCrypto.Transaction
