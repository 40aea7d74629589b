import MoaCrypto.Transaction.Worth

/-!
# The names of new rows

A row is named by the digest of its index, value, public key and transaction, written one after the
other.  Nothing stands between the index and the value, so the names of two outputs are equal
exactly if the index of the later one continues that of the earlier one by digits with which the
value of the earlier one begins (`Slides`): never among the first nine outputs, and never with the
change, whose index is `0`.
-/

namespace MoaCrypto.Transaction

open Java QueryProg

/-- The text whose digest names the row. -/
def Utxo.name (u : Utxo) : String := u.index ++ u.value ++ u.publicKey ++ u.headHashTX

/-- The rows that a call adds to the table. -/
def insertedUtxos (env : Env) (t : Tables) (req : Request) : List Utxo :=
  (call env req t).2.utxos.drop t.utxos.length

/-- The index of a later output is that of an earlier one and digits `w`, and `w` is what value and
key of the earlier one have in front of value and key of the later one. -/
def Slides (outputs : List Output) : Prop :=
  ∃ i j value publicKey value' publicKey' w, i < j ∧
    outputs[i]? = some ⟨some value, some publicKey⟩ ∧
    outputs[j]? = some ⟨some value', some publicKey'⟩ ∧
    Nat.toDigits 10 (j + 1) = Nat.toDigits 10 (i + 1) ++ w ∧
    value.toList ++ publicKey.toList = w ++ (value'.toList ++ publicKey'.toList)

/-! ## Decimals -/

theorem le_ofDigitChars (cs : List Char) (n : Nat) : n ≤ Nat.ofDigitChars 10 cs n := by
  induction cs generalizing n with
  | nil => rw [Nat.ofDigitChars_nil]
  | cons c cs ih =>
    rw [Nat.ofDigitChars_cons]
    have h := ih (10 * n + (c.toNat - '0'.toNat))
    omega

/-- A number is at least the one that its first digits denote. -/
theorem le_of_toDigits_append {m n : Nat} {w : List Char}
    (h : Nat.toDigits 10 m = Nat.toDigits 10 n ++ w) : n ≤ m := by
  have hvalue := congrArg (fun cs => Nat.ofDigitChars 10 cs 0) h
  simp only [Nat.ofDigitChars_append, Nat.ofDigitChars_ten_toDigits] at hvalue
  rw [hvalue]
  exact le_ofDigitChars w n

theorem digitChar_ne_zero {n : Nat} (hn : 0 < n) (hlt : n < 10) : n.digitChar ≠ '0' := by
  have hall : ∀ m : Fin 10, 0 < m.val → m.val.digitChar ≠ '0' := by decide
  exact hall ⟨n, hlt⟩ hn

theorem head_toDigits {n : Nat} (hn : 0 < n) {c : Char} {cs : List Char}
    (h : Nat.toDigits 10 n = c :: cs) : c ≠ '0' := by
  induction n using Nat.strongRecOn generalizing c cs with
  | ind n ih =>
    by_cases hlt : n < 10
    · rw [Nat.toDigits_of_lt_base hlt] at h
      rw [← (List.cons.inj h).1]
      exact digitChar_ne_zero hn hlt
    · rw [Nat.toDigits_of_base_le (by omega) (by omega)] at h
      rcases hdigits : Nat.toDigits 10 (n / 10) with _ | ⟨c', cs'⟩
      · exact absurd hdigits Nat.toDigits_ne_nil
      · rw [hdigits, List.cons_append] at h
        rw [← (List.cons.inj h).1]
        exact ih (n / 10) (by omega) (by omega) hdigits

/-! ## Names -/

theorem newUtxo_name (env : Env) (TX : String) (i : Nat) (value publicKey : String) :
    (newUtxo env TX i value publicKey).name = utxoName i value publicKey TX := rfl

theorem toList_utxoName (i : Nat) (value publicKey TX : String) :
    (utxoName i value publicKey TX).toList =
      Nat.toDigits 10 i ++ (value.toList ++ publicKey.toList ++ TX.toList) := by
  simp [utxoName]

/-- Two outputs of one transaction have one name only if the digits of the later index continue
those of the earlier one. -/
theorem utxoName_eq_iff {i j : Nat} (hij : i < j) (value publicKey value' publicKey' TX : String) :
    utxoName i value publicKey TX = utxoName j value' publicKey' TX ↔
      ∃ w, Nat.toDigits 10 j = Nat.toDigits 10 i ++ w ∧
        value.toList ++ publicKey.toList = w ++ (value'.toList ++ publicKey'.toList) := by
  rw [← String.toList_inj, toList_utxoName, toList_utxoName]
  constructor
  · intro h
    rcases List.append_eq_append_iff.mp h with ⟨w, hj, hrest⟩ | ⟨w, hi, -⟩
    · rw [← List.append_assoc] at hrest
      exact ⟨w, hj, List.append_cancel_right hrest⟩
    · have hle := le_of_toDigits_append hi
      omega
  · rintro ⟨w, hj, hrest⟩
    rw [hj, hrest]
    simp only [List.append_assoc]

theorem utxoName_zero_ne {i : Nat} (hi : 0 < i) (value publicKey value' publicKey' TX : String) :
    utxoName i value publicKey TX ≠ utxoName 0 value' publicKey' TX := by
  intro h
  rw [← String.toList_inj, toList_utxoName, toList_utxoName, Nat.toDigits_zero] at h
  rcases hdigits : Nat.toDigits 10 i with _ | ⟨c, cs⟩
  · exact absurd hdigits Nat.toDigits_ne_nil
  · rw [hdigits] at h
    exact head_toDigits hi hdigits (List.cons.inj h).1

/-! ## Rows -/

theorem getElem?_newUtxos (env : Env) (TX : String) (i n : Nat) (outputs : List Output) :
    (newUtxos env TX i outputs)[n]? =
      (outputs.takeWhile fun output => output.Complete)[n]?.bind fun output =>
        output.value.bind fun value => output.publicKey.map fun publicKey =>
          newUtxo env TX (i + n) value publicKey := by
  induction outputs generalizing i n with
  | nil => rfl
  | cons output outputs ih =>
    obtain ⟨_ | value, _ | publicKey⟩ := output
    · simp [newUtxos, Output.Complete]
    · simp [newUtxos, Output.Complete]
    · simp [newUtxos, Output.Complete]
    · rw [newUtxos, List.takeWhile_cons_of_pos (by simp [Output.Complete])]
      cases n with
      | zero => rfl
      | succ n =>
        rw [List.getElem?_cons_succ, List.getElem?_cons_succ, ih, Nat.add_right_comm, Nat.add_assoc]

theorem hashHex_injective {env : Env} (h : Function.Injective env.doubleDigest) :
    Function.Injective (hashHex env) := fun _ _ heq => utf8_injective (h (encodeHexString_injective heq))

/-- The row of output `n`, counted from zero. -/
theorem newUtxos_row {env : Env} {TX : String} {outputs : List Output} {n : Nat} {u : Utxo}
    (h : (newUtxos env TX 1 outputs)[n]? = some u) : ∃ value publicKey,
      (outputs.takeWhile fun output => output.Complete)[n]? = some ⟨some value, some publicKey⟩ ∧
        u = newUtxo env TX (n + 1) value publicKey := by
  rw [getElem?_newUtxos] at h
  obtain ⟨⟨_, _⟩, houtput, hvalue⟩ := Option.bind_eq_some_iff.mp h
  obtain ⟨value, rfl, hkey⟩ := Option.bind_eq_some_iff.mp hvalue
  obtain ⟨publicKey, rfl, hrow⟩ := Option.map_eq_some_iff.mp hkey
  rw [Nat.add_comm] at hrow
  exact ⟨value, publicKey, houtput, hrow.symm⟩

theorem newUtxos_of_output {env : Env} {TX : String} {outputs : List Output} {n : Nat}
    {value publicKey : String}
    (h : (outputs.takeWhile fun output => output.Complete)[n]? = some ⟨some value, some publicKey⟩) :
    (newUtxos env TX 1 outputs)[n]? = some (newUtxo env TX (n + 1) value publicKey) := by
  rw [getElem?_newUtxos, h, Nat.add_comm]
  rfl

/-- The names of the outputs' rows are distinct unless one slides into another. -/
theorem nodup_newUtxos_iff (env : Env) (TX : String) (outputs : List Output) :
    ((newUtxos env TX 1 outputs).map Utxo.name).Nodup ↔
      ¬ Slides (outputs.takeWhile fun output => output.Complete) := by
  rw [List.nodup_iff_getElem?_ne_getElem?]
  constructor
  · rintro hnodup ⟨i, j, value, publicKey, value', publicKey', w, hij, hi, hj, hdigits, hrest⟩
    have hrow : (newUtxos env TX 1 outputs)[i]? = _ := newUtxos_of_output hi
    have hrow' : (newUtxos env TX 1 outputs)[j]? = _ := newUtxos_of_output hj
    obtain ⟨hlt, -⟩ := List.getElem?_eq_some_iff.mp hrow'
    refine hnodup i j hij (by rwa [List.length_map]) ?_
    rw [List.getElem?_map, List.getElem?_map, hrow, hrow', Option.map_some, Option.map_some,
      newUtxo_name, newUtxo_name]
    exact congrArg some ((utxoName_eq_iff (by omega) _ _ _ _ TX).mpr ⟨w, hdigits, hrest⟩)
  · intro hslides i j hij hj heq
    rw [List.length_map] at hj
    rw [List.getElem?_map, List.getElem?_map, List.getElem?_eq_getElem hj,
      List.getElem?_eq_getElem (hij.trans hj)] at heq
    obtain ⟨value, publicKey, hi', hu⟩ := newUtxos_row (List.getElem?_eq_getElem (hij.trans hj))
    obtain ⟨value', publicKey', hj', hu'⟩ := newUtxos_row (List.getElem?_eq_getElem hj)
    rw [hu, hu', Option.map_some, Option.map_some, newUtxo_name, newUtxo_name] at heq
    obtain ⟨w, hdigits, hrest⟩ := (utxoName_eq_iff (by omega) _ _ _ _ TX).mp (Option.some.inj heq)
    exact hslides ⟨i, j, value, publicKey, value', publicKey', w, hij, hi', hj', hdigits, hrest⟩

theorem changeUtxos_name {env : Env} {req : Request} {publicKey : List UInt8} {remain : BigDecimal}
    {u : Utxo} (hu : u ∈ changeUtxos env req publicKey remain) :
    u = newUtxo env (hashHex env (env.toJSONString req.message)) 0 remain.toString
      (encodeHexString publicKey) := by
  unfold changeUtxos at hu
  split at hu
  · exact List.mem_singleton.mp hu
  · cases hu

/-- The change row has a name of its own. -/
theorem nodup_inserted_iff (env : Env) (req : Request) (publicKey : List UInt8) (remain : BigDecimal)
    {change : List Utxo} (hchange : change = [] ∨ change = changeUtxos env req publicKey remain) :
    ((newUtxos env (hashHex env (env.toJSONString req.message)) 1 req.message.outputs ++
        change).map Utxo.name).Nodup ↔
      ¬ Slides (req.message.outputs.takeWhile fun output => output.Complete) := by
  rw [List.map_append, List.nodup_append, nodup_newUtxos_iff]
  have hsingle : (change.map Utxo.name).Nodup := by
    rcases hchange with rfl | rfl
    · exact List.nodup_nil
    · unfold changeUtxos
      split
      · exact List.nodup_singleton _
      · exact List.nodup_nil
  refine ⟨fun h => h.1, fun h => ⟨h, hsingle, ?_⟩⟩
  rintro name hname name' hname' rfl
  obtain ⟨u, hu, hu'⟩ := List.mem_map.mp hname
  obtain ⟨v, hv, hv'⟩ := List.mem_map.mp hname'
  rcases hchange with rfl | rfl
  · cases hv
  · obtain ⟨n, hn⟩ := List.mem_iff_getElem?.mp hu
    obtain ⟨value, key, -, hrow⟩ := newUtxos_row hn
    rw [hrow, newUtxo_name] at hu'
    rw [changeUtxos_name hv, newUtxo_name, ← hu'] at hv'
    exact utxoName_zero_ne (by omega) _ _ _ _ _ hv'.symm

/-- The rows that a request adds which passes the checks. -/
theorem insertedUtxos_of_accepts {env : Env} {t : Tables} {req : Request}
    (h : Accepts env t.utxos req) : ∃ publicKey remain change,
      (change = [] ∨ change = changeUtxos env req publicKey remain) ∧
      insertedUtxos env t req =
        newUtxos env (hashHex env (env.toJSONString req.message)) 1 req.message.outputs ++ change := by
  obtain ⟨publicKey, sum, value, remain, hp⟩ := h
  have hdrop : ∀ change, (committed env t req change).utxos.drop t.utxos.length =
      newUtxos env (hashHex env (env.toJSONString req.message)) 1 req.message.outputs ++ change := by
    intro change
    rw [committed, List.append_assoc]
    exact List.drop_left' (by rw [List.length_map])
  have hc := commit_of_passes env hp
  unfold insertedUtxos
  generalize call env req t = r at hc
  cases hc with
  | done => exact ⟨publicKey, remain, _, Or.inr rfl, hdrop _⟩
  | noChange => exact ⟨publicKey, remain, [], Or.inl rfl, hdrop _⟩
  | incomplete => exact ⟨publicKey, remain, [], Or.inl rfl, hdrop _⟩

theorem hashUTXO_eq_name {env : Env} {TX : String} {i : Nat} {outputs : List Output} {u : Utxo}
    (hu : u ∈ newUtxos env TX i outputs) : u.hashUTXO = hashHex env u.name := by
  obtain ⟨n, hn⟩ := List.mem_iff_getElem?.mp hu
  rw [getElem?_newUtxos] at hn
  obtain ⟨output, -, hn⟩ := Option.bind_eq_some_iff.mp hn
  obtain ⟨value, -, hn⟩ := Option.bind_eq_some_iff.mp hn
  obtain ⟨publicKey, -, rfl⟩ := Option.map_eq_some_iff.mp hn
  rfl

/-- **Names of new rows.**  Every row that an accepted request adds is named by the digest of its
name, and these names (with a digest free of collisions, the ids too) are distinct exactly if no
output that is written slides into a later one. -/
theorem distinct_names_iff (env : Env) (t : Tables) (req : Request) (h : Accepts env t.utxos req) :
    (∀ u ∈ insertedUtxos env t req, u.hashUTXO = hashHex env u.name) ∧
      (((insertedUtxos env t req).map Utxo.name).Nodup ↔
        ¬ Slides (req.message.outputs.takeWhile fun output => output.Complete)) ∧
      (Function.Injective env.doubleDigest →
        (((insertedUtxos env t req).map Utxo.hashUTXO).Nodup ↔
          ¬ Slides (req.message.outputs.takeWhile fun output => output.Complete))) := by
  obtain ⟨publicKey, remain, change, hchange, hinserted⟩ := insertedUtxos_of_accepts h
  have hname : ∀ u ∈ insertedUtxos env t req, u.hashUTXO = hashHex env u.name := by
    intro u hu
    rw [hinserted] at hu
    rcases List.mem_append.mp hu with hu | hu
    · exact hashUTXO_eq_name hu
    · rcases hchange with rfl | rfl
      · cases hu
      · rw [changeUtxos_name hu]
        rfl
  have hnodup : ((insertedUtxos env t req).map Utxo.name).Nodup ↔
      ¬ Slides (req.message.outputs.takeWhile fun output => output.Complete) := by
    rw [hinserted]
    exact nodup_inserted_iff env req publicKey remain hchange
  refine ⟨hname, hnodup, fun hinj => ?_⟩
  have hhashes : (insertedUtxos env t req).map Utxo.hashUTXO =
      ((insertedUtxos env t req).map Utxo.name).map (hashHex env) := by
    rw [List.map_map]
    exact List.map_congr_left hname
  rw [hhashes, List.nodup_map_iff (hashHex_injective hinj), hnodup]

/-- The first nine outputs have indices of one digit. -/
theorem not_slides_of_length {outputs : List Output} (h : outputs.length ≤ 9) : ¬ Slides outputs := by
  rintro ⟨i, j, _, _, _, _, w, hij, _, hj, hdigits, _⟩
  obtain ⟨hlt, -⟩ := List.getElem?_eq_some_iff.mp hj
  rw [Nat.toDigits_of_lt_base (show j + 1 < 10 by omega),
    Nat.toDigits_of_lt_base (show i + 1 < 10 by omega)] at hdigits
  have hchar : Nat.digitChar (j + 1) = Nat.digitChar (i + 1) := (List.cons.inj hdigits).1
  have hall : ∀ m n : Fin 10, m.val.digitChar = n.val.digitChar → m = n := by decide
  have hsame := hall ⟨j + 1, by omega⟩ ⟨i + 1, by omega⟩ hchar
  have hval : j + 1 = i + 1 := congrArg Fin.val hsame
  omega

/-- One output and the change. -/
theorem distinct_names_single :
    Accepts openEnv [coin "c1" "5"] (spendRequest ["c1"] [("3", "bb")] "m") ∧
    ((∀ u ∈ insertedUtxos openEnv ⟨[], [coin "c1" "5"]⟩ (spendRequest ["c1"] [("3", "bb")] "m"),
        u.hashUTXO = hashHex openEnv u.name) ∧
      (((insertedUtxos openEnv ⟨[], [coin "c1" "5"]⟩ (spendRequest ["c1"] [("3", "bb")] "m")).map
          Utxo.name).Nodup ↔
        ¬ Slides ((spendRequest ["c1"] [("3", "bb")] "m").message.outputs.takeWhile
          fun output => output.Complete)) ∧
      (Function.Injective openEnv.doubleDigest →
        (((insertedUtxos openEnv ⟨[], [coin "c1" "5"]⟩ (spendRequest ["c1"] [("3", "bb")] "m")).map
            Utxo.hashUTXO).Nodup ↔
          ¬ Slides ((spendRequest ["c1"] [("3", "bb")] "m").message.outputs.takeWhile
            fun output => output.Complete)))) := by
  have haccepts : Accepts openEnv [coin "c1" "5"] (spendRequest ["c1"] [("3", "bb")] "m") := by
    by_contra hn
    exact (call_of_not_accepts (t := ⟨[], [coin "c1" "5"]⟩) hn).2 (by decide)
  exact ⟨haccepts, distinct_names_iff openEnv ⟨[], [coin "c1" "5"]⟩ _ haccepts⟩

/-- Eleven outputs for one key, of which the first is worth 15 and the last 5. -/
def slidingRequest : Request :=
  spendRequest ["c1"] (("15", "bb") :: (List.replicate 9 ("1", "bb") ++ [("5", "bb")])) "m"

/-- `1` and `15`, `11` and `5`: the first and the last row are named alike. -/
theorem names_slide :
    (call openEnv slidingRequest ⟨[], [coin "c1" "29"]⟩).1 = .ok "Valid TX" ∧
    Function.Injective openEnv.doubleDigest ∧
    ¬ ((insertedUtxos openEnv ⟨[], [coin "c1" "29"]⟩ slidingRequest).map Utxo.name).Nodup ∧
    ¬ ((insertedUtxos openEnv ⟨[], [coin "c1" "29"]⟩ slidingRequest).map Utxo.hashUTXO).Nodup := by
  refine ⟨by decide, fun _ _ h => h, by decide, by decide⟩

end MoaCrypto.Transaction
