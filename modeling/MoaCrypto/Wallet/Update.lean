import MoaCrypto.Java.PropertyFields
import MoaCrypto.Wallet.Reset

/-!
# The update of the restore wallet (`BlockchainWalletFileUpdate`)

The temporary wallet is read and written over the restore wallet.  Version and name of the system are
read, too, but `BlockchainWalletInfoGen` writes those of the running platform in their place, while
the MAC is copied.  The other values are written as they are read, without the escapes they may have
been read from.  The restore wallet is the temporary one where the platform is the same and the values
are kept (`fileUpdate_keeps_iff`).
-/

namespace MoaCrypto.Wallet

open Java Properties

/-- The wallet of the file that a `restoreFlagStr` names, where its MAC is that of the password. -/
def verifiedWallet (p : Provider) (files : Files) (passwordStr restoreFlagStr : String) :
    Option StoredWallet := do
  let name ← walletFile restoreFlagStr
  let bytes ← files name
  let w ← loadWallet bytes
  if w.macPasses p passwordStr = some true then some w else none

theorem verifiedWallet_eq_some {p : Provider} {files : Files} {psw flag : String} {w : StoredWallet} :
    verifiedWallet p files psw flag = some w ↔
      (∃ name bytes, walletFile flag = some name ∧ files name = some bytes ∧ loadWallet bytes = some w) ∧
        w.macPasses p psw = some true := by
  constructor
  · intro h
    obtain ⟨name, hname, h⟩ := Option.bind_eq_some_iff.mp h
    obtain ⟨bytes, hbytes, h⟩ := Option.bind_eq_some_iff.mp h
    obtain ⟨w', hw', h⟩ := Option.bind_eq_some_iff.mp h
    split at h
    · rename_i hpasses
      cases h
      exact ⟨⟨name, bytes, hname, hbytes, hw'⟩, hpasses⟩
    · cases h
  · rintro ⟨⟨name, bytes, hname, hbytes, hw⟩, hpasses⟩
    simp only [verifiedWallet, Option.bind_eq_bind, hname, hbytes, hw, Option.bind_some, hpasses, if_true]

/-- `BlockchainTransactionSign` goes on to the decryption. -/
theorem transactionSigning_verified {p : Provider} {files : Files} {psw flag : String} {w : StoredWallet}
    (h : verifiedWallet p files psw flag = some w) :
    transactionSigning p files psw flag = w.signing p psw ∧
      transactionSigning p files psw flag ≠ some .integrityFail := by
  obtain ⟨⟨name, bytes, hname, hbytes, hw⟩, hpasses⟩ := verifiedWallet_eq_some.mp h
  have hsigning : transactionSigning p files psw flag = w.signing p psw := by
    simp only [transactionSigning, Option.bind_eq_bind, hname, hbytes, hw, Option.bind_some]
  refine ⟨hsigning, fun hfail => ?_⟩
  rw [hsigning, StoredWallet.signing, hpasses] at hfail
  simp only [Option.bind_eq_bind, Option.bind_some, not_true_eq_false, if_false] at hfail
  obtain ⟨_, _, hfail⟩ := Option.bind_eq_some_iff.mp hfail
  obtain ⟨_, _, hfail⟩ := Option.bind_eq_some_iff.mp hfail
  obtain ⟨_, _, hfail⟩ := Option.bind_eq_some_iff.mp hfail
  cases hfail

/-! ## What is read -/

/-- The keys of the values that are copied as they are read. -/
def copiedKeys : List String :=
  ["Wallet.Type", "Salt.Value", "Ciphered.Data", "Wallet.PublicKey", "Wallet.Addr", "MAC.Data"]

/-- The fields of these keys. -/
def StoredWallet.copied (w : StoredWallet) : List (String × String) :=
  copiedKeys.zip [w.info.walletTypeStr, w.info.saltBase58Str, w.info.cipheredDataBase58Str,
    w.info.walletPublicKeyBase58Str, w.info.walletAddrBase58Str, w.macDataBase58Str]

/-- The wallet of the properties. -/
structure Loads (prop : List (String × String)) (w : StoredWallet) : Prop where
  versionInfo : (getProperty prop "Version.Info").bind Integer.valueOf = some w.info.versionInfo
  osInfo : trimmedProperty prop "OS.Info" = some w.info.osInfo
  iterationCount : (getProperty prop "Iteration.Count").bind Integer.valueOf = some w.info.iterationCount
  copied : ∀ q ∈ w.copied, trimmedProperty prop q.1 = some q.2

theorem loadWallet_eq_some {bytes : List UInt8} {w : StoredWallet} :
    loadWallet bytes = some w ↔ ∃ prop, load bytes = some prop ∧ Loads prop w := by
  constructor
  · intro h
    obtain ⟨prop, hprop, h⟩ := Option.bind_eq_some_iff.mp h
    obtain ⟨version, hversion, h⟩ := Option.bind_eq_some_iff.mp h
    obtain ⟨os, hos, h⟩ := Option.bind_eq_some_iff.mp h
    obtain ⟨type, htype, h⟩ := Option.bind_eq_some_iff.mp h
    obtain ⟨salt, hsalt, h⟩ := Option.bind_eq_some_iff.mp h
    obtain ⟨count, hcount, h⟩ := Option.bind_eq_some_iff.mp h
    obtain ⟨cipher, hcipher, h⟩ := Option.bind_eq_some_iff.mp h
    obtain ⟨puk, hpuk, h⟩ := Option.bind_eq_some_iff.mp h
    obtain ⟨addr, haddr, h⟩ := Option.bind_eq_some_iff.mp h
    obtain ⟨mac, hmac, h⟩ := Option.bind_eq_some_iff.mp h
    cases h
    refine ⟨prop, hprop, hversion, hos, hcount, ?_⟩
    simp only [StoredWallet.copied, copiedKeys, List.zip_cons_cons, List.zip_nil_right, List.mem_cons,
      List.not_mem_nil, or_false, forall_eq_or_imp, forall_eq]
    exact ⟨htype, hsalt, hcipher, hpuk, haddr, hmac⟩
  · rintro ⟨prop, hprop, hversion, hos, hcount, hcopied⟩
    simp only [StoredWallet.copied, copiedKeys, List.zip_cons_cons, List.zip_nil_right, List.mem_cons,
      List.not_mem_nil, or_false, forall_eq_or_imp, forall_eq] at hcopied
    obtain ⟨htype, hsalt, hcipher, hpuk, haddr, hmac⟩ := hcopied
    simp only [loadWallet, Option.bind_eq_bind, hprop, Option.bind_some, hversion, hos, htype, hsalt,
      hcount, hcipher, hpuk, haddr, hmac]

theorem mem_of_getProperty {props : List (String × String)} {key v : String}
    (h : getProperty props key = some v) : (key, v) ∈ props := by
  obtain ⟨⟨key', v'⟩, hfind, rfl⟩ := Option.map_eq_some_iff.mp h
  have hkey : key' = key := by simpa using List.find?_some hfind
  exact hkey ▸ List.mem_reverse.mp (List.mem_of_find?_eq_some hfind)

/-- The only value of a key. -/
theorem getProperty_of_unique {props : List (String × String)} {key v : String} (hmem : (key, v) ∈ props)
    (hunique : ∀ v', (key, v') ∈ props → v' = v) : getProperty props key = some v := by
  cases hget : getProperty props key with
  | none =>
    have hnone := List.find?_eq_none.mp (Option.map_eq_none_iff.mp hget) (key, v) (List.mem_reverse.mpr hmem)
    simp at hnone
  | some v' => rw [hunique v' (mem_of_getProperty hget)]

/-! ## What is written -/

/-- The value of a key that is copied. -/
def copiedValue (prop : List (String × String)) (key : String) : String := appended (getProperty prop key)

/-- The fields that are written after version and name of the system. -/
def updateFields (prop : List (String × String)) (iterationCount : Int) : List (String × String) :=
  [("Wallet.Type", copiedValue prop "Wallet.Type"), ("Salt.Value", copiedValue prop "Salt.Value"),
    ("Iteration.Count", ofInt iterationCount), ("Ciphered.Data", copiedValue prop "Ciphered.Data"),
    ("Wallet.PublicKey", copiedValue prop "Wallet.PublicKey"), ("Wallet.Addr", copiedValue prop "Wallet.Addr"),
    ("MAC.Data", copiedValue prop "MAC.Data")]

theorem fields_updateFields (prop : List (String × String)) (n : Int) : Fields (updateFields prop n) := by
  have hall : ∀ key ∈ ["Wallet.Type", "Salt.Value", "Iteration.Count", "Ciphered.Data", "Wallet.PublicKey",
      "Wallet.Addr", "MAC.Data"], PlainKey key.toList ∧ (key.toList.map held).sum ≠ 0 := by decide
  have hkeys : (updateFields prop n).map Prod.fst = ["Wallet.Type", "Salt.Value", "Iteration.Count",
      "Ciphered.Data", "Wallet.PublicKey", "Wallet.Addr", "MAC.Data"] := rfl
  refine ⟨by rw [hkeys]; decide, fun q hq => ?_, fun q hq => ?_⟩
  · exact (hall q.1 (hkeys ▸ List.mem_map_of_mem hq)).1
  · exact (hall q.1 (hkeys ▸ List.mem_map_of_mem hq)).2

/-- The text that is written for the properties. -/
def copyText (m : Platform) (prop : List (String × String)) (n : Int) : String :=
  BlockchainWalletInfoGen m (copiedValue prop "Wallet.Type") (copiedValue prop "Salt.Value") n
    (copiedValue prop "Ciphered.Data") (copiedValue prop "Wallet.PublicKey") (copiedValue prop "Wallet.Addr")
    (copiedValue prop "MAC.Data")

theorem updateText_loads {bytes : List UInt8} {prop : List (String × String)} {w : StoredWallet}
    (hprop : load bytes = some prop) (hw : Loads prop w) (m : Platform) :
    updateText m bytes = some (copyText m prop w.info.iterationCount) := by
  simp only [updateText, Option.bind_eq_bind, hprop, Option.bind_some, hw.versionInfo, hw.iterationCount]
  rfl

/-- What is put in front of the fields. -/
def platformProperties (m : Platform) : List (String × String) :=
  [("Version.Info", ofInt m.versionInfo), ("OS.Info", rereadName m.osName)]

theorem plainEntry_walletKey {key value : String} (hkey : key ∈ walletKeys) (htrimmed : Trimmed value.toList)
    (hplain : Plain value.toList) : PlainEntry (key.toList, reread value.toList) :=
  PlainEntry.reread (p := (key.toList, value.toList))
    ⟨(plainKey_of_mem hkey).2, hplain, blank_of_trimmed htrimmed⟩

/-- The lines of version and name as they are read. -/
def versionEntry (m : Platform) : List Char × List Char :=
  ("Version.Info".toList, reread (ofInt m.versionInfo).toList)

def osEntry (m : Platform) : List Char × List Char := ("OS.Info".toList, reread m.osName.toList)

theorem plainEntry_version (m : Platform) : PlainEntry (versionEntry m) :=
  plainEntry_walletKey (by decide) (plainText_ofInt _).trimmed (plainText_ofInt _).plain

theorem plainEntry_os (m : Platform) : PlainEntry (osEntry m) :=
  plainEntry_walletKey (by decide) m.plainName.trimmed m.plainName.plain

theorem latin1_copyText (m : Platform) (prop : List (String × String)) (n : Int) :
    latin1 (utf8 (copyText m prop n)) =
      joinLines m.lineSeparator.toList (entry (versionEntry m) :: entry (osEntry m) ::
        ((updateFields prop n).map fun q => (q.1.toList, reread q.2.toList)).map entry) := by
  have hascii : Ascii m.lineSeparator.toList := by
    rcases toList_lineSeparator m with h | h <;> rw [h] <;> decide
  have hkeys : ∀ p ∈ walletEntries [ofInt m.versionInfo, m.osName, copiedValue prop "Wallet.Type",
      copiedValue prop "Salt.Value", ofInt n, copiedValue prop "Ciphered.Data",
      copiedValue prop "Wallet.PublicKey", copiedValue prop "Wallet.Addr", copiedValue prop "MAC.Data"],
      Ascii p.1 := by
    intro p hp
    obtain ⟨⟨key, value⟩, hq, rfl⟩ := List.mem_map.mp hp
    exact (plainKey_of_mem (List.of_mem_zip hq).1).1
  rw [latin1_utf8, copyText, toList_BlockchainWalletInfoGen, reread_joinLines hascii hkeys]
  unfold versionEntry osEntry
  simp only [walletEntries, walletKeys, updateFields, List.zip_cons_cons, List.zip_nil_right, List.map_cons,
    List.map_nil]

theorem property_version (m : Platform) :
    property (entry (versionEntry m)) = some ("Version.Info", ofInt m.versionInfo) := by
  have hplain := plainEntry_version m
  rw [entry, property_plain hplain.key hplain.value hplain.head]
  show some (String.ofList "Version.Info".toList, String.ofList (reread (ofInt m.versionInfo).toList)) = _
  rw [ofList_reread (plainText_ofInt m.versionInfo).ascii, String.ofList_toList]

theorem property_os (m : Platform) : property (entry (osEntry m)) = some ("OS.Info", rereadName m.osName) := by
  have hplain := plainEntry_os m
  rw [entry, property_plain hplain.key hplain.value hplain.head]
  show some (String.ofList "OS.Info".toList, rereadName m.osName) = _
  rw [String.ofList_toList]

theorem load_copyText (m : Platform) (prop : List (String × String)) (n : Int) :
    load (utf8 (copyText m prop n)) =
      ((logicalLines .start (fieldText m.lineSeparator.toList (updateFields prop n))).mapM property).map
        fun props => platformProperties m ++ props := by
  have hlines : logicalLines .start (latin1 (utf8 (copyText m prop n))) =
      entry (versionEntry m) :: entry (osEntry m) ::
        logicalLines .start (fieldText m.lineSeparator.toList (updateFields prop n)) := by
    obtain ⟨line, lines, hline, hrest⟩ : ∃ line lines, line ≠ [] ∧
        ((updateFields prop n).map fun q => (q.1.toList, reread q.2.toList)).map entry = line :: lines :=
      ⟨_, _, entry_ne_nil _, rfl⟩
    rw [latin1_copyText, hrest,
      logicalLines_joinLines_cons (toList_lineSeparator m) (plainEntry_version m) (entry_ne_nil _),
      logicalLines_joinLines_cons (toList_lineSeparator m) (plainEntry_os m) hline, fieldText, hrest]
  rw [load, hlines, List.mapM_cons, List.mapM_cons, property_version, property_os]
  cases (logicalLines .start (fieldText m.lineSeparator.toList (updateFields prop n))).mapM property <;> rfl

/-- The fields come back with these values, and no other property has one of their keys. -/
structure ReadAs (m : Platform) (fields : List (String × String)) (value : String × String → String)
    (prop : List (String × String)) : Prop where
  platform : ∀ a ∈ platformProperties m, getProperty prop a.1 = some a.2
  fields : ∀ q ∈ fields, getProperty prop q.1 = some (value q)

theorem ReadAs.versionInfo {m : Platform} {fields : List (String × String)} {value : String × String → String}
    {prop : List (String × String)} (h : ReadAs m fields value prop) :
    (getProperty prop "Version.Info").bind Integer.valueOf = some m.versionInfo := by
  have hversion : getProperty prop "Version.Info" = some (ofInt m.versionInfo) :=
    h.platform _ List.mem_cons_self
  rw [hversion, Option.bind_some, valueOf_ofInt m.isInt_versionInfo]

theorem ReadAs.osInfo {m : Platform} {fields : List (String × String)} {value : String × String → String}
    {prop : List (String × String)} (h : ReadAs m fields value prop) :
    trimmedProperty prop "OS.Info" = some (rereadName m.osName) := by
  have hos : getProperty prop "OS.Info" = some (rereadName m.osName) :=
    h.platform _ (List.mem_cons_of_mem _ List.mem_cons_self)
  rw [trimmedProperty, hos, Option.map_some, trim_rereadName]

theorem platform_ne_updateFields {m : Platform} {prop : List (String × String)} {n : Int} :
    ∀ a ∈ platformProperties m, ∀ q ∈ updateFields prop n, a.1 ≠ q.1 := by
  simp only [platformProperties, updateFields, List.mem_cons, List.not_mem_nil, or_false, forall_eq_or_imp,
    forall_eq]
  decide

theorem readAs_platform {m : Platform} {prop props : List (String × String)} {n : Int}
    {value : String × String → String} (hmem : ∀ q ∈ updateFields prop n, (q.1, value q) ∈ props)
    (honly : ∀ a ∈ props, (a.1.toList.map held).sum ≠ 0 →
      ∃ q ∈ updateFields prop n, a = (q.1, value q)) :
    ReadAs m (updateFields prop n) value (platformProperties m ++ props) := by
  have hfields := fields_updateFields prop n
  have hcounts : ∀ a ∈ platformProperties m, (a.1.toList.map held).sum ≠ 0 := by
    simp only [platformProperties, List.mem_cons, List.not_mem_nil, or_false, forall_eq_or_imp, forall_eq]
    decide
  refine ⟨fun a ha => ?_, fun q hq => ?_⟩
  · refine getProperty_of_unique (List.mem_append_left props ha) fun v' hv' => ?_
    rcases List.mem_append.mp hv' with hv' | hv'
    · simp only [platformProperties, List.mem_cons, List.not_mem_nil, or_false] at ha hv'
      rcases ha with rfl | rfl <;> simpa using hv'
    · obtain ⟨q, hq, hqa⟩ := honly _ hv' (hcounts a ha)
      exact absurd (congrArg Prod.fst hqa) (platform_ne_updateFields a ha q hq)
  · refine getProperty_of_unique (List.mem_append_right _ (hmem q hq)) fun v' hv' => ?_
    rcases List.mem_append.mp hv' with hv' | hv'
    · exact absurd rfl (platform_ne_updateFields _ hv' q hq)
    · obtain ⟨q', hq', hqa⟩ := honly _ hv' (hfields.counts q hq)
      have hkey : q.1 = q'.1 := (Prod.mk.inj hqa).1
      have hsame : q = q' := List.inj_on_of_nodup_map hfields.nodup hq hq' hkey
      rw [hsame]
      exact congrArg Prod.snd hqa

/-! ## When the wallet is the same -/

theorem Loads.get {prop : List (String × String)} {w : StoredWallet} (h : Loads prop w) {key : String}
    (hkey : key ∈ copiedKeys) :
    getProperty prop key = some (copiedValue prop key) ∧ (key, trim (copiedValue prop key)) ∈ w.copied := by
  have hkeys : w.copied.map Prod.fst = copiedKeys := rfl
  obtain ⟨q, hq, rfl⟩ := List.mem_map.mp (hkeys ▸ hkey)
  obtain ⟨v, hv, htrim⟩ := Option.map_eq_some_iff.mp (h.copied q hq)
  have hcopied : copiedValue prop q.1 = v := by
    rw [copiedValue, hv]
    rfl
  rw [hcopied, htrim]
  exact ⟨hv, hq⟩

theorem nodup_copied (w : StoredWallet) : (w.copied.map Prod.fst).Nodup :=
  show copiedKeys.Nodup by decide

/-- Properties of one wallet have values that are the same but for blanks. -/
theorem Loads.trim_eq {prop prop' : List (String × String)} {w : StoredWallet} (h : Loads prop w)
    (h' : Loads prop' w) {key : String} (hkey : key ∈ copiedKeys) :
    trim (copiedValue prop' key) = trim (copiedValue prop key) := by
  have hsame := List.inj_on_of_nodup_map (nodup_copied w) (h'.get hkey).2 (h.get hkey).2 rfl
  exact (Prod.mk.inj hsame).2

theorem mem_updateFields {prop : List (String × String)} {n : Int} {q : String × String} :
    q ∈ updateFields prop n ↔
      (q.1 ∈ copiedKeys ∧ q.2 = copiedValue prop q.1) ∨ q = ("Iteration.Count", ofInt n) := by
  obtain ⟨key, value⟩ := q
  simp only [updateFields, copiedKeys, List.mem_cons, List.not_mem_nil, or_false, Prod.mk.injEq]
  constructor
  · rintro (⟨rfl, rfl⟩ | ⟨rfl, rfl⟩ | ⟨rfl, rfl⟩ | ⟨rfl, rfl⟩ | ⟨rfl, rfl⟩ | ⟨rfl, rfl⟩ | ⟨rfl, rfl⟩) <;> simp
  · rintro (⟨rfl | rfl | rfl | rfl | rfl | rfl, rfl⟩ | ⟨rfl, rfl⟩) <;> simp

theorem written_digit {c : Char} (h : c.isDigit = true) : written c = 0 := by
  have hne : ∀ d : Char, d.isDigit = false → c ≠ d := by
    rintro d hd rfl
    rw [h] at hd
    cases hd
  exact written_eq_zero (hne '\\' (by decide)) (hne '.' (by decide)) (hne 'u' (by decide))

theorem sum_written_ofInt (n : Int) : ((ofInt n).toList.map written).sum = 0 := by
  refine List.sum_eq_zero_iff_forall_eq_nat.mpr fun k hk => ?_
  obtain ⟨c, hc, rfl⟩ := List.mem_map.mp hk
  rw [ofInt, String.toList_ofList, intDigits] at hc
  split at hc
  · rcases List.mem_cons.mp hc with rfl | hc
    · rfl
    · exact written_digit (isDigit_toDigits hc)
  · exact written_digit (isDigit_toDigits hc)

theorem kept_of_plainText {s : String} (h : PlainText s) : Kept s.toList :=
  ⟨h.ascii, h.plain.not_mem, by rw [otherLines_plain h.plain]; exact fun c hc => nomatch hc⟩

theorem firstValue_of_plainText {s : String} (h : PlainText s) : firstValue s = s := by
  have hline : firstLine s.toList = s.toList := by
    have happend := firstLine_append s.toList
    rwa [otherLines_plain h.plain, List.append_nil] at happend
  rw [firstValue, hline, reread_ascii h.ascii, skipSeparator_starts (blank_of_trimmed h.trimmed),
    String.ofList_toList]

/-- The platform is that of the temporary wallet, and the copied values are kept. -/
structure Unchanged (m : Platform) (prop : List (String × String)) (w : StoredWallet) : Prop where
  versionInfo : w.info.versionInfo = m.versionInfo
  osInfo : w.info.osInfo = rereadName m.osName
  kept : ∀ key ∈ copiedKeys, Kept (copiedValue prop key).toList

section

variable {m : Platform} {prop : List (String × String)} {w : StoredWallet} (hw : Loads prop w)

include hw

theorem copied_of_loads {props : List (String × String)} (hall : Loads (platformProperties m ++ props) w) :
    ∀ q ∈ updateFields prop w.info.iterationCount,
      (q.1, copiedValue (platformProperties m ++ props) q.1) ∈ props ∧
        (q.2.toList.map written).sum ≤
          ((copiedValue (platformProperties m ++ props) q.1).toList.map held).sum := by
  intro q hq
  have hmem : ∀ {v}, getProperty (platformProperties m ++ props) q.1 = some v →
      (q.1, copiedValue (platformProperties m ++ props) q.1) ∈ props := fun {v} hv => by
    have hcopied : copiedValue (platformProperties m ++ props) q.1 = v := by
      rw [copiedValue, hv]
      rfl
    rw [hcopied]
    exact (List.mem_append.mp (mem_of_getProperty hv)).resolve_left fun hplatform =>
      platform_ne_updateFields _ hplatform q hq rfl
  rcases mem_updateFields.mp hq with ⟨hkey, hcopied⟩ | rfl
  · refine ⟨hmem (hall.get hkey).1, ?_⟩
    rw [hcopied]
    exact written_le_of_trim (hw.trim_eq hall hkey)
  · obtain ⟨v, hv, -⟩ := Option.bind_eq_some_iff.mp hall.iterationCount
    refine ⟨hmem hv, ?_⟩
    rw [sum_written_ofInt]
    exact Nat.zero_le _

/-- What is written is read as the same wallet only where platform and values are. -/
theorem unchanged_of_loads {props : List (String × String)}
    (hload : (logicalLines .start (fieldText m.lineSeparator.toList
      (updateFields prop w.info.iterationCount))).mapM property = some props)
    (hall : Loads (platformProperties m ++ props) w) : Unchanged m prop w := by
  have hfields := fields_updateFields prop w.info.iterationCount
  have hvalue := copied_of_loads hw hall
  have hread := readAs_platform (m := m) (fun q hq => (hvalue q hq).1)
    fun a ha => mem_values (toList_lineSeparator m) hfields hload hvalue ha
  have hversion := Option.some.inj (hall.versionInfo.symm.trans hread.versionInfo)
  have hos := Option.some.inj (hall.osInfo.symm.trans hread.osInfo)
  have hslash : ∀ q ∈ updateFields prop w.info.iterationCount, '\\' ∉ q.2.toList := by
    intro q hq
    rcases mem_updateFields.mp hq with ⟨hkey, hcopied⟩ | rfl
    · refine not_mem_of_trim ?_ (sum_value_le (toList_lineSeparator m) hfields hload hvalue hq)
      rw [hcopied]
      exact hw.trim_eq hall hkey
    · exact (plainText_ofInt _).plain.not_mem
  refine ⟨hversion, hos, fun key hkey => ?_⟩
  have hq : (key, copiedValue prop key) ∈ updateFields prop w.info.iterationCount :=
    mem_updateFields.mpr (Or.inl ⟨hkey, rfl⟩)
  exact kept_of_trim (toList_lineSeparator m) hfields hload hvalue hslash hq (hw.trim_eq hall hkey)

/-- Where platform and values are the same, so is the wallet. -/
theorem loads_of_unchanged (h : Unchanged m prop w) :
    ∃ props, (logicalLines .start (fieldText m.lineSeparator.toList
        (updateFields prop w.info.iterationCount))).mapM property = some props ∧
      Loads (platformProperties m ++ props) w := by
  have hfields := fields_updateFields prop w.info.iterationCount
  have hkept : ∀ q ∈ updateFields prop w.info.iterationCount, Kept q.2.toList := by
    intro q hq
    rcases mem_updateFields.mp hq with ⟨hkey, hcopied⟩ | rfl
    · rw [hcopied]
      exact h.kept q.1 hkey
    · exact kept_of_plainText (plainText_ofInt _)
  have htrim : ∀ q ∈ updateFields prop w.info.iterationCount, trim (firstValue q.2) = trim q.2 :=
    fun q hq => ((kept_iff q.2).mp (hkept q hq)).2
  obtain ⟨props, hload, hmem⟩ := firstValue_mem (toList_lineSeparator m) hfields.key fun q hq => (hkept q hq).2.1
  have hvalue : ∀ q ∈ updateFields prop w.info.iterationCount, (q.1, firstValue q.2) ∈ props ∧
      (q.2.toList.map written).sum ≤ ((firstValue q.2).toList.map held).sum :=
    fun q hq => ⟨hmem q hq, written_le_of_trim (htrim q hq)⟩
  have hread : ReadAs m (updateFields prop w.info.iterationCount) (fun q => firstValue q.2)
      (platformProperties m ++ props) := readAs_platform hmem fun a ha =>
    mem_values (toList_lineSeparator m) hfields hload hvalue ha
  refine ⟨props, hload, ?_, ?_, ?_, fun q hq => ?_⟩
  · rw [hread.versionInfo, h.versionInfo]
  · rw [hread.osInfo, h.osInfo]
  · have hcount := hread.fields ("Iteration.Count", ofInt w.info.iterationCount)
      (mem_updateFields.mpr (Or.inr rfl))
    obtain ⟨_, _, hn⟩ := Option.bind_eq_some_iff.mp hw.iterationCount
    rw [hcount, Option.bind_some, firstValue_of_plainText (plainText_ofInt _),
      valueOf_ofInt (isInt_of_valueOf hn)]
  · have hkeys : w.copied.map Prod.fst = copiedKeys := rfl
    have hkey : q.1 ∈ copiedKeys := hkeys ▸ List.mem_map_of_mem hq
    have hfield : (q.1, copiedValue prop q.1) ∈ updateFields prop w.info.iterationCount :=
      mem_updateFields.mpr (Or.inl ⟨hkey, rfl⟩)
    have hsame := List.inj_on_of_nodup_map (nodup_copied w) (hw.get hkey).2 hq rfl
    rw [trimmedProperty, hread.fields _ hfield, Option.map_some, htrim _ hfield]
    exact congrArg some (congrArg Prod.snd hsame)

end

/-- The written wallet is the one that was read exactly where platform and values are the same. -/
theorem loadWallet_copyText {m : Platform} {prop : List (String × String)} {w : StoredWallet}
    (hw : Loads prop w) :
    loadWallet (utf8 (copyText m prop w.info.iterationCount)) = some w ↔ Unchanged m prop w := by
  rw [loadWallet_eq_some, load_copyText]
  constructor
  · rintro ⟨all, hall, hloads⟩
    obtain ⟨props, hprops, rfl⟩ := Option.map_eq_some_iff.mp hall
    exact unchanged_of_loads hw hprops hloads
  · intro h
    obtain ⟨props, hprops, hloads⟩ := loads_of_unchanged hw h
    exact ⟨_, by rw [hprops, Option.map_some], hloads⟩

/-- The properties of the temporary wallet. -/
def tempProp (files : Files) : List (String × String) :=
  ((files .tempRestoreWalletFileName).bind load).getD []

section

variable {p : Provider} {m : Platform} {files : Files} {psw : String} {w : StoredWallet}

theorem fileUpdate_verified (h : verifiedWallet p files psw "TEMP" = some w) :
    Loads (tempProp files) w ∧ w.macPasses p psw = some true ∧
      BlockchainWalletFileUpdate m files = some (files.write .restoreWalletFileName
        (utf8 (copyText m (tempProp files) w.info.iterationCount))) := by
  obtain ⟨⟨name, bytes, hname, hbytes, hload⟩, hpasses⟩ := verifiedWallet_eq_some.mp h
  cases hname
  obtain ⟨prop, hprop, hw⟩ := loadWallet_eq_some.mp hload
  have htemp : tempProp files = prop := by rw [tempProp, hbytes, Option.bind_some, hprop, Option.getD_some]
  rw [htemp, BlockchainWalletFileUpdate, hbytes]
  simp only [updateText_loads hprop hw m, Option.bind_some, BlockchainWalletFileStorage]
  exact ⟨hw, hpasses, by simp⟩

theorem verifiedWallet_restore (files : Files) (hpasses : w.macPasses p psw = some true) {bytes : List UInt8} :
    verifiedWallet p (files.write .restoreWalletFileName bytes) psw "RESTORE" = some w ↔
      loadWallet bytes = some w := by
  rw [verifiedWallet_eq_some]
  constructor
  · rintro ⟨⟨name, bytes', hname, hbytes, hload⟩, -⟩
    cases hname
    rw [Files.write_self, Option.some.injEq] at hbytes
    rwa [hbytes]
  · intro hload
    exact ⟨⟨_, bytes, rfl, Files.write_self _ _ _, hload⟩, hpasses⟩

/-- The restore wallet after the update is the temporary one, MAC included. -/
def UpdateKeeps (p : Provider) (m : Platform) (files : Files) (psw : String) (w : StoredWallet) : Prop :=
  ∃ files', BlockchainWalletFileUpdate m files = some files' ∧
    verifiedWallet p files' psw "RESTORE" = some w

theorem updateKeeps_loads (h : verifiedWallet p files psw "TEMP" = some w) :
    UpdateKeeps p m files psw w ↔
      loadWallet (utf8 (copyText m (tempProp files) w.info.iterationCount)) = some w := by
  obtain ⟨-, hpasses, hupdate⟩ := fileUpdate_verified (m := m) h
  rw [UpdateKeeps, hupdate, ← verifiedWallet_restore files hpasses]
  constructor
  · rintro ⟨files', hfiles, hverified⟩
    rw [Option.some.injEq] at hfiles
    rwa [hfiles]
  · exact fun hverified => ⟨_, rfl, hverified⟩

/-- **The update keeps a verified wallet** exactly where version and name of the system are those of the
running platform, and the other values are kept. -/
theorem fileUpdate_keeps_iff (h : verifiedWallet p files psw "TEMP" = some w) :
    UpdateKeeps p m files psw w ↔ Unchanged m (tempProp files) w :=
  (updateKeeps_loads h).trans (loadWallet_copyText (fileUpdate_verified (m := m) h).1)

end

theorem kept_issued {p : Provider} {m : Platform} {keys : KeyPair} {salt : List UInt8} {psw : String} :
    ∀ key ∈ copiedKeys, Kept (copiedValue (issuedProperties p m "R" keys salt psw) key).toList := by
  simp only [copiedKeys, List.mem_cons, List.not_mem_nil, or_false, forall_eq_or_imp, forall_eq]
  exact ⟨kept_of_plainText plainText_R, kept_of_plainText (plainText_encode _),
    kept_of_plainText (plainText_encode _), kept_of_plainText (plainText_encode _),
    kept_of_plainText (plainText_encode _), kept_of_plainText (plainText_encode _)⟩

/-- The files of a temporary wallet that was written on `m`. -/
def tempFiles (m : Platform) : Files
  | .tempRestoreWalletFileName => some (issuedFile .plain m "R" plainKeys [1] "654321")
  | _ => none

def tempWallet (m : Platform) : StoredWallet := readWallet .plain m "R" plainKeys [1] "654321"

theorem verifiedWallet_tempFiles {m : Platform} (h : Ascii m.osName.toList) :
    verifiedWallet .plain (tempFiles m) "654321" "TEMP" = some (tempWallet m) := by
  refine verifiedWallet_eq_some.mpr ⟨⟨_, _, rfl, rfl, loadWallet_issued plainText_R plainKeys "654321"⟩, ?_⟩
  rw [tempWallet, macPasses_readWallet plainKeys (by decide), readInfo_eq plainKeys "654321" h]
  simp

theorem unchanged_tempFiles (m : Platform) : Unchanged m (tempProp (tempFiles m)) (tempWallet m) := by
  have hbytes : tempFiles m .tempRestoreWalletFileName =
      some (issuedFile .plain m "R" plainKeys [1] "654321") := rfl
  have htemp : tempProp (tempFiles m) = issuedProperties .plain m "R" plainKeys [1] "654321" := by
    rw [tempProp, hbytes, Option.bind_some, load_issued plainText_R plainKeys "654321", Option.getD_some]
  refine ⟨rfl, rfl, ?_⟩
  rw [htemp]
  exact kept_issued

/-- A wallet of Linux on Linux. -/
theorem fileUpdate_keeps_linux : UpdateKeeps .plain linux (tempFiles linux) "654321" (tempWallet linux) :=
  (fileUpdate_keeps_iff (verifiedWallet_tempFiles (by decide))).mpr (unchanged_tempFiles linux)

/-- A wallet of Windows, read and written on Linux, gets the name of the other system. -/
theorem not_keeps_windows :
    verifiedWallet .plain (tempFiles windows) "654321" "TEMP" = some (tempWallet windows) ∧
      ¬ UpdateKeeps .plain linux (tempFiles windows) "654321" (tempWallet windows) := by
  have hverified := verifiedWallet_tempFiles (m := windows) (by decide)
  refine ⟨hverified, fun hkeeps => ?_⟩
  have hunchanged := (loadWallet_copyText (fileUpdate_verified (m := linux) hverified).1).mp
    ((updateKeeps_loads hverified).mp hkeeps)
  have hname := hunchanged.osInfo
  revert hname
  decide

end MoaCrypto.Wallet
