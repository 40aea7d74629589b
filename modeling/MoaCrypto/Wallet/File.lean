import MoaCrypto.Wallet.Provider

/-!
# The wallet files (`BlockchainWalletInfoGen`, `BlockchainWalletFileStorage`)

A wallet file is a properties file of nine lines.  It is written with the default charset (UTF-8)
and read as ISO 8859-1, so that of the fields only the name of the system can come back changed,
where it has a character outside ASCII (`loadWallet_text`).
-/

namespace MoaCrypto.Wallet

open Java Properties

inductive FileName
  | walletFileName
  | restoreWalletFileName
  | tempRestoreWalletFileName
  deriving DecidableEq

/-- The bytes of the files that exist. -/
abbrev Files := FileName → Option (List UInt8)

def Files.write (files : Files) (name : FileName) (bytes : List UInt8) : Files :=
  fun other => if other = name then some bytes else files other

@[simp] theorem Files.write_self (files : Files) (name : FileName) (bytes : List UInt8) :
    files.write name bytes name = some bytes := if_pos rfl

@[simp] theorem Files.write_of_ne (files : Files) {name other : FileName} (h : other ≠ name)
    (bytes : List UInt8) : files.write name bytes other = files other := if_neg h

/-- The line of a field. -/
def fieldLine (key value : String) : String := key ++ "=" ++ value

def BlockchainWalletInfoGen (m : Platform) (walletTypeStr saltBase58Str : String) (interationCount : Int)
    (cipheredDataBase58Str walletPublicKeyBase58Str walletAddrBase58Str macDataBase58Str : String) : String :=
  appendLines m.lineSeparator
    [fieldLine "Version.Info" (ofInt m.versionInfo),
      fieldLine "OS.Info" m.osName,
      fieldLine "Wallet.Type" walletTypeStr,
      fieldLine "Salt.Value" saltBase58Str,
      fieldLine "Iteration.Count" (ofInt interationCount),
      fieldLine "Ciphered.Data" cipheredDataBase58Str,
      fieldLine "Wallet.PublicKey" walletPublicKeyBase58Str,
      fieldLine "Wallet.Addr" walletAddrBase58Str,
      fieldLine "MAC.Data" macDataBase58Str]

/-- `none` is the exit of the program where the file exists and must not be written. -/
def BlockchainWalletFileStorage (files : Files) (storageWalletDataStr : String) (name : FileName)
    (fileWritePermitFlag : Bool) : Option Files :=
  if ¬ fileWritePermitFlag ∧ (files name).isSome then none
  else some (files.write name (utf8 storageWalletDataStr))

/-- The fields that `BlockchainTransactionSign` reads, and the MAC. -/
structure StoredWallet where
  info : WalletInfo
  macDataBase58Str : String

/-- A field with the blanks around it cut off. -/
def trimmedProperty (prop : List (String × String)) (key : String) : Option String :=
  (getProperty prop key).map trim

/-- The reading part of `BlockchainTransactionSign`. -/
def loadWallet (bytes : List UInt8) : Option StoredWallet := do
  let prop ← load bytes
  let versionInfo ← (getProperty prop "Version.Info").bind Integer.valueOf
  let osInfo ← trimmedProperty prop "OS.Info"
  let walletTypeStr ← trimmedProperty prop "Wallet.Type"
  let saltBase58Str ← trimmedProperty prop "Salt.Value"
  let iterationCount ← (getProperty prop "Iteration.Count").bind Integer.valueOf
  let cipheredDataBase58Str ← trimmedProperty prop "Ciphered.Data"
  let walletPublicKeyBase58Str ← trimmedProperty prop "Wallet.PublicKey"
  let walletAddrBase58Str ← trimmedProperty prop "Wallet.Addr"
  let macDataBase58Str ← trimmedProperty prop "MAC.Data"
  some ⟨⟨versionInfo, osInfo, walletTypeStr, saltBase58Str, iterationCount, cipheredDataBase58Str,
    walletPublicKeyBase58Str, walletAddrBase58Str⟩, macDataBase58Str⟩

/-- The file that `restoreFlag` selects. -/
def flaggedFile (restoreFlag : Bool) : FileName :=
  if restoreFlag then .restoreWalletFileName else .walletFileName

def GetBlockchainPulicKey (files : Files) (restoreFlag : Bool) : Option String :=
  (files (flaggedFile restoreFlag)).bind fun bytes =>
    (load bytes).bind fun prop => trimmedProperty prop "Wallet.PublicKey"

def GetBlockchainWalletAddr (files : Files) (restoreFlag : Bool) : Option String :=
  (files (flaggedFile restoreFlag)).bind fun bytes =>
    (load bytes).bind fun prop => trimmedProperty prop "Wallet.Addr"

/-! ## Reading what was written -/

/-- A text that a properties file keeps as it is. -/
structure PlainText (s : String) : Prop where
  ascii : Ascii s.toList
  plain : Plain s.toList
  trimmed : Trimmed s.toList

/-- Visible ASCII characters other than the backslash. -/
def Visible (cs : List Char) : Prop := ∀ c ∈ cs, ' ' < c ∧ c.toNat < 128 ∧ c ≠ '\\'

instance (cs : List Char) : Decidable (Visible cs) :=
  List.decidableBAll (fun c : Char => ' ' < c ∧ c.toNat < 128 ∧ c ≠ '\\') cs

theorem plainText_of_visible {s : String} (h : Visible s.toList) : PlainText s where
  ascii c hc := (h c hc).2.1
  plain c hc := by
    obtain ⟨hblank, _, hslash⟩ := h c hc
    refine ⟨hslash, ?_, ?_⟩ <;>
    · rintro rfl
      revert hblank
      decide
  trimmed := ⟨fun c hc => (h c (List.mem_of_mem_head? hc)).1, fun c hc => (h c (List.mem_of_mem_getLast? hc)).1⟩

theorem plainText_encode (bytes : List UInt8) : PlainText (MoaBase58.encode bytes) := by
  have hall : Visible MoaBase58.ALPHABET := by decide
  exact plainText_of_visible fun c hc => hall c (MoaBase58.mem_encode hc)

theorem plainText_ofInt (n : Int) : PlainText (ofInt n) := by
  have hdigit : ∀ c : Char, c.isDigit = true → ' ' < c ∧ c.toNat < 128 ∧ c ≠ '\\' := by
    intro c hc
    rw [Char.isDigit, Bool.and_eq_true, decide_eq_true_eq, decide_eq_true_eq] at hc
    obtain ⟨hlow, hhigh⟩ := hc
    have hlow' : 48 ≤ c.toNat := UInt32.le_iff_toNat_le.mp hlow
    have hhigh' : c.toNat ≤ 57 := UInt32.le_iff_toNat_le.mp hhigh
    refine ⟨?_, by omega, ?_⟩
    · show (32 : UInt32) < c.val
      rw [UInt32.lt_iff_toNat_lt]
      show 32 < c.toNat
      omega
    · rintro rfl
      revert hhigh'
      decide
  refine plainText_of_visible fun c hc => ?_
  rw [ofInt, String.toList_ofList, intDigits] at hc
  split at hc
  · rcases List.mem_cons.mp hc with rfl | hc
    · decide
    · exact hdigit c (isDigit_toDigits hc)
  · exact hdigit c (isDigit_toDigits hc)

/-- The keys of a wallet file, in its order. -/
def walletKeys : List String :=
  ["Version.Info", "OS.Info", "Wallet.Type", "Salt.Value", "Iteration.Count", "Ciphered.Data",
    "Wallet.PublicKey", "Wallet.Addr", "MAC.Data"]

/-- The entries of a wallet file. -/
def walletEntries (values : List String) : List (List Char × List Char) :=
  (walletKeys.zip values).map fun p => (p.1.toList, p.2.toList)

theorem toList_fieldLine (key value : String) :
    (fieldLine key value).toList = entry (key.toList, value.toList) := by
  simp [fieldLine, entry, String.toList_append]

theorem toList_BlockchainWalletInfoGen (m : Platform) (type salt : String) (n : Int)
    (cipher puk addr mac : String) :
    (BlockchainWalletInfoGen m type salt n cipher puk addr mac).toList =
      joinLines m.lineSeparator.toList ((walletEntries [ofInt m.versionInfo, m.osName, type, salt, ofInt n,
        cipher, puk, addr, mac]).map entry) := by
  rw [BlockchainWalletInfoGen, toList_appendLines]
  simp only [List.map_cons, List.map_nil, toList_fieldLine, walletEntries, walletKeys, List.zip_cons_cons,
    List.zip_nil_right]

theorem blank_of_trimmed {cs : List Char} (h : Trimmed cs) : ∀ c ∈ cs.head?, isBlank c = false := by
  intro c hc
  have hlt := h.1 c hc
  unfold isBlank
  simp only [Bool.or_eq_false_iff, decide_eq_false_iff_not]
  refine ⟨⟨?_, ?_⟩, ?_⟩ <;>
  · rintro rfl
    revert hlt
    decide

theorem plainKey_of_mem {key : String} (h : key ∈ walletKeys) : Ascii key.toList ∧ PlainKey key.toList := by
  have hall : ∀ key ∈ walletKeys, Ascii key.toList ∧ PlainKey key.toList := by decide
  exact hall key h

theorem plainEntry_of_mem {values : List String} (h : ∀ v ∈ values, Trimmed v.toList ∧ Plain v.toList) :
    ∀ p ∈ walletEntries values, Ascii p.1 ∧ PlainEntry p := by
  intro p hp
  obtain ⟨⟨key, value⟩, hq, rfl⟩ := List.mem_map.mp hp
  obtain ⟨hascii, hkey⟩ := plainKey_of_mem (List.of_mem_zip hq).1
  obtain ⟨htrim, hplain⟩ := h value (List.of_mem_zip hq).2
  exact ⟨hascii, hkey, hplain, blank_of_trimmed htrim⟩

theorem ofList_reread {s : String} (h : Ascii s.toList) : String.ofList (reread s.toList) = s := by
  rw [reread_ascii h, String.ofList_toList]

/-- The name of the system as it is read back. -/
def rereadName (osName : String) : String := String.ofList (reread osName.toList)

theorem rereadName_eq_self {osName : String} : rereadName osName = osName ↔ Ascii osName.toList := by
  rw [← reread_eq_self]
  refine ⟨fun h => ?_, fun h => ?_⟩
  · rw [← String.toList_ofList (l := reread osName.toList)]
    exact congrArg String.toList h
  · rw [rereadName, h, String.ofList_toList]

theorem trimmed_reread {cs : List Char} (h : Trimmed cs) : Trimmed (reread cs) := by
  have hwide : ∀ d : Char, 128 ≤ d.toNat → ' ' < d := by
    intro d hd
    show (32 : UInt32) < d.val
    rw [UInt32.lt_iff_toNat_lt]
    show 32 < d.toNat
    omega
  refine ⟨fun d hd => ?_, fun d hd => ?_⟩
  · exact (head_reread hd).elim (h.1 d) (hwide d)
  · exact (last_reread hd).elim (h.2 d) (hwide d)

theorem trim_rereadName (m : Platform) : trim (rereadName m.osName) = rereadName m.osName :=
  trim_trimmed (trimmed_reread m.plainName.trimmed)

theorem valueOf_ofInt {n : Int} (h : IsInt n) : Integer.valueOf (ofInt n) = some n := by
  rw [ofInt, valueOf_intDigits, if_pos h]

theorem toList_lineSeparator (m : Platform) :
    m.lineSeparator.toList = ['\n'] ∨ m.lineSeparator.toList = ['\r', '\n'] := by
  rcases m.isSeparator with h | h <;> rw [h]
  · exact Or.inl rfl
  · exact Or.inr rfl

/-- What `load` gives for a written file. -/
def writtenProperties (m : Platform) (type salt : String) (n : Int) (cipher puk addr mac : String) :
    List (String × String) :=
  [("Version.Info", ofInt m.versionInfo), ("OS.Info", rereadName m.osName), ("Wallet.Type", type),
    ("Salt.Value", salt), ("Iteration.Count", ofInt n), ("Ciphered.Data", cipher),
    ("Wallet.PublicKey", puk), ("Wallet.Addr", addr), ("MAC.Data", mac)]

section Written

variable {m : Platform} {type salt cipher puk addr mac : String} {n : Int}
  (htype : PlainText type) (hsalt : PlainText salt) (hcipher : PlainText cipher)
  (hpuk : PlainText puk) (haddr : PlainText addr) (hmac : PlainText mac)

include htype hsalt hcipher hpuk haddr hmac

theorem load_written :
    load (utf8 (BlockchainWalletInfoGen m type salt n cipher puk addr mac)) =
      some (writtenProperties m type salt n cipher puk addr mac) := by
  have hversion := plainText_ofInt m.versionInfo
  have hn := plainText_ofInt n
  have hvalues : ∀ v ∈ [ofInt m.versionInfo, m.osName, type, salt, ofInt n, cipher, puk, addr, mac],
      Trimmed v.toList ∧ Plain v.toList := by
    simp only [List.mem_cons, List.not_mem_nil, or_false, forall_eq_or_imp, forall_eq]
    exact ⟨⟨hversion.trimmed, hversion.plain⟩, ⟨m.plainName.trimmed, m.plainName.plain⟩, ⟨htype.trimmed, htype.plain⟩,
      ⟨hsalt.trimmed, hsalt.plain⟩, ⟨hn.trimmed, hn.plain⟩, ⟨hcipher.trimmed, hcipher.plain⟩,
      ⟨hpuk.trimmed, hpuk.plain⟩, ⟨haddr.trimmed, haddr.plain⟩, ⟨hmac.trimmed, hmac.plain⟩⟩
  rw [load_lines (toList_lineSeparator m) (plainEntry_of_mem hvalues) (toList_BlockchainWalletInfoGen m type salt n cipher puk addr mac)]
  simp only [walletEntries, walletKeys, List.zip_cons_cons, List.zip_nil_right, List.map_cons, List.map_nil,
    String.ofList_toList, ofList_reread hversion.ascii, ofList_reread htype.ascii, ofList_reread hsalt.ascii,
    ofList_reread hn.ascii, ofList_reread hcipher.ascii, ofList_reread hpuk.ascii, ofList_reread haddr.ascii,
    ofList_reread hmac.ascii]
  rfl

theorem trimmedProperty_written :
    let prop := writtenProperties m type salt n cipher puk addr mac
    trimmedProperty prop "OS.Info" = some (rereadName m.osName) ∧
      trimmedProperty prop "Wallet.Type" = some type ∧ trimmedProperty prop "Salt.Value" = some salt ∧
      trimmedProperty prop "Ciphered.Data" = some cipher ∧
      trimmedProperty prop "Wallet.PublicKey" = some puk ∧ trimmedProperty prop "Wallet.Addr" = some addr ∧
      trimmedProperty prop "MAC.Data" = some mac := by
  have htrim : ∀ {s : String}, PlainText s → trim s = s := by
    intro s hs
    have h := trim_trimmed hs.trimmed
    rwa [String.ofList_toList] at h
  refine ⟨?_, ?_, ?_, ?_, ?_, ?_, ?_⟩
  · exact congrArg some (trim_rereadName m)
  · exact congrArg some (htrim htype)
  · exact congrArg some (htrim hsalt)
  · exact congrArg some (htrim hcipher)
  · exact congrArg some (htrim hpuk)
  · exact congrArg some (htrim haddr)
  · exact congrArg some (htrim hmac)

/-- A written wallet is read with the name of the system reread. -/
theorem loadWallet_text (hn : IsInt n) :
    loadWallet (utf8 (BlockchainWalletInfoGen m type salt n cipher puk addr mac)) =
      some ⟨⟨m.versionInfo, rereadName m.osName, type, salt, n, cipher, puk, addr⟩, mac⟩ := by
  obtain ⟨h1, h2, h3, h4, h5, h6, h7⟩ :=
    trimmedProperty_written (m := m) (n := n) htype hsalt hcipher hpuk haddr hmac
  have hversion : (getProperty (writtenProperties m type salt n cipher puk addr mac) "Version.Info").bind
      Integer.valueOf = some m.versionInfo := valueOf_ofInt m.isInt_versionInfo
  have hcount : (getProperty (writtenProperties m type salt n cipher puk addr mac) "Iteration.Count").bind
      Integer.valueOf = some n := valueOf_ofInt hn
  rw [loadWallet, load_written htype hsalt hcipher hpuk haddr hmac]
  simp only [Option.bind_eq_bind, Option.bind_some, hversion, hcount, h1, h2, h3, h4, h5, h6, h7]

end Written

end MoaCrypto.Wallet
