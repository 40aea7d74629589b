import MoaCrypto.Wallet.Issue

/-!
# The password reset (`MoaWalletAPI.java`, `MoaBCFCWalletPswReSetTest.java`)

The restore data is checked under the old password, decrypted, and encrypted again under the new
password and a new salt; with it a temporary wallet file is written, which then replaces the restore
wallet.  A password is the hexadecimal text of an HMAC that is handed on in Base64.  The data stays
that of the key pair (`registDataGen_restoreData`), and the temporary wallet is copied as it is
(`fileUpdate_issued`).
-/

namespace MoaCrypto.Wallet

open Java Properties

/-- The password that the hmac password in Base64 stands for. -/
def hmacWPsw28Str (p : Provider) (hmacWPswB64Str : String) : Option String :=
  (p.decodeBase64 hmacWPswB64Str).map encodeHexString

def BlockchainWalletPswReSetRegistDataGenCoreEngine (p : Provider) (m : Platform)
    (existHmacWPswB64Str newHmacReSetWPswB64Str existHmacWPukB64Str existEwPrkAndEwPukAndwSalt : Option String)
    (newWSaltBytes : List UInt8) : Option String :=
  match existHmacWPswB64Str, newHmacReSetWPswB64Str, existEwPrkAndEwPukAndwSalt with
  | some existHmacWPsw, some newHmacReSetWPsw, some existData => do
    let existhmacWPsw28Str ← hmacWPsw28Str p existHmacWPsw
    let (firstExistEncryptWPrkBytes, firstExistEncryptWPukBytes, existWSaltBytes) ←
      parseRestoreData p existData
    let existHmacEwPukBytes ← existHmacWPukB64Str.bind p.decodeBase64
    let verifyHmacEwPukBytes := p.HmacDigest firstExistEncryptWPukBytes (utf8 existhmacWPsw28Str)
    if existHmacEwPukBytes ≠ verifyHmacEwPukBytes then
      some ("0x5120" ++ "%" ++ "null" ++ " %" ++ "null" ++ "$" ++ "null" ++ "$" ++ "null")
    else do
      let firstExistDecryptWPukBytes := p.PBKDF2baseEncrptAndDecrypt firstExistEncryptWPukBytes .DECRYPT
        existhmacWPsw28Str existWSaltBytes m.iterationCount (48 * 8)
      let firstExistDecryptWPrkBytes := p.PBKDF2baseEncrptAndDecrypt firstExistEncryptWPrkBytes .DECRYPT
        existhmacWPsw28Str existWSaltBytes m.iterationCount (48 * 8)
      let newHmacReSetWPsw28Str ← hmacWPsw28Str p newHmacReSetWPsw
      let firstNewEncryptWPrkBytes := p.PBKDF2baseEncrptAndDecrypt firstExistDecryptWPrkBytes .ENCRYPT
        newHmacReSetWPsw28Str newWSaltBytes m.iterationCount (48 * 8)
      let firstNewEncryptWPukBytes := p.PBKDF2baseEncrptAndDecrypt firstExistDecryptWPukBytes .ENCRYPT
        newHmacReSetWPsw28Str newWSaltBytes m.iterationCount (48 * 8)
      let newHmacEwPukBytes := p.HmacDigest firstNewEncryptWPukBytes (utf8 newHmacReSetWPsw28Str)
      some ("0x5119" ++ "%" ++ p.toBase64String firstExistDecryptWPukBytes ++ "%" ++
        p.toBase64String newHmacEwPukBytes ++ "%" ++ p.toBase64String firstNewEncryptWPrkBytes ++ "$" ++
        p.toBase64String firstNewEncryptWPukBytes ++ "$" ++ p.toBase64String newWSaltBytes)
  | _, _, _ => some "  >>[!] Input Parameter Null String. ---> Input Parameter Check!"

/-- The text of the temporary wallet. -/
def resetWalletText (p : Provider) (m : Platform) (hmacReSetWPswB64Str orgWPukB64Str newData : String) :
    Option String := do
  let (new1stEncryptWPrkBytes, _, newWSaltBytes) ← parseRestoreData p newData
  let hmacReSetWPsw28Str ← hmacWPsw28Str p hmacReSetWPswB64Str
  let new2ndEncryptWPrkBytes := p.pbeEncrypt new1stEncryptWPrkBytes hmacReSetWPsw28Str newWSaltBytes
    m.iterationCount
  let orgWPukBytes ← p.decodeBase64 orgWPukB64Str
  let w := walletInfo p m "R" newWSaltBytes new2ndEncryptWPrkBytes orgWPukBytes
  some (walletFileStorage p m w newWSaltBytes hmacReSetWPsw28Str)

def BlockchainWalletPswReSetStorageGenCoreEngine (p : Provider) (m : Platform) (files : Files)
    (hmacReSetWPswB64Str orgWPukB64Str newData : String) : Option Files :=
  (resetWalletText p m hmacReSetWPswB64Str orgWPukB64Str newData).bind fun text =>
    BlockchainWalletFileStorage files text .tempRestoreWalletFileName true

/-- The text of a field that may be missing, as `append` writes it. -/
def appended (value : Option String) : String := value.getD "null"

/-- The text that is written over the restore wallet, made of the temporary one. -/
def updateText (m : Platform) (tempBytes : List UInt8) : Option String := do
  let tempProp ← load tempBytes
  let _versionInfo ← (getProperty tempProp "Version.Info").bind Integer.valueOf
  let iterationCount ← (getProperty tempProp "Iteration.Count").bind Integer.valueOf
  some (BlockchainWalletInfoGen m (appended (getProperty tempProp "Wallet.Type"))
    (appended (getProperty tempProp "Salt.Value")) iterationCount
    (appended (getProperty tempProp "Ciphered.Data")) (appended (getProperty tempProp "Wallet.PublicKey"))
    (appended (getProperty tempProp "Wallet.Addr")) (appended (getProperty tempProp "MAC.Data")))

/-- A missing temporary file is passed over. -/
def BlockchainWalletFileUpdate (m : Platform) (files : Files) : Option Files :=
  match files .tempRestoreWalletFileName with
  | none => some files
  | some tempBytes =>
    (updateText m tempBytes).bind fun text => BlockchainWalletFileStorage files text .restoreWalletFileName true

def BlockchainWalletFileDelete (files : Files) (name : FileName) (deleteBCWalletFlag : String) : Files :=
  if deleteBCWalletFlag = "0x5096" then fun other => if other = name then none else files other else files

/-- The reset: the files, and the HMAC and the data that are given to the server.  `none` is an
exception, or a check of the old password that failed. -/
def passwordReset (p : Provider) (m : Platform) (files : Files)
    (existHmacWPswB64Str newHmacReSetWPswB64Str existHmacEwPuk existData : String)
    (newWSaltBytes : List UInt8) : Option (Files × String × String) := do
  let registData ← BlockchainWalletPswReSetRegistDataGenCoreEngine p m (some existHmacWPswB64Str)
    (some newHmacReSetWPswB64Str) (some existHmacEwPuk) (some existData) newWSaltBytes
  match tokens '%' registData with
  | existSavedWPswVerifySFstr :: orgWPukB64str :: newHmacEwPukB64str :: newData :: _ =>
    if existSavedWPswVerifySFstr = "0x5120" then none
    else do
      let files ← BlockchainWalletPswReSetStorageGenCoreEngine p m files newHmacReSetWPswB64Str
        orgWPukB64str newData
      let files ← BlockchainWalletFileUpdate m files
      some (files, newHmacEwPukB64str, newData)
  | _ => none

section Flow

variable {p : Provider} (hp : p.Sound) (m : Platform) (keys : KeyPair) {oldSalt newSalt : List UInt8}
  (holdSalt : oldSalt ≠ []) (hnewSalt : ∃ b ∈ newSalt, b ≠ 0) (oldBytes newBytes : List UInt8)

include hp

theorem hmacWPsw28Str_base64 (bytes : List UInt8) :
    hmacWPsw28Str p (p.toBase64String bytes) = some (encodeHexString bytes) := by
  rw [hmacWPsw28Str, hp.decodeBase64, Option.map_some]

include holdSalt in
/-- The data for the server is restore data of the same keys under the new password and salt. -/
theorem registDataGen_restoreData :
    BlockchainWalletPswReSetRegistDataGenCoreEngine p m (some (p.toBase64String oldBytes))
        (some (p.toBase64String newBytes)) (some (restoreHmac p m keys oldSalt (encodeHexString oldBytes)))
        (some (restoreData p m keys oldSalt (encodeHexString oldBytes))) newSalt =
      some ("0x5119" ++ "%" ++ p.toBase64String keys.publicKey ++ "%" ++
        restoreHmac p m keys newSalt (encodeHexString newBytes) ++ "%" ++
        restoreData p m keys newSalt (encodeHexString newBytes)) := by
  have hparse : parseRestoreData p (restoreData p m keys oldSalt (encodeHexString oldBytes)) = _ :=
    parseRestoreData_join hp (hp.firstEncrypt_ne keys.privateKey_ne _ _ _)
      (hp.firstEncrypt_ne keys.publicKey_ne _ _ _) holdSalt
  simp only [BlockchainWalletPswReSetRegistDataGenCoreEngine, hmacWPsw28Str_base64 hp, hparse,
    Option.bind_eq_bind, Option.bind_some, restoreHmac, hp.decodeBase64, hp.pbkdf2Decrypt, hp.pbkdf2Encrypt,
    hp.firstDecrypt, ne_eq, not_true_eq_false, if_false]
  simp only [restoreData, String.append_assoc]

theorem tokens_registData (newPsw : String) :
    tokens '%' ("0x5119" ++ "%" ++ p.toBase64String keys.publicKey ++ "%" ++
        restoreHmac p m keys newSalt newPsw ++ "%" ++ restoreData p m keys newSalt newPsw) =
      ["0x5119", p.toBase64String keys.publicKey, restoreHmac p m keys newSalt newPsw,
        restoreData p m keys newSalt newPsw] := by
  show tokens '%' (_ ++ String.ofList ['%'] ++ _) = _
  rw [tokens_append, tokens_restoreData hp]
  show tokens '%' (_ ++ String.ofList ['%'] ++ _) ++ _ = _
  rw [tokens_append, restoreHmac, (hp.tokens_base64 (hp.hmac_ne _ _)).2]
  show tokens '%' (_ ++ String.ofList ['%'] ++ _) ++ _ ++ _ = _
  rw [tokens_append, (hp.tokens_base64 keys.publicKey_ne).2, tokens_of_not_mem (by decide), if_neg (by decide)]
  rfl

include hnewSalt in
/-- The temporary wallet is the one that is issued for the keys. -/
theorem resetWalletText_restoreData :
    (resetWalletText p m (p.toBase64String newBytes) (p.toBase64String keys.publicKey)
        (restoreData p m keys newSalt (encodeHexString newBytes))).map utf8 =
      some (issuedFile p m "R" keys newSalt (encodeHexString newBytes)) := by
  simp only [resetWalletText, parseRestoreData_restoreData hp m keys hnewSalt, hmacWPsw28Str_base64 hp,
    Option.bind_eq_bind, Option.bind_some, hp.decodeBase64, Option.map_some]
  rfl

end Flow

theorem plainText_R : PlainText "R" := plainText_of_visible (by decide)

/-- The update writes what it reads. -/
theorem updateText_issued (p : Provider) (m : Platform) (keys : KeyPair)
    (salt : List UInt8) (psw : String) :
    (updateText m (issuedFile p m "R" keys salt psw)).map utf8 = some (issuedFile p m "R" keys salt psw) := by
  have hversion : (getProperty (issuedProperties p m "R" keys salt psw) "Version.Info").bind
      Integer.valueOf = some m.versionInfo := valueOf_ofInt m.isInt_versionInfo
  have hcount : (getProperty (issuedProperties p m "R" keys salt psw) "Iteration.Count").bind
      Integer.valueOf = some m.iterationCount := valueOf_ofInt m.isInt_iterationCount
  simp only [updateText, load_issued plainText_R keys psw, Option.bind_eq_bind, Option.bind_some,
    hversion, hcount, Option.map_some]
  rfl

theorem fileUpdate_issued (p : Provider) (m : Platform) (keys : KeyPair)
    (salt : List UInt8) (psw : String) {files : Files}
    (htemp : files .tempRestoreWalletFileName = some (issuedFile p m "R" keys salt psw)) :
    BlockchainWalletFileUpdate m files =
      some (files.write .restoreWalletFileName (issuedFile p m "R" keys salt psw)) := by
  obtain ⟨text, htext, hbytes⟩ := Option.map_eq_some_iff.mp (updateText_issued p m keys salt psw)
  rw [BlockchainWalletFileUpdate, htemp]
  show (updateText m _).bind _ = _
  rw [htext, Option.bind_some, ← hbytes]
  rfl

/-- The reset leaves the restore wallet that is issued for the keys under the new password, and gives
the server the restore data of the same keys. -/
theorem passwordReset_restoreData {p : Provider} (hp : p.Sound) (m : Platform)
    (files : Files) (keys : KeyPair) {oldSalt newSalt : List UInt8} (holdSalt : oldSalt ≠ [])
    (hnewSalt : ∃ b ∈ newSalt, b ≠ 0) (oldBytes newBytes : List UInt8) :
    ∃ files', files' .restoreWalletFileName =
        some (issuedFile p m "R" keys newSalt (encodeHexString newBytes)) ∧
      passwordReset p m files (p.toBase64String oldBytes) (p.toBase64String newBytes)
          (restoreHmac p m keys oldSalt (encodeHexString oldBytes))
          (restoreData p m keys oldSalt (encodeHexString oldBytes)) newSalt =
        some (files', restoreHmac p m keys newSalt (encodeHexString newBytes),
          restoreData p m keys newSalt (encodeHexString newBytes)) := by
  obtain ⟨text, htext, hbytes⟩ :=
    Option.map_eq_some_iff.mp (resetWalletText_restoreData hp m keys hnewSalt newBytes)
  have hstored : BlockchainWalletPswReSetStorageGenCoreEngine p m files (p.toBase64String newBytes)
      (p.toBase64String keys.publicKey) (restoreData p m keys newSalt (encodeHexString newBytes)) =
      some (files.write .tempRestoreWalletFileName
        (issuedFile p m "R" keys newSalt (encodeHexString newBytes))) := by
    rw [BlockchainWalletPswReSetStorageGenCoreEngine, htext, Option.bind_some, ← hbytes]
    rfl
  have hupdated := fileUpdate_issued p m keys newSalt (encodeHexString newBytes)
    (Files.write_self files .tempRestoreWalletFileName _)
  refine ⟨(files.write .tempRestoreWalletFileName
    (issuedFile p m "R" keys newSalt (encodeHexString newBytes))).write .restoreWalletFileName
    (issuedFile p m "R" keys newSalt (encodeHexString newBytes)), Files.write_self _ _ _, ?_⟩
  simp only [passwordReset, registDataGen_restoreData hp m keys holdSalt oldBytes newBytes,
    Option.bind_eq_bind, Option.bind_some, tokens_registData hp m keys, hstored, hupdated,
    show ¬ ("0x5119" : String) = "0x5120" by decide, if_false]

/-! ## The reset keeps the keys -/

/-- The wallet signs as it was issued for the keys and gives their public key. -/
structure WalletOf (p : Provider) (m : Platform) (files : Files) (salt : List UInt8) (psw : String)
    (keys : KeyPair) : Prop where
  signsWith : SignsWith p files true (issuedInfo p m "R" keys salt psw) salt psw keys
  publicKey : GetBlockchainPulicKey files true = some (MoaBase58.encode keys.publicKey)

theorem publicKey_issued {p : Provider} {m : Platform} {keys : KeyPair} {salt : List UInt8} {psw : String}
    {files : Files} (hfile : files .restoreWalletFileName = some (issuedFile p m "R" keys salt psw)) :
    GetBlockchainPulicKey files true = some (MoaBase58.encode keys.publicKey) := by
  have hbytes : files (flaggedFile true) = some (issuedFile p m "R" keys salt psw) := hfile
  simp only [GetBlockchainPulicKey, hbytes, Option.bind_some, load_issued plainText_R keys psw,
    (address_issued plainText_R keys psw).1]

section Kept

variable {p : Provider} (hp : p.Sound) {m : Platform} {keys : KeyPair}
  {salt : List UInt8} (hsalt : ∃ b ∈ salt, b ≠ 0) {psw : String} {files : Files}
  (hfile : files .restoreWalletFileName = some (issuedFile p m "R" keys salt psw))

include hp hsalt hfile in
theorem walletOf_of_readable (h : Readable p m keys salt psw) : WalletOf p m files salt psw keys :=
  ⟨signsWith_of_readable hp plainText_R hsalt hfile h, publicKey_issued hfile⟩

include hsalt hfile in
theorem readable_of_walletOf (hinj : ∀ key, Function.Injective fun data => p.HmacDigest data key)
    (h : WalletOf p m files salt psw keys) : Readable p m keys salt psw :=
  readable_of_signing plainText_R hsalt (show files (flaggedFile true) = _ from hfile) hinj h.signsWith.signing

end Kept

/-- The restore wallet is one of the keys under the new password, and so is the wallet that the new
restore data gives on another machine that has none. -/
def ResetKeeps (p : Provider) (m other : Platform) (files : Files) (keys : KeyPair)
    (oldSalt newSalt oldBytes newBytes : List UInt8) : Prop :=
  ∃ files' hmac data,
    passwordReset p m files (p.toBase64String oldBytes) (p.toBase64String newBytes)
        (restoreHmac p m keys oldSalt (encodeHexString oldBytes))
        (restoreData p m keys oldSalt (encodeHexString oldBytes)) newSalt = some (files', hmac, data) ∧
      WalletOf p m files' newSalt (encodeHexString newBytes) keys ∧
      ∀ there : Files, there .restoreWalletFileName = none → ∃ there',
        RestoreBlockchainWallet p other there (encodeHexString newBytes) (some hmac) (some data) =
            some (there', "0x509E") ∧
          WalletOf p other there' newSalt (encodeHexString newBytes) keys

theorem restore_elsewhere {p : Provider} (hp : p.Sound) {m other : Platform}
    (hcount : other.iterationCount = m.iterationCount) {there : Files}
    (hnew : there .restoreWalletFileName = none) (keys : KeyPair) {salt : List UInt8}
    (hsalt : ∃ b ∈ salt, b ≠ 0) (psw : String) :
    RestoreBlockchainWallet p other there psw (some (restoreHmac p m keys salt psw))
        (some (restoreData p m keys salt psw)) =
      some (there.write .restoreWalletFileName (issuedFile p other "R" keys salt psw), "0x509E") := by
  have hrun := run_issuing hp other (i := .restore keys) hnew hsalt psw
  have hdata : restoreData p m keys salt psw = restoreData p other keys salt psw := by
    rw [restoreData, restoreData, hcount]
  have hhmac : restoreHmac p m keys salt psw = restoreHmac p other keys salt psw := by
    rw [restoreHmac, restoreHmac, hcount]
  rw [hdata, hhmac]
  obtain ⟨⟨files', code⟩, hrestore, hcode⟩ := Option.bind_eq_some_iff.mp hrun
  simp only at hcode
  split at hcode
  · rename_i h509E
    rw [Option.some.injEq] at hcode
    rw [hrestore, hcode, h509E]
    rfl
  · cases hcode

theorem readable_other {p : Provider} {m other : Platform}
    (hcount : other.iterationCount = m.iterationCount) {keys : KeyPair} {salt : List UInt8} {psw : String}
    (h : Readable p m keys salt psw) (hother : Ascii other.osName.toList) :
    Readable p other keys salt psw := by
  refine ⟨hother, ?_⟩
  rw [encryptedTwice, hcount]
  exact h.ciphered

/-- **The reset keeps key pair and address** where the new wallet can be read on both machines, and,
the HMAC being free of collisions, nowhere else. -/
theorem reset_keeps {p : Provider} (hp : p.Sound) {m other : Platform}
    (hcount : other.iterationCount = m.iterationCount) (files : Files)
    (keys : KeyPair) {oldSalt newSalt : List UInt8} (holdSalt : oldSalt ≠ [])
    (hnewSalt : ∃ b ∈ newSalt, b ≠ 0) (oldBytes newBytes : List UInt8) :
    (Readable p m keys newSalt (encodeHexString newBytes) ∧ Ascii other.osName.toList →
      ResetKeeps p m other files keys oldSalt newSalt oldBytes newBytes) ∧
    ((∀ key, Function.Injective fun data => p.HmacDigest data key) →
      ResetKeeps p m other files keys oldSalt newSalt oldBytes newBytes →
      Readable p m keys newSalt (encodeHexString newBytes) ∧ Ascii other.osName.toList) := by
  obtain ⟨files', hfile, hreset⟩ :=
    passwordReset_restoreData hp m files keys holdSalt hnewSalt oldBytes newBytes
  have helsewhere := fun {there : Files} (hnew : there .restoreWalletFileName = none) =>
    restore_elsewhere hp hcount hnew keys hnewSalt (encodeHexString newBytes)
  refine ⟨?_, ?_⟩
  · rintro ⟨hreadable, hascii⟩
    refine ⟨files', _, _, hreset, walletOf_of_readable hp hnewSalt hfile hreadable, ?_⟩
    intro there hnew
    exact ⟨_, helsewhere hnew, walletOf_of_readable hp hnewSalt (Files.write_self _ _ _)
      (readable_other hcount hreadable hascii)⟩
  · rintro hinj ⟨files'', hmac, data, hkeeps, hhere, hthere⟩
    rw [hreset, Option.some.injEq, Prod.mk.injEq, Prod.mk.injEq] at hkeeps
    obtain ⟨rfl, rfl, rfl⟩ := hkeeps
    obtain ⟨there', hrestored, hwallet⟩ := hthere (fun _ => none) rfl
    rw [helsewhere rfl, Option.some.injEq, Prod.mk.injEq] at hrestored
    obtain ⟨rfl, _⟩ := hrestored
    exact ⟨readable_of_walletOf hnewSalt hfile hinj hhere,
      (readable_of_walletOf hnewSalt (Files.write_self _ _ _) hinj hwallet).osName⟩

/-- A reset on Linux, and a restore on Windows. -/
theorem reset_keeps_linux :
    ResetKeeps .plain linux windows (fun _ => none) plainKeys [1] [2] [3] [4] :=
  (reset_keeps Provider.plain_sound (show windows.iterationCount = linux.iterationCount from rfl)
    (fun _ => none) plainKeys (show ([1] : List UInt8) ≠ [] by decide)
    (show ∃ b ∈ ([2] : List UInt8), b ≠ 0 by decide) [3] [4]).1
    ⟨readable_plain (by decide) _ _ _, by decide⟩

/-- With an umlaut in the name of the system the wallet does not sign after the reset. -/
theorem reset_loses_umlaut :
    ¬ ResetKeeps .plain umlaut umlaut (fun _ => none) plainKeys [1] [2] [3] [4] := by
  obtain ⟨files', hfile, hreset⟩ := passwordReset_restoreData Provider.plain_sound umlaut
    (fun _ => none) plainKeys (show ([1] : List UInt8) ≠ [] by decide)
    (show ∃ b ∈ ([2] : List UInt8), b ≠ 0 by decide) [3] [4]
  rintro ⟨files'', hmac, data, hkeeps, hhere, _⟩
  rw [hreset, Option.some.injEq, Prod.mk.injEq] at hkeeps
  obtain ⟨rfl, _⟩ := hkeeps
  have hreadable := readable_of_walletOf (m := umlaut) (by decide) hfile Provider.plain_hmac_injective hhere
  exact absurd hreadable.osName (by decide)

end MoaCrypto.Wallet
