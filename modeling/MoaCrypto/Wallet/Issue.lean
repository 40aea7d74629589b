import MoaCrypto.Wallet.File

/-!
# Issuing a wallet and signing with it (`MoaWalletAPI.java`)

Three writers make a wallet file: of a new key pair (`NonR`), of the restore data of the server right
after they were made, and of the restore data at a restore (`R`).  `BlockchainTransactionSign` reads
the file, checks the MAC, decrypts the private key and signs.  The name of the system goes into the MAC
as it is, but is read back as ISO 8859-1, and a ciphertext of zeros is not decoded from Base58; on all
other wallets signing works with the issued key (`signing_iff`).
-/

namespace MoaCrypto.Wallet

open Java Properties

/-! ## The writers -/

/-- The bytes of a private and a public key. -/
structure KeyPair where
  privateKey : List UInt8
  publicKey : List UInt8
  privateKey_ne : privateKey ≠ []
  publicKey_ne : publicKey ≠ []

theorem toByteArray_ne (n : Nat) : toByteArray n ≠ [] := by
  unfold toByteArray
  split
  · simp
  · split <;> simp

/-- The key pair of `ECKeyPair.create`. -/
structure ECKeyPair where
  getPrivateKey : Nat
  getPublicKey : Nat

def ECKeyPair.bytes (ecKP : ECKeyPair) : KeyPair :=
  ⟨toByteArray ecKP.getPrivateKey, toByteArray ecKP.getPublicKey, toByteArray_ne _, toByteArray_ne _⟩

def BlockchainEncryptPrk (p : Provider) (privateKeyByte : List UInt8) (passwordStr : String)
    (saltByte : List UInt8) (iterationCount : Int) : List UInt8 :=
  let first := p.PBKDF2baseEncrptAndDecrypt privateKeyByte .ENCRYPT passwordStr saltByte iterationCount (48 * 8)
  p.pbeEncrypt first passwordStr saltByte iterationCount

def BlockchainDecryptPrk (p : Provider) (cipherTextBytes : List UInt8) (passwordStr : String)
    (saltByte : List UInt8) (iterationCount : Int) : Option (List UInt8) :=
  (p.pbeDecrypt cipherTextBytes passwordStr saltByte iterationCount).map fun second =>
    p.PBKDF2baseEncrptAndDecrypt second .DECRYPT passwordStr saltByte iterationCount (48 * 8)

/-- The fields that every writer makes of the salt, the ciphertext and the public key. -/
def walletInfo (p : Provider) (m : Platform) (walletTypeStr : String)
    (saltBytes encryptedBytes publicKeyBytes : List UInt8) : WalletInfo where
  versionInfo := m.versionInfo
  osInfo := m.osName
  walletTypeStr := walletTypeStr
  saltBase58Str := MoaBase58.encode saltBytes
  iterationCount := m.iterationCount
  cipheredDataBase58Str := MoaBase58.encode encryptedBytes
  walletPublicKeyBase58Str := MoaBase58.encode publicKeyBytes
  walletAddrBase58Str := MoaBase58.encode (EthereumWalletAddrGen p publicKeyBytes)

/-- The text that every writer stores, with the MAC under the password. -/
def walletFileStorage (p : Provider) (m : Platform) (w : WalletInfo) (saltBytes : List UInt8)
    (passwordStr : String) : String :=
  BlockchainWalletInfoGen m w.walletTypeStr w.saltBase58Str w.iterationCount w.cipheredDataBase58Str
    w.walletPublicKeyBase58Str w.walletAddrBase58Str
    (MoaBase58.encode (w.macDataBytes p (hmacKey p saltBytes passwordStr)))

def NonRestoreBlockchainWalletIssuing (p : Provider) (m : Platform) (files : Files) (ecKP : ECKeyPair)
    (salt : List UInt8) (password : String) : Option Files :=
  let keys := ecKP.bytes
  let encrypted := BlockchainEncryptPrk p keys.privateKey password salt m.iterationCount
  let w := walletInfo p m "NonR" salt encrypted keys.publicKey
  BlockchainWalletFileStorage files (walletFileStorage p m w salt password) .walletFileName false

/-- The parts of `E(prk)$E(puk)$salt`, decoded. -/
def parseRestoreData (p : Provider) (encWPrkAndencWPukAndwSalt : String) :
    Option (List UInt8 × List UInt8 × List UInt8) :=
  match tokens '$' encWPrkAndencWPukAndwSalt with
  | wPrk :: wPuk :: wSalt :: _ => do
    let firstEncryptWPrkBytes ← p.decodeBase64 wPrk
    let firstEncryptWPukBytes ← p.decodeBase64 wPuk
    let saltBytes ← p.decodeBase64 wSalt
    some (firstEncryptWPrkBytes, firstEncryptWPukBytes, saltBytes)
  | _ => none

def RestoreBlockchainWalletIssuing (p : Provider) (m : Platform) (files : Files) (passwordStr : String)
    (encWPrkAndencWPukAndwSalt : Option String) : Option Files :=
  match encWPrkAndencWPukAndwSalt with
  | none => some files
  | some data => do
    let (firstEncryptWPrkBytes, firstEncryptWPukBytes, saltBytes) ← parseRestoreData p data
    let publicKeyBytes := p.firstDecrypt firstEncryptWPukBytes passwordStr saltBytes m.iterationCount
    let secondEncryptPrkBytes := p.pbeEncrypt firstEncryptWPrkBytes passwordStr saltBytes m.iterationCount
    let w := walletInfo p m "R" saltBytes secondEncryptPrkBytes publicKeyBytes
    BlockchainWalletFileStorage files (walletFileStorage p m w saltBytes passwordStr)
      .restoreWalletFileName false

/-- The files and the code that is returned. -/
def RestoreBlockchainWallet (p : Provider) (m : Platform) (files : Files) (passwordStr : String)
    (existHmacEwPuk encWPrkAndencWPukAndwSalt : Option String) : Option (Files × String) :=
  match encWPrkAndencWPukAndwSalt, existHmacEwPuk with
  | none, none => some (files, "0x50A0")
  | some data, some existHmacEwPukBase64Str => do
    let (firstEncryptWPrkBytes, firstEncryptWPukBytes, saltBytes) ← parseRestoreData p data
    let existHmacEwPukBytes ← p.decodeBase64 existHmacEwPukBase64Str
    let newHmacEwPukBytes := p.HmacDigest firstEncryptWPukBytes (utf8 passwordStr)
    if existHmacEwPukBytes ≠ newHmacEwPukBytes then some (files, "0x509F")
    else do
      let firstDecryptWPukBytes := p.PBKDF2baseEncrptAndDecrypt firstEncryptWPukBytes .DECRYPT passwordStr
        saltBytes m.iterationCount (48 * 8)
      let secondEncryptWPrkBytes := p.pbeEncrypt firstEncryptWPrkBytes passwordStr saltBytes m.iterationCount
      let w := walletInfo p m "R" saltBytes secondEncryptWPrkBytes firstDecryptWPukBytes
      let files ← BlockchainWalletFileStorage files (walletFileStorage p m w saltBytes passwordStr)
        .restoreWalletFileName false
      some (files, "0x509E")
  | _, _ => none

/-! ## Signing -/

/-- How `BlockchainTransactionSign` comes out: with the code of a failed check, or with a signature
under a private key. -/
inductive Signing
  | integrityFail
  | signedWith (privateKeyBytes : List UInt8)
  deriving DecidableEq

/-- The MAC check. -/
def StoredWallet.macPasses (p : Provider) (w : StoredWallet) (passwordStr : String) : Option Bool :=
  (MoaBase58.decode w.info.saltBase58Str).map fun saltBytes =>
    w.macDataBase58Str = MoaBase58.encode (w.info.macDataBytes p (hmacKey p saltBytes passwordStr))

/-- The check and the decryption. -/
def StoredWallet.signing (p : Provider) (w : StoredWallet) (passwordStr : String) : Option Signing := do
  let passes ← w.macPasses p passwordStr
  if ¬ passes then some .integrityFail
  else do
    let encryptedPrivateKeyBytes ← MoaBase58.decode w.info.cipheredDataBase58Str
    let saltBytes ← MoaBase58.decode w.info.saltBase58Str
    let privateKeyBytes ← BlockchainDecryptPrk p encryptedPrivateKeyBytes passwordStr saltBytes
      w.info.iterationCount
    some (.signedWith privateKeyBytes)

/-- The file that a `restoreFlagStr` names. -/
def walletFile (restoreFlagStr : String) : Option FileName :=
  if restoreFlagStr = "RESTORE" then some .restoreWalletFileName
  else if restoreFlagStr = "NON" then some .walletFileName
  else if restoreFlagStr = "TEMP" then some .tempRestoreWalletFileName
  else none

/-- `BlockchainTransactionSign` up to the signature. -/
def transactionSigning (p : Provider) (files : Files) (passwordStr restoreFlagStr : String) :
    Option Signing := do
  let name ← walletFile restoreFlagStr
  let bytes ← files name
  let w ← loadWallet bytes
  w.signing p passwordStr

def BlockchainTransactionSign (p : Provider) (files : Files)
    (trasctionDataStr passwordStr restoreFlagStr : String) : Option (List UInt8) :=
  (transactionSigning p files passwordStr restoreFlagStr).map fun
    | .integrityFail => utf8 "0x5201"
    | .signedWith privateKeyBytes => p.blockchainECDSASign (utf8 trasctionDataStr) privateKeyBytes

/-! ## A written file -/

/-- The twice encrypted private key. -/
def encryptedTwice (p : Provider) (m : Platform) (keys : KeyPair) (salt : List UInt8) (psw : String) :
    List UInt8 :=
  p.pbeEncrypt (p.firstEncrypt keys.privateKey psw salt m.iterationCount) psw salt m.iterationCount

/-- The fields that are issued for a key pair. -/
def issuedInfo (p : Provider) (m : Platform) (walletTypeStr : String) (keys : KeyPair)
    (salt : List UInt8) (psw : String) : WalletInfo :=
  walletInfo p m walletTypeStr salt (encryptedTwice p m keys salt psw) keys.publicKey

/-- The file that is issued for a key pair. -/
def issuedFile (p : Provider) (m : Platform) (walletTypeStr : String) (keys : KeyPair)
    (salt : List UInt8) (psw : String) : List UInt8 :=
  utf8 (walletFileStorage p m (issuedInfo p m walletTypeStr keys salt psw) salt psw)

/-- The fields as they are read from the issued file. -/
def readInfo (p : Provider) (m : Platform) (walletTypeStr : String) (keys : KeyPair)
    (salt : List UInt8) (psw : String) : WalletInfo :=
  { issuedInfo p m walletTypeStr keys salt psw with osInfo := rereadName m.osName }

/-- The wallet that is read from the issued file. -/
def readWallet (p : Provider) (m : Platform) (type : String) (keys : KeyPair) (salt : List UInt8)
    (psw : String) : StoredWallet :=
  ⟨readInfo p m type keys salt psw,
    MoaBase58.encode ((issuedInfo p m type keys salt psw).macDataBytes p (hmacKey p salt psw))⟩

/-- What is loaded from the issued file. -/
def issuedProperties (p : Provider) (m : Platform) (type : String) (keys : KeyPair) (salt : List UInt8)
    (psw : String) : List (String × String) :=
  let w := issuedInfo p m type keys salt psw
  writtenProperties m w.walletTypeStr w.saltBase58Str w.iterationCount w.cipheredDataBase58Str
    w.walletPublicKeyBase58Str w.walletAddrBase58Str (MoaBase58.encode (w.macDataBytes p (hmacKey p salt psw)))

section Issued

variable {p : Provider} (hp : p.Sound) {m : Platform} {type : String}
  (htype : PlainText type) (keys : KeyPair) {salt : List UInt8} (hsalt : ∃ b ∈ salt, b ≠ 0) (psw : String)

include htype in
theorem load_issued : load (issuedFile p m type keys salt psw) = some (issuedProperties p m type keys salt psw) :=
  load_written htype (plainText_encode _) (plainText_encode _) (plainText_encode _)
    (plainText_encode _) (plainText_encode _)

include htype in
theorem address_issued :
    trimmedProperty (issuedProperties p m type keys salt psw) "Wallet.PublicKey" =
        some (MoaBase58.encode keys.publicKey) ∧
      trimmedProperty (issuedProperties p m type keys salt psw) "Wallet.Addr" =
        some (MoaBase58.encode (EthereumWalletAddrGen p keys.publicKey)) := by
  obtain ⟨_, _, _, _, hpuk, haddr, _⟩ := trimmedProperty_written (m := m) (n := m.iterationCount) htype
    (plainText_encode salt) (plainText_encode (encryptedTwice p m keys salt psw))
    (plainText_encode keys.publicKey) (plainText_encode (EthereumWalletAddrGen p keys.publicKey))
    (plainText_encode ((issuedInfo p m type keys salt psw).macDataBytes p (hmacKey p salt psw)))
  exact ⟨hpuk, haddr⟩

include htype in
theorem loadWallet_issued :
    loadWallet (issuedFile p m type keys salt psw) = some (readWallet p m type keys salt psw) :=
  loadWallet_text htype (plainText_encode _) (plainText_encode _) (plainText_encode _)
    (plainText_encode _) (plainText_encode _) m.isInt_iterationCount

include hsalt in
/-- The check compares the MAC of the fields as they were issued with that of the fields as they are read. -/
theorem macPasses_readWallet (other : String) :
    (readWallet p m type keys salt psw).macPasses p other =
      some (decide ((issuedInfo p m type keys salt psw).macDataBytes p (hmacKey p salt psw) =
        (readInfo p m type keys salt psw).macDataBytes p (hmacKey p salt other))) := by
  have hdecode : MoaBase58.decode (readWallet p m type keys salt psw).info.saltBase58Str = some salt :=
    MoaBase58.decode_encode hsalt
  rw [StoredWallet.macPasses, hdecode, Option.map_some]
  congr 1
  exact decide_eq_decide.mpr ⟨MoaBase58.encode_injective, congrArg MoaBase58.encode⟩

include hp hsalt in
/-- The issued key, if the ciphertext is not of zeros. -/
theorem signing_readWallet (hmac : (issuedInfo p m type keys salt psw).macDataBytes p (hmacKey p salt psw) =
      (readInfo p m type keys salt psw).macDataBytes p (hmacKey p salt psw))
    (hcipher : ∃ b ∈ encryptedTwice p m keys salt psw, b ≠ 0) :
    (readWallet p m type keys salt psw).signing p psw = some (.signedWith keys.privateKey) := by
  have hdecode : MoaBase58.decode (readWallet p m type keys salt psw).info.saltBase58Str = some salt :=
    MoaBase58.decode_encode hsalt
  have hdecrypt : BlockchainDecryptPrk p (encryptedTwice p m keys salt psw) psw salt
      (readWallet p m type keys salt psw).info.iterationCount = some keys.privateKey := by
    show BlockchainDecryptPrk p _ psw salt m.iterationCount = _
    rw [BlockchainDecryptPrk, encryptedTwice, hp.pbeDecrypt, Option.map_some, hp.pbkdf2Decrypt, hp.firstDecrypt]
  have hcode : MoaBase58.decode (readWallet p m type keys salt psw).info.cipheredDataBase58Str =
      some (encryptedTwice p m keys salt psw) := MoaBase58.decode_encode hcipher
  rw [StoredWallet.signing, macPasses_readWallet keys hsalt psw psw]
  simp [hmac, hdecode, hcode, hdecrypt]

include hsalt in
/-- Under a password with another MAC the check fails. -/
theorem signing_integrityFail {other : String}
    (h : (issuedInfo p m type keys salt psw).macDataBytes p (hmacKey p salt psw) ≠
      (readInfo p m type keys salt psw).macDataBytes p (hmacKey p salt other)) :
    (readWallet p m type keys salt psw).signing p other = some .integrityFail := by
  rw [StoredWallet.signing, macPasses_readWallet keys hsalt psw other]
  simp [h]

include hsalt in
theorem signing_zeros (hmac : (issuedInfo p m type keys salt psw).macDataBytes p (hmacKey p salt psw) =
      (readInfo p m type keys salt psw).macDataBytes p (hmacKey p salt psw))
    (hcipher : ¬ ∃ b ∈ encryptedTwice p m keys salt psw, b ≠ 0) :
    (readWallet p m type keys salt psw).signing p psw = none := by
  have hcode : MoaBase58.decode (readWallet p m type keys salt psw).info.cipheredDataBase58Str = none :=
    MoaBase58.decode_encode_of_zeros hcipher
  rw [StoredWallet.signing, macPasses_readWallet keys hsalt psw psw]
  simp [hmac, hcode]

/-- The two texts under the MAC agree where the name of the system comes back. -/
theorem readInfo_eq (h : Ascii m.osName.toList) :
    readInfo p m type keys salt psw = issuedInfo p m type keys salt psw := by
  rw [readInfo, rereadName_eq_self.mpr h]
  rfl

theorem walletConcat_readInfo_ne (h : ¬ Ascii m.osName.toList) :
    (readInfo p m type keys salt psw).walletConcat ≠ (issuedInfo p m type keys salt psw).walletConcat := by
  intro he
  simp only [WalletInfo.walletConcat, readInfo, issuedInfo, walletInfo, String.append_assoc] at he
  have hname := String.append_left_inj _ |>.mp ((String.append_right_inj _).mp he)
  exact h (rereadName_eq_self.mp hname)

end Issued

/-! ## Restore data -/

/-- `E(prk)$E(puk)$salt`. -/
def restoreData (p : Provider) (m : Platform) (keys : KeyPair) (salt : List UInt8) (psw : String) : String :=
  p.toBase64String (p.firstEncrypt keys.privateKey psw salt m.iterationCount) ++ "$" ++
    p.toBase64String (p.firstEncrypt keys.publicKey psw salt m.iterationCount) ++ "$" ++
    p.toBase64String salt

/-- The HMAC of the encrypted public key. -/
def restoreHmac (p : Provider) (m : Platform) (keys : KeyPair) (salt : List UInt8) (psw : String) : String :=
  p.toBase64String (p.HmacDigest (p.firstEncrypt keys.publicKey psw salt m.iterationCount) (utf8 psw))

theorem ne_nil_of_nonzero {bytes : List UInt8} (h : ∃ b ∈ bytes, b ≠ 0) : bytes ≠ [] := by
  obtain ⟨b, hb, _⟩ := h
  exact List.ne_nil_of_mem hb

theorem parseRestoreData_join {p : Provider} (hp : p.Sound) {x y z : List UInt8} (hx : x ≠ [])
    (hy : y ≠ []) (hz : z ≠ []) :
    parseRestoreData p (p.toBase64String x ++ "$" ++ p.toBase64String y ++ "$" ++ p.toBase64String z) =
      some (x, y, z) := by
  have htokens : tokens '$' (p.toBase64String x ++ "$" ++ p.toBase64String y ++ "$" ++ p.toBase64String z) =
      [p.toBase64String x, p.toBase64String y, p.toBase64String z] :=
    tokens_three (hp.tokens_base64 hx).1 (hp.tokens_base64 hy).1 (hp.tokens_base64 hz).1
  rw [parseRestoreData, htokens]
  simp [hp.decodeBase64]

theorem parseRestoreData_restoreData {p : Provider} (hp : p.Sound) (m : Platform) (keys : KeyPair)
    {salt : List UInt8} (hsalt : ∃ b ∈ salt, b ≠ 0) (psw : String) :
    parseRestoreData p (restoreData p m keys salt psw) =
      some (p.firstEncrypt keys.privateKey psw salt m.iterationCount,
        p.firstEncrypt keys.publicKey psw salt m.iterationCount, salt) :=
  parseRestoreData_join hp (hp.firstEncrypt_ne keys.privateKey_ne _ _ _)
    (hp.firstEncrypt_ne keys.publicKey_ne _ _ _) (ne_nil_of_nonzero hsalt)

/-- Three texts with separators in between are one token of a message. -/
theorem Provider.Sound.tokens_joined {p : Provider} (hp : p.Sound) (x y z : List UInt8) :
    tokens '%' (p.toBase64String x ++ "$" ++ p.toBase64String y ++ "$" ++ p.toBase64String z) =
      [p.toBase64String x ++ "$" ++ p.toBase64String y ++ "$" ++ p.toBase64String z] := by
  have hmem : '%' ∉ (p.toBase64String x ++ "$" ++ p.toBase64String y ++ "$" ++ p.toBase64String z).toList := by
    simp [String.toList_append, (hp.base64 _).2]
  have hne : p.toBase64String x ++ "$" ++ p.toBase64String y ++ "$" ++ p.toBase64String z ≠ "" := by
    intro he
    have hlen := congrArg (fun s => s.toList.length) he
    simp [String.toList_append] at hlen
  rw [tokens_of_not_mem hmem, if_neg hne]

/-- The data is one token of the message that it is in. -/
theorem tokens_restoreData {p : Provider} (hp : p.Sound) {m : Platform} {keys : KeyPair} {salt : List UInt8}
    {psw : String} : tokens '%' (restoreData p m keys salt psw) = [restoreData p m keys salt psw] :=
  hp.tokens_joined _ _ _

/-! ## Every issued wallet signs -/

/-- The writers with the key pair that they issue. -/
inductive Issuing
  | nonRestoreIssuing (ecKP : ECKeyPair)
  | restoreIssuing (keys : KeyPair)
  | restore (keys : KeyPair)

namespace Issuing

def keys : Issuing → KeyPair
  | nonRestoreIssuing ecKP => ecKP.bytes
  | restoreIssuing keys => keys
  | restore keys => keys

def restoreFlag : Issuing → Bool
  | nonRestoreIssuing _ => false
  | restoreIssuing _ => true
  | restore _ => true

def walletType (i : Issuing) : String := if i.restoreFlag then "R" else "NonR"

/-- The files after the writer, on the restore data of the key pair where it takes any. -/
def run (p : Provider) (m : Platform) (files : Files) (salt : List UInt8) (psw : String) :
    Issuing → Option Files
  | nonRestoreIssuing ecKP => NonRestoreBlockchainWalletIssuing p m files ecKP salt psw
  | restoreIssuing keys =>
    RestoreBlockchainWalletIssuing p m files psw (some (restoreData p m keys salt psw))
  | restore keys =>
    (RestoreBlockchainWallet p m files psw (some (restoreHmac p m keys salt psw))
      (some (restoreData p m keys salt psw))).bind fun (files, code) =>
        if code = "0x509E" then some files else none

end Issuing

theorem BlockchainWalletFileStorage_new {files : Files} {name : FileName} (h : files name = none)
    (text : String) (permit : Bool) :
    BlockchainWalletFileStorage files text name permit = some (files.write name (utf8 text)) := by
  rw [BlockchainWalletFileStorage, h]
  simp

/-- Every writer stores the file that is issued for its key pair. -/
theorem run_issuing {p : Provider} (hp : p.Sound) (m : Platform) {files : Files} {i : Issuing}
    (hnew : files (flaggedFile i.restoreFlag) = none) {salt : List UInt8} (hsalt : ∃ b ∈ salt, b ≠ 0)
    (psw : String) :
    i.run p m files salt psw =
      some (files.write (flaggedFile i.restoreFlag) (issuedFile p m i.walletType i.keys salt psw)) := by
  cases i with
  | nonRestoreIssuing ecKP =>
    have hstored := BlockchainWalletFileStorage_new (show files .walletFileName = none from hnew)
      (walletFileStorage p m (issuedInfo p m "NonR" ecKP.bytes salt psw) salt psw) false
    simp only [issuedInfo, encryptedTwice] at hstored
    simp only [Issuing.run, NonRestoreBlockchainWalletIssuing, BlockchainEncryptPrk, hp.pbkdf2Encrypt, hstored]
    rfl
  | restoreIssuing keys =>
    simp only [Issuing.run, RestoreBlockchainWalletIssuing, parseRestoreData_restoreData hp m keys hsalt psw,
      Option.bind_eq_bind, Option.bind_some, hp.firstDecrypt]
    exact BlockchainWalletFileStorage_new hnew _ _
  | restore keys =>
    have hstored := BlockchainWalletFileStorage_new (show files .restoreWalletFileName = none from hnew)
      (walletFileStorage p m (issuedInfo p m "R" keys salt psw) salt psw) false
    simp only [issuedInfo, encryptedTwice] at hstored
    simp only [Issuing.run, RestoreBlockchainWallet, parseRestoreData_restoreData hp m keys hsalt psw,
      Option.bind_eq_bind, Option.bind_some, restoreHmac, hp.decodeBase64, hp.pbkdf2Decrypt, hp.firstDecrypt,
      ne_eq, not_true_eq_false, if_false, if_true, hstored]
    rfl

/-- The flag of the file that `restoreFlag` selects. -/
def restoreFlagStr (restoreFlag : Bool) : String := if restoreFlag then "RESTORE" else "NON"

theorem walletFile_restoreFlagStr (restoreFlag : Bool) :
    walletFile (restoreFlagStr restoreFlag) = some (flaggedFile restoreFlag) := by
  cases restoreFlag <;> rfl

/-- The wallet signs with the private key under its password, has the address of the public key, and
under a password with another MAC it reports the failed check instead. -/
structure SignsWith (p : Provider) (files : Files) (restoreFlag : Bool) (issued : WalletInfo)
    (salt : List UInt8) (psw : String) (keys : KeyPair) : Prop where
  signing : transactionSigning p files psw (restoreFlagStr restoreFlag) = some (.signedWith keys.privateKey)
  signs : ∀ data, BlockchainTransactionSign p files data psw (restoreFlagStr restoreFlag) =
    some (p.blockchainECDSASign (utf8 data) keys.privateKey)
  addr : GetBlockchainWalletAddr files restoreFlag =
    some (MoaBase58.encode (EthereumWalletAddrGen p keys.publicKey))
  rejects : ∀ data other,
    issued.macDataBytes p (hmacKey p salt other) ≠ issued.macDataBytes p (hmacKey p salt psw) →
      transactionSigning p files other (restoreFlagStr restoreFlag) = some .integrityFail ∧
        BlockchainTransactionSign p files data other (restoreFlagStr restoreFlag) = some (utf8 "0x5201")

/-- What the reader needs: a name of the system that comes back, and a ciphertext that Base58 decodes. -/
structure Readable (p : Provider) (m : Platform) (keys : KeyPair) (salt : List UInt8) (psw : String) : Prop where
  osName : Ascii m.osName.toList
  ciphered : ∃ b ∈ encryptedTwice p m keys salt psw, b ≠ 0

/-- The fields as they are issued and as they are read have one MAC for one text only. -/
def MacTells (p : Provider) (m : Platform) (type : String) (keys : KeyPair) (salt : List UInt8) (psw : String) : Prop :=
  (issuedInfo p m type keys salt psw).macDataBytes p (hmacKey p salt psw) =
      (readInfo p m type keys salt psw).macDataBytes p (hmacKey p salt psw) →
    (issuedInfo p m type keys salt psw).walletConcat = (readInfo p m type keys salt psw).walletConcat

section Reader

variable {p : Provider} (hp : p.Sound) {m : Platform} {type : String}
  (htype : PlainText type) {keys : KeyPair} {salt : List UInt8} (hsalt : ∃ b ∈ salt, b ≠ 0) {psw : String}
  {files : Files} {restoreFlag : Bool}
  (hfile : files (flaggedFile restoreFlag) = some (issuedFile p m type keys salt psw))

include htype hfile in
theorem transactionSigning_issued (other : String) :
    transactionSigning p files other (restoreFlagStr restoreFlag) =
      (readWallet p m type keys salt psw).signing p other := by
  simp only [transactionSigning, walletFile_restoreFlagStr, Option.bind_eq_bind, Option.bind_some, hfile,
    loadWallet_issued htype keys psw]

include hp htype hsalt hfile in
theorem signsWith_of_readable (h : Readable p m keys salt psw) :
    SignsWith p files restoreFlag (issuedInfo p m type keys salt psw) salt psw keys := by
  have hinfo : readInfo p m type keys salt psw = _ := readInfo_eq keys psw h.osName
  have hsigning : transactionSigning p files psw (restoreFlagStr restoreFlag) =
      some (.signedWith keys.privateKey) := by
    rw [transactionSigning_issued htype hfile]
    exact signing_readWallet hp keys hsalt psw (by rw [hinfo]) h.ciphered
  refine ⟨hsigning, fun data => ?_, ?_, fun data other hother => ?_⟩
  · rw [BlockchainTransactionSign, hsigning]
    rfl
  · simp only [GetBlockchainWalletAddr, hfile, Option.bind_some, load_issued htype keys psw,
      (address_issued htype keys psw).2]
  · have hfail : transactionSigning p files other (restoreFlagStr restoreFlag) = some .integrityFail := by
      rw [transactionSigning_issued htype hfile]
      refine signing_integrityFail keys hsalt psw fun he => hother ?_
      rw [hinfo] at he
      exact he.symm
    rw [BlockchainTransactionSign, hfail]
    exact ⟨rfl, rfl⟩

include htype hsalt hfile in
theorem readable_of_macTells (htells : MacTells p m type keys salt psw)
    (h : transactionSigning p files psw (restoreFlagStr restoreFlag) = some (.signedWith keys.privateKey)) :
    Readable p m keys salt psw := by
  rw [transactionSigning_issued htype hfile] at h
  have hname : Ascii m.osName.toList := by
    by_contra hwide
    have hfail : (readWallet p m type keys salt psw).signing p psw = some .integrityFail := by
      refine signing_integrityFail keys hsalt psw fun he => ?_
      exact walletConcat_readInfo_ne keys psw hwide (htells he).symm
    rw [hfail] at h
    cases h
  refine ⟨hname, ?_⟩
  by_contra hzeros
  have hinfo : readInfo p m type keys salt psw = _ := readInfo_eq keys psw hname
  rw [signing_zeros keys hsalt psw (by rw [hinfo]) hzeros] at h
  cases h

include htype hsalt hfile in
theorem readable_of_signing (hinj : ∀ key, Function.Injective fun data => p.HmacDigest data key)
    (h : transactionSigning p files psw (restoreFlagStr restoreFlag) = some (.signedWith keys.privateKey)) :
    Readable p m keys salt psw :=
  readable_of_macTells htype hsalt hfile (fun he => utf8_injective (hinj _ he)) h

end Reader

theorem plainText_walletType (i : Issuing) : PlainText i.walletType := by
  refine plainText_of_visible ?_
  unfold Issuing.walletType
  split <;> decide

/-- **Issue, then sign.**  The issued wallet signs with the issued key where the name of the system
and the ciphertext can be read back, and, the HMAC being free of collisions, nowhere else. -/
theorem issue_then_sign {p : Provider} (hp : p.Sound) {m : Platform}
    {files : Files} (i : Issuing) (hnew : files (flaggedFile i.restoreFlag) = none) {salt : List UInt8}
    (hsalt : ∃ b ∈ salt, b ≠ 0) (psw : String) :
    (Readable p m i.keys salt psw → ∃ files', i.run p m files salt psw = some files' ∧
      SignsWith p files' i.restoreFlag (issuedInfo p m i.walletType i.keys salt psw) salt psw i.keys) ∧
    ((∀ key, Function.Injective fun data => p.HmacDigest data key) →
      (∃ files', i.run p m files salt psw = some files' ∧
        SignsWith p files' i.restoreFlag (issuedInfo p m i.walletType i.keys salt psw) salt psw i.keys) →
      Readable p m i.keys salt psw) := by
  have hrun := run_issuing hp m hnew hsalt psw
  have hfile := Files.write_self files (flaggedFile i.restoreFlag)
    (issuedFile p m i.walletType i.keys salt psw)
  refine ⟨fun h => ⟨_, hrun, signsWith_of_readable hp (plainText_walletType i) hsalt hfile h⟩, ?_⟩
  rintro hinj ⟨files', hfiles, hsigns⟩
  rw [hrun, Option.some.injEq] at hfiles
  subst hfiles
  exact readable_of_signing (plainText_walletType i) hsalt hfile hinj hsigns.signing

theorem plainKey_ne : ([7] : List UInt8) ≠ [] := List.cons_ne_nil 7 []

/-- A key pair of the provider in the clear. -/
def plainKeys : KeyPair := ⟨[7], [7], plainKey_ne, plainKey_ne⟩

theorem readable_plain {m : Platform} (h : Ascii m.osName.toList) (keys : KeyPair) (salt : List UInt8)
    (psw : String) : Readable .plain m keys salt psw :=
  ⟨h, 1, List.mem_cons_self, by decide⟩

/-- A restored wallet on Linux. -/
theorem issue_then_sign_linux : ∃ files',
    (Issuing.restore plainKeys).run .plain linux (fun _ => none) [1] "654321" = some files' ∧
      SignsWith .plain files' true (issuedInfo .plain linux "R" plainKeys [1] "654321") [1] "654321" plainKeys :=
  (@issue_then_sign .plain Provider.plain_sound linux (fun _ => none) (.restore plainKeys) rfl [1] (by decide)
    "654321").1 (readable_plain (by decide) _ _ _)

/-- On a system with an umlaut in its name the issued wallet does not sign. -/
theorem issue_then_sign_umlaut : ¬ ∃ files',
    (Issuing.restore plainKeys).run .plain umlaut (fun _ => none) [1] "654321" = some files' ∧
      SignsWith .plain files' true (issuedInfo .plain umlaut "R" plainKeys [1] "654321") [1] "654321" plainKeys := by
  rintro ⟨files', hfiles, hsigns⟩
  have hrun := @run_issuing .plain Provider.plain_sound umlaut (fun _ => none) (.restore plainKeys) rfl [1]
    (by decide) "654321"
  rw [hrun, Option.some.injEq] at hfiles
  subst hfiles
  have hfile := Files.write_self (fun _ => none) (flaggedFile true) (issuedFile .plain umlaut "R" plainKeys [1] "654321")
  have hreadable := readable_of_signing (m := umlaut) (plainText_walletType (.restore plainKeys))
    (by decide) hfile Provider.plain_hmac_injective hsigns.signing
  exact absurd hreadable.osName (by decide)

end MoaCrypto.Wallet
