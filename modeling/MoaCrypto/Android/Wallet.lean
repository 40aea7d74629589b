import MoaCrypto.Android.Device

/-!
# The Android wallet (`Wallet.java`, `MoaWalletHelper.java`)

Every function reads and writes the preferences that the mode selects at that moment.  An exception
leaves what was written before it.  The calls of the receiver are left out; what they are called with is
returned where a result depends on it.
-/

namespace MoaCrypto.Android

open Java

section Functions

variable (lib : Library) (o : Outcomes)

def getValuesInPreferences (key : PrefKey) : Act Device String := Act.gets fun d => d.prefs key

def setValuesInPreferences (key : PrefKey) (value : String) : Act Device Unit :=
  Act.modify fun d => d.setPrefs (d.prefs.putString key value)

def setPswInitMode (isPswInitMode : Bool) : Act Device Unit :=
  Act.modify fun d => { d with isPswInitMode := isPswInitMode }

/-- The assignment of the field. -/
def setPassword (password : String) : Act Device Unit := Act.modify fun d => { d with password := password }

def initProperties : Act Device Unit := do
  let version ← getValuesInPreferences .VersionInfo
  if version ≠ "" then pure ()
  else do
    setValuesInPreferences .VersionInfo "1"
    setValuesInPreferences .SymmetricAlg "AES/CTR/NoPadding"
    setValuesInPreferences .SymmetricKeySize "256"
    setValuesInPreferences .HashAlg "SHA256"
    setValuesInPreferences .SignatureAlg "SHA256withECDSA"
    setValuesInPreferences .ECCAlg "EC"
    setValuesInPreferences .ECCCurve "secp256r1"
    setValuesInPreferences .MACAlg "HmacSHA256"
    setValuesInPreferences .IterationCount "4096"

/-! ## Keys and ciphers -/

def getSalt : Act Device (List UInt8) := do
  let base58Salt ← getValuesInPreferences .SaltValue
  if base58Salt = "" then do
    let d ← Act.get
    let salt := o.nextBytes d.isPswInitMode
    setValuesInPreferences .SaltValue (lib.encode58 salt)
    pure salt
  else Act.orThrow (lib.decode58 base58Salt)

def generateDerivedKey (psw : String) : Act Device (List UInt8) := do
  let salt ← getSalt lib o
  let count ← getValuesInPreferences .IterationCount
  let iterationCount ← Act.orThrow (Integer.valueOf count)
  pure (lib.kdfGen (utf8 psw) salt iterationCount 48)

/-- `keySize / 8`; a negative one is an exception where the key is cut out. -/
def keyBytes (keySize : String) : Option Nat :=
  (Integer.valueOf keySize).bind fun n => if n.tdiv 8 < 0 then none else some (n.tdiv 8).toNat

def getPBKDF2Data (encOrDecMode : CipherMode) (psw : String) (data : List UInt8) :
    Act Device (List UInt8) := do
  let derivedKey ← generateDerivedKey lib o psw
  if derivedKey.length ≠ 48 then pure []
  else do
    let q ← Act.gets Device.prefs
    let keySize ← Act.orThrow (keyBytes (q .SymmetricKeySize))
    let iv ← Act.orThrow (copyOfRange derivedKey keySize derivedKey.length)
    pure (o.getSymmetricData (q .SymmetricAlg) iv (copyOf derivedKey keySize) encOrDecMode data)

/-- A missing key or a failure of the cipher is an empty array. -/
def getRSAData (encOrDecMode : CipherMode) (data : List UInt8) : List UInt8 :=
  match o.doFinal encOrDecMode data with
  | some bytes => bytes
  | none => []

def generateAddress (publicKey : List UInt8) : Act Device (List UInt8) := do
  let hashAlg ← getValuesInPreferences .HashAlg
  let hashPuk := hashDigest lib hashAlg publicKey
  Act.orThrow (copyOfRange hashPuk 12 hashPuk.length)

/-! ## The MAC and the fields of a wallet -/

/-- Of the preferences that are selected. -/
def generateMACData (q : Prefs) (base58Salt psw targetMacData : String) : Option String := do
  let salt ← lib.decode58 base58Salt
  let hmacKey := hashDigest lib (q .HashAlg) (salt ++ utf8 psw)
  let macDataBytes ← hmacDigest lib (q .MACAlg) (utf8 targetMacData) hmacKey
  some (lib.encode58 macDataBytes)

def setWalletPref (cipheredPrk puk address : String) : Act Device Unit := do
  setValuesInPreferences .CipheredData cipheredPrk
  setValuesInPreferences .WalletPublicKey puk
  setValuesInPreferences .WalletAddr address
  setValuesInPreferences .OSInfo lib.osName
  let d ← Act.get
  let targetMacData := d.prefs .VersionInfo ++ lib.osName ++ d.prefs .SaltValue ++ d.prefs .IterationCount ++
    cipheredPrk ++ puk ++ address
  let macDataBase58 ← Act.orThrow (generateMACData lib d.prefs (d.prefs .SaltValue) d.password targetMacData)
  setValuesInPreferences .MACData macDataBase58

/-- The text under the MAC when it is checked. -/
def mergedWalletData (q : Prefs) : String :=
  q .VersionInfo ++ q .OSInfo ++ q .SaltValue ++ q .IterationCount ++ q .CipheredData ++
    q .WalletPublicKey ++ q .WalletAddr

/-- Of the preferences that are selected. -/
def checkMACData (q : Prefs) (psw : String) : Option Bool :=
  if q .WalletAddr = "" then some false
  else (generateMACData lib q (q .SaltValue) psw (mergedWalletData q)).map fun newMacDataBase58 =>
    q .MACData = newMacDataBase58

def getDecryptedPrivateKey (psw : String) : Act Device (List UInt8) := do
  let lastEncryptedPrk ← getValuesInPreferences .CipheredData
  if lastEncryptedPrk = "" then pure []
  else do
    let bytes ← Act.orThrow (lib.decode58 lastEncryptedPrk)
    getPBKDF2Data lib o .DECRYPT psw (getRSAData o .DECRYPT bytes)

/-! ## Saving a wallet -/

/-- `save(prk, puk)`. -/
def save (prk puk : List UInt8) : Act Device Unit := do
  let walletAddress ← generateAddress lib puk
  if walletAddress = [] then pure ()
  else do
    let d ← Act.get
    let firstEncryptedPrk ← getPBKDF2Data lib o .ENCRYPT d.password prk
    if firstEncryptedPrk = [] then pure ()
    else
      let lastEncryptedPrk := getRSAData o .ENCRYPT firstEncryptedPrk
      if lastEncryptedPrk = [] then pure ()
      else setWalletPref lib (lib.encode58 lastEncryptedPrk) (lib.encode58 puk) (lib.encode58 walletAddress)

/-- The message is empty if a cipher fails. -/
def generateRestoreDataFormat (prk puk : List UInt8) : Act Device String := do
  let d ← Act.get
  let encryptedPrk ← getPBKDF2Data lib o .ENCRYPT d.password prk
  if encryptedPrk = [] then pure ""
  else do
    let encryptedPuk ← getPBKDF2Data lib o .ENCRYPT d.password puk
    if encryptedPuk = [] then pure ""
    else do
      let macAlg ← getValuesInPreferences .MACAlg
      let hmacEncryptedPuk ← Act.orThrow (hmacDigest lib macAlg encryptedPuk (utf8 d.password))
      let salt ← getSalt lib o
      pure (lib.encode64 hmacEncryptedPuk ++ "%" ++ lib.encode64 encryptedPrk ++ "$" ++
        lib.encode64 encryptedPuk ++ "$" ++ lib.encode64 salt)

/-- The first three parts of a message between the delimiters, decoded. -/
def restoreParts (msg : String) : Option (List UInt8 × List UInt8 × List UInt8) :=
  match tokens '$' msg with
  | prk :: puk :: salt :: _ => do
    let encPrk ← lib.decode64 prk
    let encPuk ← lib.decode64 puk
    let saltBytes ← lib.decode64 salt
    some (encPrk, encPuk, saltBytes)
  | _ => none

/-- What `save(password, msg)` does with the parts of the message. -/
def saveParts (password : String) (encPrk encPuk salt : List UInt8) : Act Device Unit := do
  setValuesInPreferences .SaltValue (lib.encode58 salt)
  setPassword password
  let puk ← getPBKDF2Data lib o .DECRYPT password encPuk
  let walletAddress ← generateAddress lib puk
  if walletAddress = [] then setPassword ""
  else
    let lastEncryptedPrk := getRSAData o .ENCRYPT encPrk
    if lastEncryptedPrk = [] then setPassword ""
    else do
      setWalletPref lib (lib.encode58 lastEncryptedPrk) (lib.encode58 puk) (lib.encode58 walletAddress)
      setPassword ""

/-- `save(password, msg)`. -/
def saveMsg (password msg : String) : Act Device Unit := do
  let d ← Act.get
  if d.receiver = false then pure ()
  else if msg = "" then pure ()
  else do
    let (encPrk, encPuk, salt) ← Act.orThrow (restoreParts lib msg)
    saveParts lib o password encPrk encPuk salt

/-- `saveParts`, with the call of `onLibRestoreCompleted` or without it. -/
def savePartsReporting (password : String) (encPrk encPuk salt : List UInt8) : Act Device Bool := do
  setValuesInPreferences .SaltValue (lib.encode58 salt)
  setPassword password
  let puk ← getPBKDF2Data lib o .DECRYPT password encPuk
  let walletAddress ← generateAddress lib puk
  if walletAddress = [] then do
    setPassword ""
    pure false
  else
    let lastEncryptedPrk := getRSAData o .ENCRYPT encPrk
    if lastEncryptedPrk = [] then do
      setPassword ""
      pure false
    else do
      setWalletPref lib (lib.encode58 lastEncryptedPrk) (lib.encode58 puk) (lib.encode58 walletAddress)
      setPassword ""
      pure true

/-- `saveMsg`, with the call of `onLibRestoreCompleted` or without it. -/
def saveMsgReporting (password msg : String) : Act Device Bool := do
  let d ← Act.get
  if d.receiver = false then pure false
  else if msg = "" then pure false
  else do
    let (encPrk, encPuk, salt) ← Act.orThrow (restoreParts lib msg)
    savePartsReporting lib o password encPrk encPuk salt

/-- Of the preferences that are selected. -/
def verifyHmacPsw (q : Prefs) (password msg : String) : Option Bool :=
  if msg = "" then some false
  else
    match tokens '%' msg with
    | hmac :: data :: _ => do
      let hmacEncryptedPuk ← lib.decode64 hmac
      let puk ← (split '$' data)[1]?
      let encPuk ← lib.decode64 puk
      let newHmacEncryptedPuk ← hmacDigest lib (q .MACAlg) encPuk (utf8 password)
      some (hmacEncryptedPuk = newHmacEncryptedPuk)
    | _ => none

def restoreWallet (password msg : String) : Act Device Unit := do
  let q ← Act.gets Device.prefs
  let verified ← Act.orThrow (verifyHmacPsw lib q password msg)
  if verified then do
    let restoreMsg ← Act.orThrow (split '%' msg)[1]?
    saveMsg lib o password restoreMsg
  else pure ()

/-! ## The scripts of the web view and their callbacks -/

/-- What is posted to the web view. -/
inductive Script
  | doGenerate (curve : String)
  | doSign (curve signAlg msg prvkey : String)
  deriving DecidableEq

/-- The call is posted before the field is written. -/
def create (password : String) : Act Device Script := do
  let curve ← getValuesInPreferences .ECCCurve
  setPassword password
  pure (.doGenerate curve)

/-- The message for the receiver. -/
def onSuccessKeyPair (prk puk : Option String) : Act Device (Option String) := do
  let d ← Act.get
  if d.receiver = false then pure none
  else
    match prk, puk with
    | some prk, some puk => do
      let prkBytes ← Act.orThrow (hexStringToByteArray prk)
      let pukBytes ← Act.orThrow (hexStringToByteArray puk)
      save lib o prkBytes pukBytes
      let msg ← generateRestoreDataFormat lib o prkBytes pukBytes
      setPassword ""
      pure (some msg)
    | _, _ => pure none

/-- The signature for the receiver. -/
def onSuccessSign (sign : String) : Act Device (Option String) := do
  setPassword ""
  let d ← Act.get
  pure (if d.receiver then some sign else none)

/-- The script, if the checks pass. -/
def generateSignedTransaction (transaction password : String) : Act Device (Option Script) := do
  let q ← Act.gets Device.prefs
  let passes ← Act.orThrow (checkMACData lib q password)
  if passes = false then do
    let _ ← onSuccessSign ""
    pure none
  else do
    let privateKeyBytes ← getDecryptedPrivateKey lib o password
    if privateKeyBytes = [] then do
      let _ ← onSuccessSign ""
      pure none
    else do
      let q ← Act.gets Device.prefs
      pure (some (.doSign (q .ECCCurve) (q .SignatureAlg) transaction (byteArrayToHexString privateKeyBytes)))

/-- In hexadecimal. -/
def getPublicKey : Act Device String := do
  let base58Puk ← getValuesInPreferences .WalletPublicKey
  let puk ← Act.orThrow (lib.decode58 base58Puk)
  pure (byteArrayToHexString puk)

/-! ## The password reset -/

/-- The hmac password of a user, of fourteen bytes. -/
def getHmacPsw (q : Prefs) (psw : String) : Option (List UInt8) := do
  let hashPsw := hashDigest lib (q .HashAlg) (utf8 psw)
  let hmacPsw ← hmacDigest lib (q .MACAlg) (utf8 psw) hashPsw
  let first ← hashPsw.head?
  if (signedByte first).tmod 2 = 0 then copyOfRange hmacPsw 14 28 else some (copyOf hmacPsw 14)

/-- The iv and the key that hide the hmac password. -/
def hmacPswKey (id dateOfBirth : String) : Option (List UInt8 × List UInt8) :=
  let dk := lib.kdfGen (utf8 dateOfBirth) (utf8 id) 10 48
  (copyOfRange dk 32 dk.length).map fun iv => (iv, copyOf dk 32)

/-- The halves of an array, combined bit by bit. -/
def xorHalves (bytes : List UInt8) : List UInt8 :=
  List.zipWith (· ^^^ ·) (bytes.take (bytes.length / 2)) (bytes.drop (bytes.length / 2))

/-- In Base64; `random` is the byte before the password. -/
def getEncryptedHmacPsw (q : Prefs) (random : UInt8) (id psw dateOfBirth : String) : Option String := do
  let hmacPsw ← hexStringToByteArray psw
  let (iv, key) ← hmacPswKey lib id dateOfBirth
  let encryptedHmacPsw := o.getSymmetricData "AES/CBC/PKCS7Padding" iv key .ENCRYPT (random :: hmacPsw)
  let hmacEncryptedHmacPsw ← hmacDigest lib (q .MACAlg) encryptedHmacPsw (utf8 dateOfBirth)
  some (lib.encode64 (encryptedHmacPsw ++ xorHalves hmacEncryptedHmacPsw))

def getDecryptedHmacPsw (id dateOfBirth encryptedHmacPsw : String) : Option (List UInt8) := do
  let (iv, key) ← hmacPswKey lib id dateOfBirth
  let decodedEncryptedHmacPsw ← lib.decode64 encryptedHmacPsw
  let firstEncryptHmacPsw := decodedEncryptedHmacPsw.take (decodedEncryptedHmacPsw.length / 2)
  copyOfRange (o.getSymmetricData "AES/CBC/PKCS7Padding" iv key .DECRYPT firstEncryptHmacPsw) 1 15

def verifyDateOfBirth (q : Prefs) (dateOfBirth encryptedHmacPsw : String) : Option Bool := do
  let decodedEncryptedHmacPsw ← lib.decode64 encryptedHmacPsw
  let firstEncryptHmacPsw := decodedEncryptedHmacPsw.take (decodedEncryptedHmacPsw.length / 2)
  let secondEncryptHmacPsw := decodedEncryptedHmacPsw.drop (decodedEncryptedHmacPsw.length / 2)
  let newHmac ← hmacDigest lib (q .MACAlg) firstEncryptHmacPsw (utf8 dateOfBirth)
  let newSecondEncryptHmacPsw ← xorSixteen newHmac
  some (secondEncryptHmacPsw = newSecondEncryptHmacPsw)

/-- The entries of the map that a reset is called with. -/
structure WalletData where
  id : String
  dateOfBirth : String
  encryptedHmacPsw : String
  restoreMsg : String
  hmacPsw : String

/-- The data is decrypted with the main wallet selected, and encrypted with the temporary one. -/
def generateBackUpRestoreDataFormat (walletData : WalletData) : Act Device String := do
  setPswInitMode true
  initProperties
  setPswInitMode false
  let hmacPsw ← Act.orThrow (getDecryptedHmacPsw lib o walletData.id walletData.dateOfBirth
    walletData.encryptedHmacPsw)
  let st := tokens '$' walletData.restoreMsg
  let encPrk ← Act.orThrow (st[0]?.bind lib.decode64)
  let prk ← getPBKDF2Data lib o .DECRYPT (byteArrayToHexString hmacPsw) encPrk
  let encPuk ← Act.orThrow (st[1]?.bind lib.decode64)
  let puk ← getPBKDF2Data lib o .DECRYPT (byteArrayToHexString hmacPsw) encPuk
  let salt ← Act.orThrow (st[2]?.bind lib.decode64)
  setPswInitMode true
  setValuesInPreferences .SaltValue (lib.encode58 salt)
  setPassword walletData.hmacPsw
  save lib o prk puk
  let backupDataFormat ← generateRestoreDataFormat lib o prk puk
  setPassword ""
  setPswInitMode false
  pure backupDataFormat

end Functions

def removeTempWallet : Act Device Unit := do
  Act.modify fun d => { d with tempWallet := .empty }
  setPswInitMode false

def updateWallet : Act Device Unit := do
  setPswInitMode true
  let cipheredData ← getValuesInPreferences .CipheredData
  let puk ← getValuesInPreferences .WalletPublicKey
  let addr ← getValuesInPreferences .WalletAddr
  let mac ← getValuesInPreferences .MACData
  let salt ← getValuesInPreferences .SaltValue
  setPswInitMode false
  setValuesInPreferences .CipheredData cipheredData
  setValuesInPreferences .WalletPublicKey puk
  setValuesInPreferences .WalletAddr addr
  setValuesInPreferences .MACData mac
  setValuesInPreferences .SaltValue salt
  removeTempWallet

/-- A key that is removed is read as the empty text. -/
def removeWallet : Act Device Unit := do
  setValuesInPreferences .CipheredData ""
  setValuesInPreferences .WalletPublicKey ""
  setValuesInPreferences .WalletAddr ""
  setValuesInPreferences .MACData ""

end MoaCrypto.Android
