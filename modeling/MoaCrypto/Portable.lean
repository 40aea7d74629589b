import MoaCrypto.Android.Restore
import MoaCrypto.Browser.Keys
import MoaCrypto.Wallet.Reset

/-!
# Restore messages from one platform to the others

The Android wallet and the browser build the same message `hmac%E(prk)$E(puk)$salt` of a key pair, a password
and a salt (`message_of_built`).  The Android wallet restores it (`androidRestores`).  The Java wallet restores
it where its own file can be read back (`javaRestores_iff`), and the browser where neither ciphertext starts
with the marker of a salted one (`browserRestores_iff`).
-/

namespace MoaCrypto.Portable

open Java

/-- The primitives of the three platforms agree on equal inputs. -/
structure Agree (c : Browser.Library) (p : Wallet.Provider) (lib : Android.Library) : Prop where
  PBKDF2 : ∀ psw salt, c.PBKDF2 psw salt Browser.iterations = lib.kdfGen (utf8 psw) salt 4096 48
  PBKDF2KeyGen : ∀ psw salt, p.PBKDF2KeyGen psw salt 4096 (48 * 8) = lib.kdfGen (utf8 psw) salt 4096 48
  encryptAES : ∀ data iv key, iv.length = 16 → key.length = 32 →
    c.encryptAES data key iv = lib.aesCtr iv key .ENCRYPT data
  SymmetricEncryptData : ∀ data iv key, iv.length = 16 → key.length = 32 →
    p.SymmetricEncryptData iv key data = lib.aesCtr iv key .ENCRYPT data
  HmacSHA256 : c.HmacSHA256 = lib.hmacSha256
  HmacDigest : p.HmacDigest = lib.hmacSha256
  toBase64String : p.toBase64String = Base64.encode
  encode64 : lib.encode64 = Base64.encode

/-- A key pair, a password and a salt, and the devices that a message goes to: an Android device with a
receiver, where `check` is the call that signs, a directory and a local storage without a restore wallet. -/
structure Setting where
  c : Browser.Library
  p : Wallet.Provider
  lib : Android.Library
  browserSound : c.Sound
  javaSound : p.Sound
  androidSound : lib.Sound
  agree : Agree c p lib
  keys : Android.KeyPair
  psw : String
  psw_ne : psw ≠ ""
  salt : List UInt8
  nonzero : ∃ b ∈ salt, b ≠ 0
  o : Android.Outcomes
  check : Android.Outcomes
  works : o.Works lib
  checkWorks : check.Works lib
  sameKey : Android.SameKey o check
  d : Android.Device
  initialised : Android.Initialised d.prefs
  receiver : d.receiver = true
  m : Wallet.Platform
  iterationCount : m.iterationCount = 4096
  files : Wallet.Files
  newFile : files .restoreWalletFileName = none
  drawn : Browser.Drawn
  s : Browser.LocalStorage
  newItem : s "R.Version.Info" = none

namespace Setting

variable (w : Setting)

def browserKeys : Browser.KeyPair := ⟨w.keys.privateKey, w.keys.publicKey⟩

def javaKeys : Wallet.KeyPair :=
  ⟨w.keys.privateKey, w.keys.publicKey, w.keys.privateKey_ne, w.keys.publicKey_ne⟩

def derivedKey : List UInt8 := w.lib.kdfGen (utf8 w.psw) w.salt 4096 48

/-- `E(..)`. -/
def cipher (bytes : List UInt8) : List UInt8 :=
  w.lib.aesCtr (w.derivedKey.drop 32) (w.derivedKey.take 32) .ENCRYPT bytes

def message : String :=
  Android.restoreMessage w.lib w.psw w.salt (w.cipher w.keys.privateKey) (w.cipher w.keys.publicKey)

end Setting

/-- The messages that the two encoders build under the password, the first on any Android device with the salt. -/
inductive Built (w : Setting) : String → Prop
  | android (made : Android.Outcomes) (device : Android.Device) {msg : String} (works : made.Works w.lib)
      (initialised : Android.Initialised device.prefs) (password : device.password = w.psw)
      (salt : device.salt w.lib made = some w.salt)
      (generated : (Android.generateRestoreDataFormat w.lib made w.keys.privateKey w.keys.publicKey device).1 =
        some msg) : Built w msg
  | browser : Built w (Browser.generateRestoreDataFormat w.c w.browserKeys w.salt w.psw)

/-! ## The decoders -/

/-- The check passes, and the wallet is then that of the key pair. -/
structure AndroidRestores (w : Setting) (msg : String) : Prop where
  verified : Android.verifyHmacPsw w.lib w.d.prefs w.psw msg = some true
  restored : ∃ d', Android.restoreWallet w.lib w.o w.psw msg w.d = (some (), d') ∧
    (∀ transaction, (Android.generateSignedTransaction w.lib w.check transaction w.psw d').1 =
      some (some (.doSign "secp256r1" "SHA256withECDSA" transaction (encodeHexString w.keys.privateKey)))) ∧
    (Android.getPublicKey w.lib d').1 = some (encodeHexString w.keys.publicKey)

/-- The caller hands over the two tokens of the message. -/
def JavaRestores (w : Setting) (msg : String) : Prop :=
  ∃ hmac data files', tokens '%' msg = [hmac, data] ∧
    Wallet.RestoreBlockchainWallet w.p w.m w.files w.psw (some hmac) (some data) = some (files', "0x509E") ∧
    Wallet.transactionSigning w.p files' w.psw "RESTORE" = some (.signedWith w.keys.privateKey) ∧
    (∀ transaction, Wallet.BlockchainTransactionSign w.p files' transaction w.psw "RESTORE" =
      some (w.p.blockchainECDSASign (utf8 transaction) w.keys.privateKey)) ∧
    Wallet.GetBlockchainPulicKey files' true = some (Wallet.MoaBase58.encode w.keys.publicKey)

/-- The storage after `createRestoreWallet` of the second part. -/
def restoredStorage (w : Setting) (msg : String) : Browser.LocalStorage :=
  Browser.createRestoreWallet w.c w.drawn w.psw (Browser.splitText '%' msg)[1]? w.s

structure BrowserRestores (w : Setting) (msg : String) : Prop where
  signs : ∀ transaction, Browser.generateTransactionSign w.c (restoredStorage w msg) transaction w.psw =
    some (.doSign Browser.ECC_CURVE Browser.SIGNATURE_ALG transaction w.browserKeys.ecprvhex)
  publicKey : Browser.getPublicKey (restoredStorage w msg) = some w.browserKeys.ecpubhex

/-- Every message is restored by all three. -/
def RestoredEverywhere (w : Setting) : Prop :=
  ∀ msg, Built w msg → AndroidRestores w msg ∧ JavaRestores w msg ∧ BrowserRestores w msg

/-- Neither ciphertext looks as if it carried a salt, and the Java wallet can read its file. -/
structure Survives (w : Setting) : Prop where
  privateKey : (w.cipher w.keys.privateKey).take 8 ≠ Browser.marker
  publicKey : (w.cipher w.keys.publicKey).take 8 ≠ Browser.marker
  readable : Wallet.Readable w.p w.m w.javaKeys w.salt w.psw

/-! ## One message -/

section Message

variable (w : Setting)

theorem length_derivedKey : w.derivedKey.length = 48 := w.androidSound.length_kdfGen _ _ _ _

theorem length_key : (w.derivedKey.take 32).length = 32 := by
  rw [List.length_take, length_derivedKey]
  rfl

theorem length_iv : (w.derivedKey.drop 32).length = 16 := by
  rw [List.length_drop, length_derivedKey]

theorem salt_ne : w.salt ≠ [] := Wallet.ne_nil_of_nonzero w.nonzero

theorem utf8_psw_ne : utf8 w.psw ≠ [] := fun he => w.psw_ne (utf8_injective he)

theorem cipher_ne {bytes : List UInt8} (h : bytes ≠ []) : w.cipher bytes ≠ [] := by
  intro he
  have hlength := w.androidSound.length_aesCtr _ _ .ENCRYPT bytes (length_iv w) (length_key w)
  rw [Setting.cipher] at he
  rw [he] at hlength
  exact h (List.length_eq_zero_iff.mp hlength.symm)

theorem symmetricData_eq {o : Android.Outcomes} (ho : o.Works w.lib) (bytes : List UInt8) :
    Android.symmetricData w.lib o .ENCRYPT w.psw w.salt bytes = w.cipher bytes := by
  rw [Android.symmetricData, ho.ctr]
  rfl

theorem firstCipher_eq (bytes : List UInt8) : Browser.firstCipher w.c w.psw w.salt bytes = w.cipher bytes := by
  have hiv : (w.derivedKey.drop 32).take 16 = w.derivedKey.drop 32 :=
    List.take_of_length_le (length_iv w).le
  unfold Browser.firstCipher
  rw [Browser.keyAndIv_eq w.browserSound, w.agree.PBKDF2]
  show w.c.encryptAES bytes (w.derivedKey.take 32) ((w.derivedKey.drop 32).take 16) = _
  rw [hiv, w.agree.encryptAES bytes _ _ (length_iv w) (length_key w)]
  rfl

theorem firstEncrypt_eq (bytes : List UInt8) :
    w.p.firstEncrypt bytes w.psw w.salt w.m.iterationCount = w.cipher bytes := by
  rw [w.iterationCount]
  show w.p.SymmetricEncryptData ((w.p.PBKDF2KeyGen w.psw w.salt 4096 (48 * 8)).drop 32)
    ((w.p.PBKDF2KeyGen w.psw w.salt 4096 (48 * 8)).take 32) bytes = _
  rw [w.agree.PBKDF2KeyGen]
  exact w.agree.SymmetricEncryptData bytes _ _ (length_iv w) (length_key w)

/-- The message of the browser. -/
theorem generateRestoreDataFormat_browser :
    Browser.generateRestoreDataFormat w.c w.browserKeys w.salt w.psw = w.message := by
  rw [Browser.generateRestoreDataFormat_eq w.browserSound, Browser.restoreHmac, Browser.restoreData,
    firstCipher_eq, firstCipher_eq, Setting.message, Android.restoreMessage, w.agree.HmacSHA256, w.agree.encode64]
  simp only [Setting.browserKeys, String.append_assoc]

/-- Both encoders build the one message. -/
theorem message_of_built {msg : String} (h : Built w msg) : msg = w.message := by
  cases h with
  | android made device works initialised password salt generated =>
    have hprk := symmetricData_eq w works w.keys.privateKey
    have hpuk := symmetricData_eq w works w.keys.publicKey
    rw [Android.generateRestoreDataFormat_apply w.androidSound initialised salt, password, hprk, hpuk,
      if_neg (not_or.mpr ⟨cipher_ne w w.keys.privateKey_ne, cipher_ne w w.keys.publicKey_ne⟩),
      if_neg (utf8_psw_ne w)] at generated
    exact (Option.some.inj generated).symm
  | browser => exact generateRestoreDataFormat_browser w

end Message

/-! ## Android -/

section Restores

variable (w : Setting)

theorem androidRestores : AndroidRestores w w.message := by
  have hverified := Android.verifyHmacPsw_restoreMessage w.androidSound w.initialised.macSettings (utf8_psw_ne w)
    (salt_ne w) (w.cipher w.keys.privateKey) (w.cipher w.keys.publicKey)
  refine ⟨hverified, ?_⟩
  have hprk := symmetricData_eq w w.works w.keys.privateKey
  have hpuk : Android.symmetricData w.lib w.o .DECRYPT w.psw w.salt (w.cipher w.keys.publicKey) =
      w.keys.publicKey := by
    rw [← symmetricData_eq w w.works]
    exact Android.symmetricData_decrypt w.androidSound w.works w.works _ _ _
  have hlength : w.keys.privateKey.length ≤ 245 := w.keys.length_privateKey.trans (by omega)
  have hrsa : Android.getRSAData w.o .ENCRYPT (w.cipher w.keys.privateKey) ≠ [] := by
    rw [← hprk]
    refine (w.sameKey.getRSAData ?_).1
    rw [Android.length_symmetricData w.androidSound w.works]
    exact hlength
  refine ⟨_, Android.restoreWallet_apply w.androidSound w.initialised w.receiver (utf8_psw_ne w) (salt_ne w)
    (cipher_ne w w.keys.privateKey_ne) (cipher_ne w w.keys.publicKey_ne) hrsa, ?_, ?_⟩
  · intro transaction
    rw [← hprk]
    exact Android.generateSignedTransaction_restored w.androidSound w.works w.initialised w.checkWorks w.sameKey
      (salt_ne w) w.keys.privateKey_ne hlength transaction
  · rw [hpuk]
    exact Android.getPublicKey_restored w.androidSound _ _ _ _

/-! ## Java -/

/-- The two tokens of the message are the ones that the Java wallet makes. -/
theorem tokens_message : tokens '%' w.message =
    [Wallet.restoreHmac w.p w.m w.javaKeys w.salt w.psw, Wallet.restoreData w.p w.m w.javaKeys w.salt w.psw] := by
  rw [Setting.message, Android.tokens_restoreMessage w.androidSound, Wallet.restoreHmac, Wallet.restoreData,
    firstEncrypt_eq, firstEncrypt_eq, w.agree.HmacDigest, w.agree.toBase64String, Android.restoreMsg,
    w.agree.encode64]
  rfl

theorem javaRestores_iff (htells : Wallet.MacTells w.p w.m "R" w.javaKeys w.salt w.psw) :
    JavaRestores w w.message ↔ Wallet.Readable w.p w.m w.javaKeys w.salt w.psw := by
  have hrestore := Wallet.restore_elsewhere w.javaSound (show w.m.iterationCount = w.m.iterationCount from rfl)
    w.newFile w.javaKeys w.nonzero w.psw
  have hfile := Wallet.Files.write_self w.files .restoreWalletFileName
    (Wallet.issuedFile w.p w.m "R" w.javaKeys w.salt w.psw)
  constructor
  · rintro ⟨hmac, data, files', htokens, hrestored, hsigning, -⟩
    rw [tokens_message] at htokens
    injection htokens with hhmac htokens
    injection htokens with hdata
    rw [← hhmac, ← hdata, hrestore, Option.some.injEq, Prod.mk.injEq] at hrestored
    rw [← hrestored.1] at hsigning
    exact @Wallet.readable_of_macTells w.p w.m "R" Wallet.plainText_R w.javaKeys w.salt w.nonzero w.psw _ true hfile
      htells hsigning
  · intro hreadable
    have hwallet := Wallet.walletOf_of_readable w.javaSound w.nonzero hfile hreadable
    exact ⟨_, _, _, tokens_message w, hrestore, hwallet.signsWith.signing,
      hwallet.signsWith.signs, hwallet.publicKey⟩

/-! ## The browser -/

theorem restoredStorage_message : restoredStorage w w.message =
    Browser.createWallet w.c.toCryptoJS "R" w.salt
      (Browser.getPBEData.encrypt w.c w.drawn (w.cipher w.keys.privateKey) w.psw)
      (encodeHexString (Browser.restoredPuk w.c w.browserKeys w.salt w.psw))
      (Browser.generateAddr w.c.toCryptoJS (Browser.restoredPuk w.c w.browserKeys w.salt w.psw)) w.psw w.s := by
  rw [restoredStorage, ← generateRestoreDataFormat_browser,
    Browser.splitText_generateRestoreDataFormat w.browserSound, ← firstCipher_eq]
  exact Browser.createRestoreWallet_restoreData w.browserSound w.browserKeys w.salt w.drawn w.psw w.s

/-- What the browser signs with. -/
theorem sign_message (transaction : String) :
    Browser.generateTransactionSign w.c (restoredStorage w w.message) transaction w.psw =
      some (.doSign Browser.ECC_CURVE Browser.SIGNATURE_ALG transaction
        (encodeHexString (Browser.getAESData.decrypt w.c
          (w.c.stringifyBase64 (w.cipher w.keys.privateKey)) w.psw w.salt))) := by
  rw [restoredStorage_message]
  have hsigns := @Browser.signs_createWallet w.c w.browserSound "R" (Or.inr rfl) w.s w.newItem w.salt w.drawn
    (w.cipher w.keys.privateKey) (encodeHexString (Browser.restoredPuk w.c w.browserKeys w.salt w.psw))
    (Browser.generateAddr w.c.toCryptoJS (Browser.restoredPuk w.c w.browserKeys w.salt w.psw)) w.psw
  exact (hsigns.signs [] hsigns.selected).2 transaction

theorem publicKey_message : Browser.getPublicKey (restoredStorage w w.message) =
    some (encodeHexString (Browser.restoredPuk w.c w.browserKeys w.salt w.psw)) := by
  rw [restoredStorage_message]
  exact Browser.getPublicKey_createWallet w.newItem _ _ _ _ _

theorem browserRestores_iff : BrowserRestores w w.message ↔
    (w.cipher w.keys.privateKey).take 8 ≠ Browser.marker ∧
      (w.cipher w.keys.publicKey).take 8 ≠ Browser.marker := by
  have hprk := @Browser.getAESData_decrypt_firstCipher w.c w.browserSound w.psw w.salt w.keys.privateKey
  have hpuk := @Browser.getAESData_decrypt_firstCipher w.c w.browserSound w.psw w.salt w.keys.publicKey
  rw [Browser.getAESData_decrypt w.browserSound] at hpuk
  rw [firstCipher_eq] at hprk
  constructor
  · rintro ⟨hsigns, hpublicKey⟩
    have hsigned := (sign_message w "").symm.trans (hsigns "")
    injection hsigned with hsigned
    injection hsigned with _ _ _ hkey
    rw [publicKey_message, Option.some.injEq] at hpublicKey
    refine ⟨hprk.mp (encodeHexString_injective hkey), ?_⟩
    rw [← firstCipher_eq]
    exact hpuk.mp (encodeHexString_injective hpublicKey)
  · rintro ⟨hprkMarker, hpukMarker⟩
    rw [← firstCipher_eq] at hpukMarker
    have hrestored : Browser.restoredPuk w.c w.browserKeys w.salt w.psw = w.keys.publicKey := hpuk.mpr hpukMarker
    refine ⟨fun transaction => ?_, ?_⟩
    · rw [sign_message, hprk.mpr hprkMarker]
      rfl
    · rw [publicKey_message, hrestored]
      rfl

end Restores

/-- **Restore messages are portable** exactly if neither ciphertext starts with the marker and the Java wallet
can read the file that it writes. -/
theorem portable_iff (w : Setting) (htells : Wallet.MacTells w.p w.m "R" w.javaKeys w.salt w.psw) :
    RestoredEverywhere w ↔ Survives w := by
  constructor
  · intro hrestored
    have hbuilt : Built w w.message := generateRestoreDataFormat_browser w ▸ Built.browser
    obtain ⟨-, hjava, hbrowser⟩ := hrestored _ hbuilt
    obtain ⟨hprk, hpuk⟩ := (browserRestores_iff w).mp hbrowser
    exact ⟨hprk, hpuk, (javaRestores_iff w htells).mp hjava⟩
  · rintro ⟨hprk, hpuk, hreadable⟩ msg hbuilt
    rw [message_of_built w hbuilt]
    exact ⟨androidRestores w, (javaRestores_iff w htells).mpr hreadable, (browserRestores_iff w).mpr ⟨hprk, hpuk⟩⟩

/-! ## Libraries that agree -/

def oneKdf (psw : String) (salt : List UInt8) (iterationCount : Int) : List UInt8 :=
  Android.plain.kdfGen (utf8 psw) salt iterationCount 48

def oneBrowser : Browser.Library :=
  { Browser.Library.plain with
    PBKDF2 := fun psw salt iterations => oneKdf psw salt iterations
    HmacSHA256 := Android.plain.hmacSha256 }

def oneProvider : Wallet.Provider :=
  { Wallet.Provider.plain with
    PBKDF2KeyGen := fun psw salt iterationCount _ => oneKdf psw salt iterationCount
    HmacDigest := Android.plain.hmacSha256 }

def oneAndroid : Android.Library := { Android.plain with aesCtr := fun _ _ _ data => data.reverse }

def oneOutcomes : Android.Outcomes :=
  { Android.plainOutcomes with
    getSymmetricData := fun alg iv key encOrDecMode data =>
      if alg = "AES/CTR/NoPadding" then data.reverse else Android.plain.aesCbc iv key encOrDecMode data }

theorem oneBrowser_sound : oneBrowser.Sound :=
  { Browser.Library.plain_sound with length_HmacSHA256 := Android.plain_sound.length_hmacSha256 }

theorem oneProvider_sound : oneProvider.Sound :=
  { Wallet.Provider.plain_sound with
    pbkdf2Encrypt := fun _ _ _ _ => rfl
    pbkdf2Decrypt := fun _ _ _ _ => rfl
    hmac_ne := fun data key => Android.hmacSha256_ne Android.plain_sound data key }

theorem oneAndroid_sound : oneAndroid.Sound :=
  { Android.plain_sound with
    aesCtr := fun _ _ data _ _ => data.reverse_reverse
    length_aesCtr := fun _ _ _ _ _ _ => List.length_reverse }

theorem oneAgree : Agree oneBrowser oneProvider oneAndroid where
  PBKDF2 _ _ := rfl
  PBKDF2KeyGen _ _ := rfl
  encryptAES _ _ _ _ _ := rfl
  SymmetricEncryptData _ _ _ _ _ := rfl
  HmacSHA256 := rfl
  HmacDigest := rfl
  toBase64String := rfl
  encode64 := rfl

theorem oneOutcomes_works : oneOutcomes.Works oneAndroid := ⟨rfl, rfl⟩

theorem sameKey_one : Android.SameKey oneOutcomes oneOutcomes := Android.sameKey_plain

def oneSalt : List UInt8 := List.replicate 32 1

theorem oneSalt_nonzero : ∃ b ∈ oneSalt, b ≠ 0 := ⟨1, by decide, by decide⟩

theorem onePsw_ne : "654321" ≠ "" := by decide

theorem receiver_one : Android.freshDevice.receiver = true := rfl

/-- A directory without files. -/
def noFiles : Wallet.Files := fun _ => none

theorem noFiles_new : noFiles .restoreWalletFileName = none := rfl

/-- A local storage without items. -/
def noItems : Browser.LocalStorage := fun _ => none

theorem noItems_new : noItems "R.Version.Info" = none := rfl

theorem iterationCount_ofName (osName : String) (h : Wallet.PlainName osName) :
    (Wallet.Platform.ofName osName h).iterationCount = 4096 := rfl

/-- New devices, the Java wallet on a system of the settings of the repository. -/
def oneSetting (keys : Android.KeyPair) (osName : String) (h : Wallet.PlainName osName) : Setting where
  c := oneBrowser
  p := oneProvider
  lib := oneAndroid
  browserSound := oneBrowser_sound
  javaSound := oneProvider_sound
  androidSound := oneAndroid_sound
  agree := oneAgree
  keys := keys
  psw := "654321"
  psw_ne := onePsw_ne
  salt := oneSalt
  nonzero := oneSalt_nonzero
  o := oneOutcomes
  check := oneOutcomes
  works := oneOutcomes_works
  checkWorks := oneOutcomes_works
  sameKey := sameKey_one
  d := Android.freshDevice
  initialised := Android.initialised_empty
  receiver := receiver_one
  m := .ofName osName h
  iterationCount := iterationCount_ofName osName h
  files := noFiles
  newFile := noFiles_new
  drawn := Browser.eightZeros
  s := noItems
  newItem := noItems_new

theorem plainName_linux : Wallet.PlainName "Linux" := by decide

theorem plainName_umlaut : Wallet.PlainName "Linux ü" := by decide

/-- On Linux. -/
theorem portable_linux : RestoredEverywhere (oneSetting Android.plainKeys "Linux" plainName_linux) := by
  have hascii : Properties.Ascii (oneSetting Android.plainKeys "Linux" plainName_linux).m.osName.toList := by decide
  refine (portable_iff _ fun _ => ?_).mpr ⟨by decide, by decide, hascii, 1, List.mem_cons_self, by decide⟩
  rw [Wallet.readInfo_eq _ _ hascii]

theorem markedPrivateKey_ne : List.replicate 24 (0 : UInt8) ++ Browser.marker.reverse ≠ [] := by decide

theorem length_markedPrivateKey : (List.replicate 24 (0 : UInt8) ++ Browser.marker.reverse).length ≤ 32 := by decide

theorem markedPublicKey_ne : (4 : UInt8) :: List.replicate 64 6 ≠ [] := by decide

/-- A key pair whose encrypted private key starts with the marker. -/
def markedKeys : Android.KeyPair where
  privateKey := List.replicate 24 0 ++ Browser.marker.reverse
  publicKey := 4 :: List.replicate 64 6
  privateKey_ne := markedPrivateKey_ne
  length_privateKey := length_markedPrivateKey
  publicKey_ne := markedPublicKey_ne

/-- Under a name with an umlaut the Java wallet does not restore a message, and the browser does not restore one of
the marked keys. -/
theorem not_restored_umlaut_marked :
    ¬ RestoredEverywhere (oneSetting Android.plainKeys "Linux ü" plainName_umlaut) ∧
      ¬ RestoredEverywhere (oneSetting markedKeys "Linux" plainName_linux) := by
  have hbuilt : ∀ w : Setting, Built w w.message := fun w => generateRestoreDataFormat_browser w ▸ Built.browser
  refine ⟨fun hrestored => ?_, fun hrestored => ?_⟩
  · obtain ⟨-, hjava, -⟩ := hrestored _ (hbuilt _)
    have hreadable := (javaRestores_iff _ fun he => absurd he (by decide +kernel)).mp hjava
    exact absurd hreadable.osName (by decide)
  · obtain ⟨-, -, hbrowser⟩ := hrestored _ (hbuilt _)
    exact absurd rfl ((browserRestores_iff _).mp hbrowser).1

end MoaCrypto.Portable
