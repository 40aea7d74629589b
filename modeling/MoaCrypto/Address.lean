import MoaCrypto.Android.Reset
import MoaCrypto.Browser.Keys
import MoaCrypto.Java.Sha256
import MoaCrypto.Wallet.Provider

/-!
# The address of a public key in the four wallets

An address is the end of the SHA-256 digest of a public key.  The Java wallet, the Android wallet and
`createRestoreWallet` of the browser hash the bytes of the key, `createNonRestoreWallet` hashes the text of
its hexadecimal digits (`one_address_iff`).
-/

namespace MoaCrypto.Address

open Java

/-- The libraries of the four wallets have the one SHA-256. -/
structure OneDigest (c : Browser.Library) (p : Wallet.Provider) (lib : Android.Library) : Prop where
  browser : c.SHA256 = Sha256.digest
  java : p.HashDigest = Sha256.digest
  android : lib.sha256 = Sha256.digest

/-- The last twenty bytes of the digest. -/
def addressBytes (bytes : List UInt8) : List UInt8 := (Sha256.digest bytes).drop 12

/-- The address that the browser has stored, as bytes. -/
def storedAddress (c : Browser.Library) (type : String) (s : Browser.LocalStorage) : Option (List UInt8) :=
  (Browser.readWallet s type).map fun (w, _) => c.parseHex w.walletAddr

/-- Data of a restore message under a password, with this public key. -/
structure RestoreDataOf (c : Browser.Library) (password data : String) (puk : List UInt8) : Prop where
  parts : ∃ encPrk encPuk encSalt rest, Browser.splitText '$' data = encPrk :: encPuk :: encSalt :: rest ∧
    Browser.getAESData.decrypt c encPuk password (c.parseBase64 encSalt) = puk

/-- What the wallets are made of, on devices that have none. -/
structure Setting where
  c : Browser.Library
  p : Wallet.Provider
  lib : Android.Library
  sound : c.Sound
  libSound : lib.Sound
  digest : OneDigest c p lib
  prv : List UInt8
  salt : List UInt8
  drawn : Browser.Drawn
  password : String
  s : Browser.LocalStorage
  new : s "Version.Info" = none
  newRestore : s "R.Version.Info" = none
  d : Android.Device
  initialised : Android.Initialised d.prefs

/-- One address in all four wallets. -/
def OneAddress (w : Setting) (puk : List UInt8) : Prop :=
  ∃ address,
    storedAddress w.c "" (Browser.createNonRestoreWallet w.c ⟨w.prv, puk⟩ w.salt w.drawn w.password w.s) =
      some address ∧
    (∀ data, RestoreDataOf w.c w.password data puk →
      storedAddress w.c "R" (Browser.createRestoreWallet w.c w.drawn w.password (some data) w.s) = some address) ∧
    Wallet.EthereumWalletAddrGen w.p puk = address ∧
    (Android.generateAddress w.lib puk w.d).1 = some address

section Wallets

variable (w : Setting) (puk : List UInt8)

theorem length_addressBytes (bytes : List UInt8) : (addressBytes bytes).length = 20 := by
  rw [addressBytes, List.length_drop, Sha256.length_digest]

theorem generateAddr_digest (bytes : List UInt8) :
    Browser.generateAddr w.c.toCryptoJS bytes = addressBytes bytes := by
  have hlength : ((Sha256.digest bytes).drop 12).length ≤ 32 := by
    rw [List.length_drop, Sha256.length_digest]
    omega
  rw [Browser.generateAddr_eq w.sound, w.digest.browser, List.take_of_length_le hlength, addressBytes]

theorem storedAddress_createWallet {type : String} {s : Browser.LocalStorage}
    (hnew : s (Browser.getWalletProperties type).version = none) (salt : List UInt8) (target puk : String)
    (address : List UInt8) (password : String) :
    storedAddress w.c type (Browser.createWallet w.c.toCryptoJS type salt target puk address password s) =
      some address := by
  unfold storedAddress Browser.createWallet
  rw [Browser.readWallet_saveData hnew, Option.map_some]
  exact congrArg some (w.sound.parseHex address)

/-- The text is hashed. -/
theorem nonRestore_address :
    storedAddress w.c "" (Browser.createNonRestoreWallet w.c ⟨w.prv, puk⟩ w.salt w.drawn w.password w.s) =
      some (addressBytes (utf8 (encodeHexString puk))) := by
  unfold Browser.createNonRestoreWallet
  rw [storedAddress_createWallet w w.new, generateAddr_digest]
  rfl

theorem restore_address {data : String} (hdata : RestoreDataOf w.c w.password data puk) :
    storedAddress w.c "R" (Browser.createRestoreWallet w.c w.drawn w.password (some data) w.s) =
      some (addressBytes puk) := by
  obtain ⟨encPrk, encPuk, encSalt, rest, hparts, hpuk⟩ := hdata.parts
  unfold Browser.createRestoreWallet
  rw [Option.map_some, hparts]
  show storedAddress w.c "R" (Browser.createWallet _ _ _ _ _ _ _ _) = _
  rw [storedAddress_createWallet w w.newRestore, hpuk, generateAddr_digest]

theorem java_address : Wallet.EthereumWalletAddrGen w.p puk = addressBytes puk := by
  have hlength : ((Sha256.digest puk).drop 12).length ≤ 20 := by
    rw [List.length_drop, Sha256.length_digest]
  rw [Wallet.EthereumWalletAddrGen, w.digest.java, List.take_of_length_le hlength, addressBytes]

theorem android_address : (Android.generateAddress w.lib puk w.d).1 = some (addressBytes puk) := by
  rw [Android.generateAddress_apply w.libSound w.initialised, Android.address, w.digest.android]
  rfl

end Wallets

/-- **One public key, one address** in all wallets, exactly if the digests of the text of the key and of its
bytes end alike. -/
theorem one_address_iff (w : Setting) (puk : List UInt8) :
    OneAddress w puk ↔ addressBytes (utf8 (encodeHexString puk)) = addressBytes puk := by
  constructor
  · rintro ⟨address, hnonRestore, -, hjava, -⟩
    rw [nonRestore_address] at hnonRestore
    rw [Option.some.inj hnonRestore, ← hjava, java_address]
  · intro hequal
    refine ⟨addressBytes puk, ?_, fun data hdata => restore_address w puk hdata, java_address w puk,
      android_address w puk⟩
    rw [nonRestore_address, hequal]

/-! ## A key with two addresses -/

def shaJS : Browser.Library := { Browser.Library.plain with SHA256 := Sha256.digest }

theorem shaJS_sound : shaJS.Sound := { Browser.Library.plain_sound with }

theorem le_length_digest (bytes : List UInt8) : 32 ≤ (Sha256.digest bytes).length := by
  rw [Sha256.length_digest]

def shaProvider : Wallet.Provider :=
  { Wallet.Provider.plain with HashDigest := Sha256.digest, length_HashDigest := le_length_digest }

def shaAndroid : Android.Library :=
  { Android.plain with
    messageDigest := fun algorithmName => if algorithmName = "SHA256" then some Sha256.digest else none
    sha256 := Sha256.digest }

theorem shaAndroid_sound : shaAndroid.Sound :=
  { Android.plain_sound with
    messageDigest_SHA256 := rfl
    messageDigest_empty := rfl
    length_sha256 := Sha256.length_digest }

/-- New wallets, with the one digest. -/
def shaSetting : Setting where
  c := shaJS
  p := shaProvider
  lib := shaAndroid
  sound := shaJS_sound
  libSound := shaAndroid_sound
  digest := ⟨rfl, rfl, rfl⟩
  prv := [1]
  salt := List.replicate 32 1
  drawn := Browser.eightZeros
  password := "p"
  s := fun _ => none
  new := rfl
  newRestore := rfl
  d := Android.freshDevice
  initialised := Android.initialised_empty

/-- The public key of the private key one. -/
def basePoint : List UInt8 := (decodeHex
  "046b17d1f2e12c4247f8bce6e563a440f277037d812deb33a0f4a13945d898c2964fe342e2fe1a7f9b8ee7eb4a7c0f9e162bce33576b315ececbb6406837bf51f5").getD []

theorem two_addresses : basePoint.length = 65 ∧ ¬ OneAddress shaSetting basePoint := by
  refine ⟨by decide +kernel, ?_⟩
  intro hone
  obtain ⟨address, hnonRestore, -, hjava, -⟩ := hone
  rw [nonRestore_address] at hnonRestore
  rw [java_address, ← Option.some.inj hnonRestore] at hjava
  exact absurd hjava (by decide +kernel)

end MoaCrypto.Address
