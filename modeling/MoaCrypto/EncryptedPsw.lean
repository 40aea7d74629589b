import MoaCrypto.Android.Reset
import MoaCrypto.Browser.HmacPsw
import MoaCrypto.Browser.Restore
import MoaCrypto.Wallet.HmacPsw

/-!
# The encrypted hmac password from one platform to the others

The three platforms compute the same fourteen bytes for a password (`hmacPsw_eq`).  Their encoders seal them, for
the same random byte, to the same bytes (`java_encodes`, `android_encodes`, `browser_encodes`), and both decoders
give them back (`recovers`).
-/

namespace MoaCrypto.EncryptedPsw

open Java

/-- The primitives of the three platforms agree on equal inputs. -/
structure Agree (c : Browser.PswLibrary) (p : Wallet.PswProvider) (lib : Android.Library) : Prop where
  SHA256 : c.SHA256 = lib.sha256
  HashDigest : p.HashDigest = lib.sha256
  HmacSHA256 : c.HmacSHA256 = lib.hmacSha256
  HmacDigest : p.HmacDigest = lib.hmacSha256
  PBKDF2 : ∀ psw salt, c.PBKDF2 psw salt 10 = lib.kdfGen (utf8 psw) salt 10 48
  PBKDF2KeyGen : ∀ psw salt, p.PBKDF2KeyGen psw salt 10 (48 * 8) = lib.kdfGen (utf8 psw) salt 10 48
  encryptCBC : ∀ data iv key, iv.length = 16 → key.length = 32 →
    c.encryptCBC data key iv = lib.aesCbc iv key .ENCRYPT data
  encryptWPsw : ∀ data iv key, iv.length = 16 → key.length = 32 →
    p.encryptWPsw iv key data = lib.aesCbc iv key .ENCRYPT data
  decryptWPsw : ∀ data iv key, iv.length = 16 → key.length = 32 →
    p.decryptWPsw iv key data = lib.aesCbc iv key .DECRYPT data
  stringifyBase64 : c.stringifyBase64 = Base64.encode
  toBase64String : p.toBase64String = Base64.encode
  encode64 : lib.encode64 = Base64.encode

/-- The platforms, and the preferences of an Android device and its outcomes when it encrypts and when it
decrypts. -/
structure Setting where
  c : Browser.PswLibrary
  p : Wallet.PswProvider
  lib : Android.Library
  browserSound : c.toCryptoJS.Sound
  javaSound : p.Sound
  androidSound : lib.Sound
  agree : Agree c p lib
  q : Android.Prefs
  initialised : Android.Initialised q
  o : Android.Outcomes
  works : o.Works lib
  check : Android.Outcomes
  checkWorks : check.Works lib

structure User where
  id : String
  psw : String
  dateOfBirth : String
  id_ne : id ≠ ""
  psw_ne : psw ≠ ""
  dateOfBirth_ne : dateOfBirth ≠ ""

/-! ## What the functions compute -/

section Spec

variable (w : Setting) (u : User)

/-- Fourteen bytes of the HMAC, the second ones under an even first byte of the hash. -/
def hmacPsw : List UInt8 :=
  let hmac := w.lib.hmacSha256 (utf8 u.psw) (w.lib.sha256 (utf8 u.psw))
  if (w.lib.sha256 (utf8 u.psw)).head?.any fun first => first.toNat % 2 = 0 then (hmac.drop 14).take 14
  else hmac.take 14

def derivedKey : List UInt8 := w.lib.kdfGen (utf8 u.dateOfBirth) (utf8 u.id) 10 48

def iv : List UInt8 := (derivedKey w u).drop 32

def key : List UInt8 := (derivedKey w u).take 32

def cipher (random : UInt8) : List UInt8 := w.lib.aesCbc (iv w u) (key w u) .ENCRYPT (random :: hmacPsw w u)

/-- The folded HMAC of the ciphertext. -/
def mac (random : UInt8) : List UInt8 :=
  let hmac := w.lib.hmacSha256 (cipher w u random) (utf8 u.dateOfBirth)
  List.zipWith (· ^^^ ·) (hmac.take 16) (hmac.drop 16)

def blob (random : UInt8) : List UInt8 := cipher w u random ++ mac w u random

/-- The three functions for an hmac password return the bytes, the browser in hexadecimal. -/
structure SameHmacPsw (bytes : List UInt8) : Prop where
  java : Wallet.BCWalletHmacWPswGenCoreEngine w.p u.psw = some bytes
  android : Android.getHmacPsw w.lib w.q u.psw = some bytes
  browser : Browser.generateHmacPsw w.c.toCryptoJS u.psw = encodeHexString bytes

/-- Both decoders accept the text and return the bytes. -/
structure Recovers (bytes : List UInt8) (text : String) : Prop where
  java : Wallet.BCWalletWPswVerifyAndDecryptCoreEngine w.p u.id u.dateOfBirth text =
    some ("0x5113" ++ "$" ++ Base64.encode bytes)
  androidVerifies : Android.verifyDateOfBirth w.lib w.q u.dateOfBirth text = some true
  android : Android.getDecryptedHmacPsw w.lib w.check u.id u.dateOfBirth text = some bytes

/-- Every encoder makes a blob that is recovered; the Android one is given the digits of `getHmacPsw`. -/
structure RoundTrip (random : UInt8) (bytes : List UInt8) : Prop where
  java : ∃ msg hash hmac text, Wallet.BCWalletEncryptWPswGenCoreEngine w.p random u.id u.psw u.dateOfBirth = some msg ∧
    tokens '$' msg = [hash, hmac, text] ∧ Recovers w u bytes text
  android : ∃ hmac text, Android.getHmacPsw w.lib w.q u.psw = some hmac ∧
    Android.getEncryptedHmacPsw w.lib w.o w.q random u.id (encodeHexString hmac) u.dateOfBirth = some text ∧
    Recovers w u bytes text
  browser : ∃ encrypted, decodeHex (Browser.getEncryptedHmacPsw w.c random u.id u.psw u.dateOfBirth) =
    some encrypted ∧ Recovers w u bytes (Base64.encode encrypted)

end Spec

/-! ## The hmac password -/

theorem ne_nil_of_length {bytes : List UInt8} {n : Nat} (h : bytes.length = n + 1) : bytes ≠ [] := by
  intro he
  rw [he] at h
  cases h

section HmacPsw

variable (w : Setting) (u : User)

/-- The first byte of the hash. -/
theorem exists_first : ∃ first, (w.lib.sha256 (utf8 u.psw)).head? = some first := by
  have hlength := w.androidSound.length_sha256 (utf8 u.psw)
  match hhash : w.lib.sha256 (utf8 u.psw) with
  | [] =>
    rw [hhash] at hlength
    cases hlength
  | first :: _ => exact ⟨first, rfl⟩

theorem length_hmac : (w.lib.hmacSha256 (utf8 u.psw) (w.lib.sha256 (utf8 u.psw))).length = 32 :=
  w.androidSound.length_hmacSha256 _ _

theorem length_hmacPsw : (hmacPsw w u).length = 14 := by
  have hlength := length_hmac w u
  rw [hmacPsw]
  split
  · rw [List.length_take, List.length_drop, hlength]
    rfl
  · rw [List.length_take, hlength]
    rfl

theorem java_hmacPsw : Wallet.BCWalletHmacWPswGenCoreEngine w.p u.psw = some (hmacPsw w u) := by
  obtain ⟨first, hfirst⟩ := exists_first w u
  have hlength := length_hmac w u
  simp only [Wallet.BCWalletHmacWPswGenCoreEngine, w.agree.HashDigest, w.agree.HmacDigest, hfirst,
    Option.bind_eq_bind, Option.bind_some, signedByte_even, arraycopy, Wallet.hmacWPswExtractSize, hmacPsw,
    Option.any_some, decide_eq_true_eq, List.drop_zero, hlength]
  split <;> rfl

theorem android_hmacPsw : Android.getHmacPsw w.lib w.q u.psw = some (hmacPsw w u) := by
  obtain ⟨first, hfirst⟩ := exists_first w u
  have hlength := length_hmac w u
  have hashAlg : w.q .HashAlg = "SHA256" := w.initialised _ _ rfl
  have macAlg : w.q .MACAlg = "HmacSHA256" := w.initialised _ _ rfl
  have hne : w.lib.sha256 (utf8 u.psw) ≠ [] := ne_nil_of_length (w.androidSound.length_sha256 _)
  simp only [Android.getHmacPsw, Android.hashDigest, Android.hmacDigest, hashAlg, macAlg,
    w.androidSound.messageDigest_SHA256, w.androidSound.mac_HmacSHA256, if_neg hne, hfirst,
    Option.bind_eq_bind, Option.bind_some, signedByte_even, hmacPsw, Option.any_some, decide_eq_true_eq]
  split
  · rw [Android.copyOfRange_of_le (by decide) (by omega), List.drop_take]
  · rw [Android.copyOf_of_le (by omega)]

theorem browser_hmacPsw : Browser.generateHmacPsw w.c.toCryptoJS u.psw = encodeHexString (hmacPsw w u) := by
  obtain ⟨first, hfirst⟩ := exists_first w u
  have hlength := w.androidSound.length_sha256 (utf8 u.psw)
  have hhead := Browser.head_wordToByteArray (show 4 ≤ (w.lib.sha256 (utf8 u.psw)).length by omega)
  simp only [Browser.generateHmacPsw, w.agree.SHA256, w.agree.HmacSHA256, hhead, hfirst, hmacPsw, Option.map_some,
    Option.any_some, decide_eq_true_eq]
  split
  · exact Browser.substr_encodeHexString _ 14 14
  · exact Browser.substr_encodeHexString _ 0 14

/-- The three functions agree. -/
theorem hmacPsw_eq : SameHmacPsw w u (hmacPsw w u) :=
  ⟨java_hmacPsw w u, android_hmacPsw w u, browser_hmacPsw w u⟩

end HmacPsw

/-! ## The encoders -/

section Encoders

variable (w : Setting) (u : User) (random : UInt8)

theorem length_derivedKey : (derivedKey w u).length = 48 := w.androidSound.length_kdfGen _ _ _ _

theorem length_iv : (iv w u).length = 16 := by rw [iv, List.length_drop, length_derivedKey]

theorem length_key : (key w u).length = 32 := by
  rw [key, List.length_take, length_derivedKey]
  rfl

theorem length_cipher : (cipher w u random).length = 16 := by
  rw [cipher, w.androidSound.length_aesCbc _ _ _ (length_iv w u) (length_key w u), List.length_cons, length_hmacPsw]

theorem length_dateHmac (data : List UInt8) : (w.lib.hmacSha256 data (utf8 u.dateOfBirth)).length = 32 :=
  w.androidSound.length_hmacSha256 _ _

theorem length_mac : (mac w u random).length = 16 := by
  rw [mac, List.length_zipWith, List.length_take, List.length_drop, length_dateHmac]
  rfl

theorem length_blob : (blob w u random).length = 32 := by
  rw [blob, List.length_append, length_cipher, length_mac]

theorem derivedKey_java : w.p.derivedKey u.dateOfBirth (utf8 u.id) 10 = (key w u, iv w u) := by
  rw [Wallet.Provider.derivedKey, w.agree.PBKDF2KeyGen]
  rfl

theorem folded_hmac :
    xorSixteen (w.lib.hmacSha256 (cipher w u random) (utf8 u.dateOfBirth)) = some (mac w u random) :=
  xorSixteen_eq (length_dateHmac w u _)

theorem utf8_dateOfBirth_ne : utf8 u.dateOfBirth ≠ [] := fun he => u.dateOfBirth_ne (utf8_injective he)

theorem java_encodes : Wallet.BCWalletEncryptWPswGenCoreEngine w.p random u.id u.psw u.dateOfBirth =
    some (Base64.encode (w.lib.sha256 (utf8 u.psw)) ++ "$" ++ Base64.encode (hmacPsw w u) ++ "$" ++
      Base64.encode (blob w u random)) := by
  rw [Wallet.BCWalletEncryptWPswGenCoreEngine, Wallet.iterationCountforDBK, derivedKey_java, java_hmacPsw]
  simp only [Option.bind_eq_bind, Option.bind_some, w.agree.encryptWPsw _ _ _ (length_iv w u) (length_key w u),
    w.agree.HmacDigest, w.agree.HashDigest, w.agree.toBase64String]
  rw [← cipher, folded_hmac]
  rfl

/-- The blob is the third token. -/
theorem tokens_java : tokens '$' (Base64.encode (w.lib.sha256 (utf8 u.psw)) ++ "$" ++ Base64.encode (hmacPsw w u) ++
    "$" ++ Base64.encode (blob w u random)) =
      [Base64.encode (w.lib.sha256 (utf8 u.psw)), Base64.encode (hmacPsw w u), Base64.encode (blob w u random)] :=
  tokens_three (Browser.tokens_encode (ne_nil_of_length (w.androidSound.length_sha256 _)))
    (Browser.tokens_encode (ne_nil_of_length (length_hmacPsw w u)))
    (Browser.tokens_encode (ne_nil_of_length (length_blob w u random)))

theorem android_encodes : Android.getEncryptedHmacPsw w.lib w.o w.q random u.id (encodeHexString (hmacPsw w u))
    u.dateOfBirth = some (Base64.encode (blob w u random)) := by
  have macAlg : w.q .MACAlg = "HmacSHA256" := w.initialised _ _ rfl
  have hbytes : Android.hexStringToByteArray (encodeHexString (hmacPsw w u)) = some (hmacPsw w u) :=
    Android.hexStringToByteArray_hexString _
  have hkey : Android.hmacPswKey w.lib u.id u.dateOfBirth = some (iv w u, key w u) :=
    Android.hmacPswKey_some w.androidSound _ _
  have hhalves : Android.xorHalves (w.lib.hmacSha256 (cipher w u random) (utf8 u.dateOfBirth)) = mac w u random := by
    rw [Android.xorHalves, length_dateHmac]
    rfl
  simp only [Android.getEncryptedHmacPsw, hbytes, hkey, Option.bind_eq_bind, Option.bind_some, w.works.cbc, macAlg,
    Android.hmacDigest, w.androidSound.mac_HmacSHA256, if_neg (utf8_dateOfBirth_ne u),
    w.agree.encode64]
  rw [← cipher, hhalves]
  rfl

theorem browser_encodes : Browser.getEncryptedHmacPsw w.c random u.id u.psw u.dateOfBirth =
    encodeHexString (blob w u random) := by
  have hpbkdf2 : w.c.PBKDF2 u.dateOfBirth (utf8 u.id) 10 = derivedKey w u := w.agree.PBKDF2 _ _
  have hjoin : ∀ x y : List UInt8, encodeHexString x ++ encodeHexString y = encodeHexString (x ++ y) := by
    intro x y
    rw [encodeHexString, encodeHexString, encodeHexString, List.flatMap_append, String.ofList_append]
  have hkey : Browser.substr (encodeHexString (derivedKey w u)) 0 (32 * 2) = encodeHexString (key w u) :=
    Browser.substr_encodeHexString _ 0 32
  have hiv : Browser.substr (encodeHexString (derivedKey w u)) (32 * 2) (16 * 2) = encodeHexString (iv w u) := by
    rw [Browser.substr_encodeHexString, iv, List.take_of_length_le]
    rw [List.length_drop, length_derivedKey]
  have hbase64 : w.c.parseBase64 (Base64.encode (cipher w u random)) = cipher w u random := by
    rw [← w.agree.stringifyBase64, w.browserSound.parseBase64]
  simp only [Browser.getEncryptedHmacPsw, hpbkdf2, browser_hmacPsw, hjoin, hkey, hiv, w.browserSound.parseHex,
    w.agree.encryptCBC _ _ _ (length_iv w u) (length_key w u), List.singleton_append]
  rw [← cipher, Browser.openSSLStringify, w.agree.stringifyBase64]
  simp only [hbase64, w.agree.HmacSHA256, Browser.foldHmac_eq (length_dateHmac w u _), hjoin]
  rfl

end Encoders

/-! ## The decoders -/

section Decoders

variable (w : Setting) (u : User) (random : UInt8)

theorem half_blob : (blob w u random).length / 2 = 16 := by rw [length_blob]

theorem take_blob : (blob w u random).take 16 = cipher w u random := List.take_left' (length_cipher w u random)

theorem drop_blob : (blob w u random).drop 16 = mac w u random := List.drop_left' (length_cipher w u random)

theorem decrypt_cipher : w.lib.aesCbc (iv w u) (key w u) .DECRYPT (cipher w u random) = random :: hmacPsw w u :=
  w.androidSound.aesCbc _ _ _ (length_iv w u) (length_key w u)

theorem java_recovers : Wallet.BCWalletWPswVerifyAndDecryptCoreEngine w.p u.id u.dateOfBirth
    (Base64.encode (blob w u random)) = some ("0x5113" ++ "$" ++ Base64.encode (hmacPsw w u)) := by
  have hdecode : w.p.decodeBase64 (Base64.encode (blob w u random)) = some (blob w u random) := by
    rw [← w.agree.toBase64String, w.javaSound.decodeBase64]
  have hmac : (mac w u random).take 16 = mac w u random := List.take_of_length_le (length_mac w u random).le
  have hbytes : arraycopy (random :: hmacPsw w u) 1 14 = some (hmacPsw w u) := by
    rw [arraycopy, List.length_cons, length_hmacPsw, if_pos (by decide)]
    exact congrArg some (List.take_of_length_le (length_hmacPsw w u).le)
  simp only [Wallet.BCWalletWPswVerifyAndDecryptCoreEngine, hdecode, Option.bind_eq_bind, Option.bind_some,
    half_blob, take_blob, drop_blob, hmac, w.agree.HmacDigest, folded_hmac, ne_eq, not_true_eq_false, if_false]
  rw [Wallet.iterationCountforDBK, derivedKey_java]
  simp only [w.agree.decryptWPsw _ _ _ (length_iv w u) (length_key w u), decrypt_cipher, Wallet.randSize,
    Wallet.hmacWPswExtractSize, hbytes, Option.bind_some, w.agree.toBase64String]

theorem android_verifies :
    Android.verifyDateOfBirth w.lib w.q u.dateOfBirth (Base64.encode (blob w u random)) = some true := by
  have macAlg : w.q .MACAlg = "HmacSHA256" := w.initialised _ _ rfl
  have hdecode : w.lib.decode64 (Base64.encode (blob w u random)) = some (blob w u random) := by
    rw [← w.agree.encode64, w.androidSound.decode64]
  simp only [Android.verifyDateOfBirth, hdecode, Option.bind_eq_bind, Option.bind_some, half_blob, take_blob,
    drop_blob, macAlg, Android.hmacDigest, w.androidSound.mac_HmacSHA256, if_neg (utf8_dateOfBirth_ne u),
    folded_hmac, decide_true]

theorem android_recovers : Android.getDecryptedHmacPsw w.lib w.check u.id u.dateOfBirth
    (Base64.encode (blob w u random)) = some (hmacPsw w u) :=
  Android.getDecryptedHmacPsw_encrypted w.androidSound w.works w.checkWorks w.initialised (length_hmacPsw w u)
    (android_encodes w u random)

/-- The blob is recovered by both decoders. -/
theorem recovers : Recovers w u (hmacPsw w u) (Base64.encode (blob w u random)) :=
  ⟨java_recovers w u random, android_verifies w u random, android_recovers w u random⟩

end Decoders

/-- **The encrypted password makes the round trip** from every encoder to both decoders, with the fourteen bytes
that the three platforms compute. -/
theorem encryptedPsw_roundTrip (w : Setting) (u : User) :
    ∃ bytes, bytes.length = 14 ∧ SameHmacPsw w u bytes ∧ ∀ random, RoundTrip w u random bytes := by
  refine ⟨hmacPsw w u, length_hmacPsw w u, hmacPsw_eq w u, fun random => ⟨?_, ?_, ?_⟩⟩
  · exact ⟨_, _, _, _, java_encodes w u random, tokens_java w u random, recovers w u random⟩
  · exact ⟨_, _, android_hmacPsw w u, android_encodes w u random, recovers w u random⟩
  · refine ⟨blob w u random, ?_, recovers w u random⟩
    rw [browser_encodes, decodeHex_encodeHexString]

/-! ## Libraries that agree -/

def oneBrowser : Browser.PswLibrary :=
  { Browser.Library.plain with
    SHA256 := Android.plainDigest
    HmacSHA256 := Android.plain.hmacSha256
    PBKDF2 := fun psw salt iterations => Android.plain.kdfGen (utf8 psw) salt iterations 48
    encryptCBC := fun data key iv => Android.plain.aesCbc iv key .ENCRYPT data }

theorem le_length_plainDigest (bytes : List UInt8) : 32 ≤ (Android.plainDigest bytes).length :=
  (Android.length_plainDigest bytes).ge

def oneProvider : Wallet.PswProvider :=
  { Wallet.Provider.plain with
    HashDigest := Android.plainDigest
    length_HashDigest := le_length_plainDigest
    HmacDigest := Android.plain.hmacSha256
    PBKDF2KeyGen := fun psw salt iterationCount _ => Android.plain.kdfGen (utf8 psw) salt iterationCount 48
    encryptWPsw := fun iv key data => Android.plain.aesCbc iv key .ENCRYPT data
    decryptWPsw := fun iv key data => Android.plain.aesCbc iv key .DECRYPT data }

theorem oneBrowser_sound : oneBrowser.toCryptoJS.Sound :=
  { Browser.Library.plain_sound.toSound with length_HmacSHA256 := Android.plain_sound.length_hmacSha256 }

theorem oneProvider_sound : oneProvider.Sound :=
  { Wallet.Provider.plain_sound with
    pbkdf2Encrypt := fun _ _ _ _ => rfl
    pbkdf2Decrypt := fun _ _ _ _ => rfl
    hmac_ne := fun data key => Android.hmacSha256_ne Android.plain_sound data key }

theorem oneAgree : Agree oneBrowser oneProvider Android.plain where
  SHA256 := rfl
  HashDigest := rfl
  HmacSHA256 := rfl
  HmacDigest := rfl
  PBKDF2 _ _ := rfl
  PBKDF2KeyGen _ _ := rfl
  encryptCBC _ _ _ _ _ := rfl
  encryptWPsw _ _ _ _ _ := rfl
  decryptWPsw _ _ _ _ _ := rfl
  stringifyBase64 := rfl
  toBase64String := rfl
  encode64 := rfl

def oneSetting : Setting where
  c := oneBrowser
  p := oneProvider
  lib := Android.plain
  browserSound := oneBrowser_sound
  javaSound := oneProvider_sound
  androidSound := Android.plain_sound
  agree := oneAgree
  q := Android.freshDevice.prefs
  initialised := Android.initialised_empty
  o := Android.plainOutcomes
  works := Android.plainOutcomes_works
  check := Android.plainOutcomes
  checkWorks := Android.plainOutcomes_works

def oneUser : User := ⟨"id", "654321", "19900101", by decide, by decide, by decide⟩

theorem encryptedPsw_roundTrip_one :
    ∃ bytes, bytes.length = 14 ∧ SameHmacPsw oneSetting oneUser bytes ∧
      ∀ random, RoundTrip oneSetting oneUser random bytes :=
  encryptedPsw_roundTrip oneSetting oneUser

end MoaCrypto.EncryptedPsw
