import MoaCrypto.Lib.Act
import MoaCrypto.Java.Decimal
import MoaCrypto.Java.Tokenizer
import MoaCrypto.Java.Base64
import MoaCrypto.Wallet.Base58
import Mathlib.Logic.Function.Basic

/-!
# What the Android wallet works on (`Wallet.java`, `MoaCommon.java`)

`Library` has the functions of the platform and of the crypto library, `Library.Sound` what the wallet
relies on; `Outcomes` has what the key store, the symmetric cipher and the random generator give during
one call, where an empty array stands for a failure.  A `Device` is the two preference files, the mode
that selects one of them, and the fields of the `Wallet` object.
-/

namespace MoaCrypto.Android

open Java Wallet

inductive CipherMode
  | ENCRYPT
  | DECRYPT

/-- The functions of the platform and of the crypto library; `none` is an unknown algorithm or an
exception. -/
structure Library where
  messageDigest : (algorithmName : String) → Option (List UInt8 → List UInt8)
  mac : (algorithmName : String) → Option ((targetData key : List UInt8) → List UInt8)
  sha256 : List UInt8 → List UInt8
  hmacSha256 : (targetData key : List UInt8) → List UInt8
  kdfGen : (psw salt : List UInt8) → (iterationCount : Int) → (keySize : Nat) → List UInt8
  encode58 : List UInt8 → String
  decode58 : String → Option (List UInt8)
  encode64 : List UInt8 → String
  decode64 : String → Option (List UInt8)
  aesCtr : (iv key : List UInt8) → CipherMode → List UInt8 → List UInt8
  aesCbc : (iv key : List UInt8) → CipherMode → List UInt8 → List UInt8
  osName : String

/-- What the wallet relies on; the ciphers take keys of 32 bytes and an iv of 16. -/
structure Library.Sound (lib : Library) : Prop where
  messageDigest_SHA256 : lib.messageDigest "SHA256" = some lib.sha256
  messageDigest_empty : lib.messageDigest "" = none
  mac_HmacSHA256 : lib.mac "HmacSHA256" = some lib.hmacSha256
  mac_empty : lib.mac "" = none
  length_sha256 : ∀ bytes, (lib.sha256 bytes).length = 32
  length_hmacSha256 : ∀ targetData key, (lib.hmacSha256 targetData key).length = 32
  length_kdfGen : ∀ psw salt iterationCount keySize,
    (lib.kdfGen psw salt iterationCount keySize).length = keySize
  decode58 : ∀ bytes, lib.decode58 (lib.encode58 bytes) = some bytes
  encode58_ne : ∀ bytes, bytes ≠ [] → lib.encode58 bytes ≠ ""
  decode64 : ∀ bytes, lib.decode64 (lib.encode64 bytes) = some bytes
  encode64 : ∀ bytes, '$' ∉ (lib.encode64 bytes).toList ∧ '%' ∉ (lib.encode64 bytes).toList
  encode64_ne : ∀ bytes, bytes ≠ [] → lib.encode64 bytes ≠ ""
  aesCtr : ∀ iv key data, iv.length = 16 → key.length = 32 →
    lib.aesCtr iv key .DECRYPT (lib.aesCtr iv key .ENCRYPT data) = data
  length_aesCtr : ∀ iv key encOrDecMode data, iv.length = 16 → key.length = 32 →
    (lib.aesCtr iv key encOrDecMode data).length = data.length
  aesCbc : ∀ iv key data, iv.length = 16 → key.length = 32 →
    lib.aesCbc iv key .DECRYPT (lib.aesCbc iv key .ENCRYPT data) = data
  length_aesCbc : ∀ iv key data, iv.length = 16 → key.length = 32 →
    (lib.aesCbc iv key .ENCRYPT data).length = 16 * (data.length / 16 + 1)

/-- What a call gets from the key store, from the symmetric cipher and from the random generator for
the salt of a preference file. -/
structure Outcomes where
  doFinal : CipherMode → List UInt8 → Option (List UInt8)
  getSymmetricData : (alg : String) → (iv key : List UInt8) → CipherMode → List UInt8 → List UInt8
  nextBytes : (isPswInitMode : Bool) → List UInt8
  length_nextBytes : ∀ isPswInitMode, (nextBytes isPswInitMode).length = 32

/-- The symmetric ciphers do not fail. -/
structure Outcomes.Works (lib : Library) (o : Outcomes) : Prop where
  ctr : o.getSymmetricData "AES/CTR/NoPadding" = lib.aesCtr
  cbc : o.getSymmetricData "AES/CBC/PKCS7Padding" = lib.aesCbc

/-! ## A library in the clear -/

/-- The bytes with their number, cut or filled up to the length of a digest. -/
def plainDigest (bytes : List UInt8) : List UInt8 :=
  UInt8.ofNat bytes.length :: (bytes ++ List.replicate 31 0).take 31

theorem length_plainDigest (bytes : List UInt8) : (plainDigest bytes).length = 32 := by
  rw [plainDigest, List.length_cons, List.length_take, List.length_append, List.length_replicate]
  omega

/-- An array of zeros, which Base58 does not decode, is counted. -/
def plainDecode58 (s : String) : Option (List UInt8) :=
  match MoaBase58.decode s with
  | some bytes => some bytes
  | none => some (List.replicate (s.toList.length - 1) 0)

theorem plainDecode58_encode (bytes : List UInt8) : plainDecode58 (MoaBase58.encode bytes) = some bytes := by
  by_cases h : ∃ b ∈ bytes, b ≠ 0
  · rw [plainDecode58, MoaBase58.decode_encode h]
  · rw [plainDecode58, MoaBase58.decode_encode_of_zeros h]
    have hlength := congrArg List.length (MoaBase58.toList_encode_replicate bytes.length)
    rw [← MoaBase58.eq_replicate h, List.length_replicate] at hlength
    show some (List.replicate ((MoaBase58.encode bytes).toList.length - 1) 0) = some bytes
    rw [hlength, Nat.add_sub_cancel, ← MoaBase58.eq_replicate h]

theorem encode58_ne (bytes : List UInt8) : MoaBase58.encode bytes ≠ "" := by
  intro he
  have hdigits : MoaBase58.digits (bigInteger bytes) = [] := by
    have hlist := MoaBase58.toList_encode bytes
    rw [he] at hlist
    exact List.map_eq_nil_iff.mp (List.append_eq_nil_iff.mp hlist.symm).2
  unfold MoaBase58.digits at hdigits
  split at hdigits
  · cases hdigits
  · rename_i hne
    exact hne (Radix.radix_eq_nil.mp hdigits)

/-- The bytes that fill up the last block; each is their number. -/
def plainPadding (n : Nat) : List UInt8 := List.replicate (16 - n % 16) (UInt8.ofNat (16 - n % 16))

theorem getLastD_plainPadding (data : List UInt8) :
    ((data ++ plainPadding data.length).getLastD 0).toNat = 16 - data.length % 16 := by
  have hlt : data.length % 16 < 16 := Nat.mod_lt _ (by omega)
  obtain ⟨k, hk⟩ : ∃ k, 16 - data.length % 16 = k + 1 := ⟨15 - data.length % 16, by omega⟩
  rw [plainPadding, hk, List.replicate_succ', ← List.append_assoc, List.getLastD_concat, UInt8.toNat_ofNat']
  omega

/-- A library that hides nothing. -/
def plain : Library where
  messageDigest algorithmName := if algorithmName = "SHA256" then some plainDigest else none
  mac algorithmName := if algorithmName = "HmacSHA256" then some fun targetData _ => plainDigest targetData else none
  sha256 := plainDigest
  hmacSha256 targetData _ := plainDigest targetData
  kdfGen psw salt _ keySize := (psw ++ salt ++ List.replicate keySize 0).take keySize
  encode58 := MoaBase58.encode
  decode58 := plainDecode58
  encode64 := Base64.encode
  decode64 := Base64.decode
  aesCtr _ _ _ data := data
  aesCbc _ _ encOrDecMode data :=
    match encOrDecMode with
    | .ENCRYPT => data ++ plainPadding data.length
    | .DECRYPT => data.take (data.length - (data.getLastD 0).toNat)
  osName := "Linux"

theorem plain_sound : plain.Sound where
  messageDigest_SHA256 := rfl
  messageDigest_empty := rfl
  mac_HmacSHA256 := rfl
  mac_empty := rfl
  length_sha256 := length_plainDigest
  length_hmacSha256 targetData _ := length_plainDigest targetData
  length_kdfGen psw salt _ keySize := by
    show ((psw ++ salt ++ List.replicate keySize 0).take keySize).length = keySize
    rw [List.length_take, List.length_append, List.length_replicate]
    omega
  decode58 := plainDecode58_encode
  encode58_ne bytes _ := encode58_ne bytes
  decode64 := Base64.decode_encode
  encode64 bytes := ⟨Base64.not_mem_encode (by decide) bytes, Base64.not_mem_encode (by decide) bytes⟩
  encode64_ne := Base64.encode_ne
  aesCtr _ _ _ _ _ := rfl
  length_aesCtr _ _ _ _ _ _ := rfl
  aesCbc _ _ data _ _ := by
    show (data ++ plainPadding data.length).take
      ((data ++ plainPadding data.length).length - ((data ++ plainPadding data.length).getLastD 0).toNat) = data
    rw [getLastD_plainPadding, List.length_append, plainPadding, List.length_replicate, Nat.add_sub_cancel]
    exact List.take_left
  length_aesCbc _ _ data _ _ := by
    show (data ++ plainPadding data.length).length = _
    rw [List.length_append, plainPadding, List.length_replicate]
    omega

/-- A call in which nothing fails. -/
def plainOutcomes : Outcomes where
  doFinal
    | .ENCRYPT, data => some (1 :: data)
    | .DECRYPT, data => some data.tail
  getSymmetricData alg iv key encOrDecMode data :=
    if alg = "AES/CTR/NoPadding" then plain.aesCtr iv key encOrDecMode data
    else plain.aesCbc iv key encOrDecMode data
  nextBytes _ := List.replicate 32 1
  length_nextBytes _ := List.length_replicate

theorem plainOutcomes_works : plainOutcomes.Works plain := ⟨rfl, rfl⟩

/-! ## `MoaCommon` and `Arrays` -/

def hashDigest (lib : Library) (algorithmName : String) (targetData : List UInt8) : List UInt8 :=
  match lib.messageDigest algorithmName with
  | some digest => digest targetData
  | none => []

/-- An empty key is an exception. -/
def hmacDigest (lib : Library) (algorithmName : String) (targetData key : List UInt8) :
    Option (List UInt8) :=
  match lib.mac algorithmName with
  | some mac => if key = [] then none else some (mac targetData key)
  | none => some []

/-- A character that is no digit counts as `-1`. -/
def hexValue (c : Char) : Int :=
  match hexDigit c with
  | some n => n
  | none => -1

def hexChars : List Char → Option (List UInt8)
  | [] => some []
  | [_] => none
  | a :: b :: cs => (hexChars cs).map fun bytes => UInt8.ofInt (16 * hexValue a + hexValue b) :: bytes

/-- A text of odd length is an exception. -/
def hexStringToByteArray (s : String) : Option (List UInt8) := hexChars s.toList

def byteArrayToHexString (bytes : List UInt8) : String := encodeHexString bytes

/-- `Arrays.copyOf`: what is missing is filled with zeros. -/
def copyOf (bytes : List UInt8) (newLength : Nat) : List UInt8 :=
  (bytes ++ List.replicate (newLength - bytes.length) 0).take newLength

def copyOfRange (bytes : List UInt8) (start stop : Nat) : Option (List UInt8) :=
  if start ≤ stop ∧ start ≤ bytes.length then some ((copyOf bytes stop).drop start) else none

theorem hexValue_digitChar : ∀ n : Fin 16, hexValue (Nat.digitChar n.val) = n.val := by decide

theorem hexChars_hexByte (bytes : List UInt8) : hexChars (bytes.flatMap hexByte) = some bytes := by
  induction bytes with
  | nil => rfl
  | cons b bytes ih =>
    have hb := b.toNat_lt
    have hhigh := hexValue_digitChar ⟨b.toNat / 16, by omega⟩
    have hlow := hexValue_digitChar ⟨b.toNat % 16, by omega⟩
    have hvalue : (16 * (b.toNat / 16 : ℕ) + (b.toNat % 16 : ℕ) : Int) = b.toNat := by omega
    show (hexChars (bytes.flatMap hexByte)).map (fun bs => UInt8.ofInt (16 * hexValue _ + hexValue _) :: bs) = _
    rw [ih, Option.map_some, hhigh, hlow, hvalue, UInt8.ofInt, Int.emod_eq_of_lt (by omega) (by omega),
      Int.toNat_natCast, UInt8.ofNat_toNat]

theorem hexStringToByteArray_hexString (bytes : List UInt8) :
    hexStringToByteArray (byteArrayToHexString bytes) = some bytes := by
  rw [hexStringToByteArray, byteArrayToHexString, encodeHexString, String.toList_ofList, hexChars_hexByte]

theorem copyOf_of_le {bytes : List UInt8} {n : Nat} (h : n ≤ bytes.length) : copyOf bytes n = bytes.take n := by
  rw [copyOf, List.take_append_of_le_length h]

theorem copyOfRange_of_le {bytes : List UInt8} {start stop : Nat} (h : start ≤ stop)
    (hstop : stop ≤ bytes.length) : copyOfRange bytes start stop = some ((bytes.take stop).drop start) := by
  rw [copyOfRange, if_pos ⟨h, by omega⟩, copyOf_of_le hstop]

/-! ## The preferences -/

inductive PrefKey
  | VersionInfo
  | SymmetricAlg
  | SymmetricKeySize
  | HashAlg
  | SignatureAlg
  | ECCAlg
  | ECCCurve
  | MACAlg
  | IterationCount
  | SaltValue
  | CipheredData
  | WalletPublicKey
  | WalletAddr
  | OSInfo
  | MACData
  deriving DecidableEq

/-- A preference file; a key that is not there is read as the empty text. -/
abbrev Prefs : Type := PrefKey → String

namespace Prefs

def empty : Prefs := fun _ => ""

def putString (q : Prefs) (key : PrefKey) (value : String) : Prefs := Function.update q key value

@[simp] theorem putString_self (q : Prefs) (key : PrefKey) (value : String) :
    q.putString key value key = value := Function.update_self ..

@[simp] theorem putString_of_ne (q : Prefs) {key other : PrefKey} (h : other ≠ key) (value : String) :
    q.putString key value other = q other := Function.update_of_ne h ..

end Prefs

/-- The preference files `moaWallet` and `tempWallet`, and the fields of the `Wallet` object;
`receiver` says whether there is one. -/
structure Device where
  moaWallet : Prefs
  tempWallet : Prefs
  isPswInitMode : Bool
  password : String
  receiver : Bool

namespace Device

/-- The preferences that the mode selects. -/
def prefs (d : Device) : Prefs := if d.isPswInitMode then d.tempWallet else d.moaWallet

def setPrefs (d : Device) (q : Prefs) : Device :=
  if d.isPswInitMode then { d with tempWallet := q } else { d with moaWallet := q }

@[simp] theorem prefs_main (main temp : Prefs) (password : String) (receiver : Bool) :
    prefs ⟨main, temp, false, password, receiver⟩ = main := rfl

@[simp] theorem prefs_temp (main temp : Prefs) (password : String) (receiver : Bool) :
    prefs ⟨main, temp, true, password, receiver⟩ = temp := rfl

@[simp] theorem setPrefs_main (main temp q : Prefs) (password : String) (receiver : Bool) :
    setPrefs ⟨main, temp, false, password, receiver⟩ q = ⟨q, temp, false, password, receiver⟩ := rfl

@[simp] theorem setPrefs_temp (main temp q : Prefs) (password : String) (receiver : Bool) :
    setPrefs ⟨main, temp, true, password, receiver⟩ q = ⟨main, q, true, password, receiver⟩ := rfl

@[simp] theorem prefs_setPrefs (d : Device) (q : Prefs) : (d.setPrefs q).prefs = q := by
  rcases d with ⟨_, _, _ | _, _, _⟩ <;> rfl

@[simp] theorem setPrefs_setPrefs (d : Device) (q q' : Prefs) : (d.setPrefs q).setPrefs q' = d.setPrefs q' := by
  rcases d with ⟨_, _, _ | _, _, _⟩ <;> rfl

@[simp] theorem setPrefs_prefs (d : Device) : d.setPrefs d.prefs = d := by
  rcases d with ⟨_, _, _ | _, _, _⟩ <;> rfl

@[simp] theorem isPswInitMode_setPrefs (d : Device) (q : Prefs) :
    (d.setPrefs q).isPswInitMode = d.isPswInitMode := by
  rcases d with ⟨_, _, _ | _, _, _⟩ <;> rfl

@[simp] theorem password_setPrefs (d : Device) (q : Prefs) : (d.setPrefs q).password = d.password := by
  rcases d with ⟨_, _, _ | _, _, _⟩ <;> rfl

@[simp] theorem receiver_setPrefs (d : Device) (q : Prefs) : (d.setPrefs q).receiver = d.receiver := by
  rcases d with ⟨_, _, _ | _, _, _⟩ <;> rfl

end Device

end MoaCrypto.Android
