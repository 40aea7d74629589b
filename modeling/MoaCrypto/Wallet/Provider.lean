import MoaCrypto.Wallet.Base58
import MoaCrypto.Java.Base64
import MoaCrypto.Java.Properties
import MoaCrypto.Java.Tokenizer

/-!
# What the Java wallet takes from outside (`MoaWalletAPI.java`)

`Provider` has the functions of the crypto libraries for the algorithms of the properties file,
`Sound` what the wallet relies on: decryption inverts encryption under equal inputs, and
`PBKDF2baseEncrptAndDecrypt` is the symmetric cipher under the derived key, cut into 32 bytes of key
and an iv.  `Platform` has the settings of the properties file and of the system, whose name has no
blank around it, no backslash and no end of line.
-/

namespace MoaCrypto.Wallet

open Java

inductive CipherMode
  | ENCRYPT
  | DECRYPT

/-- The functions of the libraries; `none` stands for an exception. -/
structure Provider where
  HashDigest : List UInt8 → List UInt8
  HmacDigest : (dataBytes hmacKeyBytes : List UInt8) → List UInt8
  PBKDF2KeyGen : (passwordStr : String) → (saltBytes : List UInt8) → (iterationCount : Int) →
    (keySize : Nat) → List UInt8
  SymmetricEncryptData : (ivBytes keyBytes data : List UInt8) → List UInt8
  SymmetricDecryptData : (ivBytes keyBytes data : List UInt8) → List UInt8
  PBKDF2baseEncrptAndDecrypt : (data : List UInt8) → CipherMode → (passwordStr : String) →
    (saltBytes : List UInt8) → (iterationCount : Int) → (keySize : Nat) → List UInt8
  pbeEncrypt : (data : List UInt8) → (password : String) → (saltBytes : List UInt8) →
    (iterationCount : Int) → List UInt8
  pbeDecrypt : (data : List UInt8) → (password : String) → (saltBytes : List UInt8) →
    (iterationCount : Int) → Option (List UInt8)
  toBase64String : List UInt8 → String
  decodeBase64 : String → Option (List UInt8)
  blockchainECDSASign : (dataBytes privateKeyBytes : List UInt8) → List UInt8
  blockchainECDSAVerify : (dataBytes signatureBytes publicKeyBytes : List UInt8) → Bool
  length_HashDigest : ∀ bytes, 32 ≤ (HashDigest bytes).length

namespace Provider

/-- The key and the iv that `PBKDF2KeyGen` derives. -/
def derivedKey (p : Provider) (passwordStr : String) (saltBytes : List UInt8) (iterationCount : Int) :
    List UInt8 × List UInt8 :=
  let dk := p.PBKDF2KeyGen passwordStr saltBytes iterationCount (48 * 8)
  (dk.take 32, dk.drop 32)

/-- The first encryption of a key. -/
def firstEncrypt (p : Provider) (data : List UInt8) (passwordStr : String) (saltBytes : List UInt8)
    (iterationCount : Int) : List UInt8 :=
  let (key, iv) := p.derivedKey passwordStr saltBytes iterationCount
  p.SymmetricEncryptData iv key data

/-- The first decryption. -/
def firstDecrypt (p : Provider) (data : List UInt8) (passwordStr : String) (saltBytes : List UInt8)
    (iterationCount : Int) : List UInt8 :=
  let (key, iv) := p.derivedKey passwordStr saltBytes iterationCount
  p.SymmetricDecryptData iv key data

/-- What the wallet relies on. -/
structure Sound (p : Provider) : Prop where
  symmetricDecrypt : ∀ iv key data, p.SymmetricDecryptData iv key (p.SymmetricEncryptData iv key data) = data
  symmetric_ne : ∀ iv key data, data ≠ [] → p.SymmetricEncryptData iv key data ≠ []
  pbkdf2Encrypt : ∀ data psw salt n,
    p.PBKDF2baseEncrptAndDecrypt data .ENCRYPT psw salt n (48 * 8) = p.firstEncrypt data psw salt n
  pbkdf2Decrypt : ∀ data psw salt n,
    p.PBKDF2baseEncrptAndDecrypt data .DECRYPT psw salt n (48 * 8) = p.firstDecrypt data psw salt n
  pbeDecrypt : ∀ data psw salt n, p.pbeDecrypt (p.pbeEncrypt data psw salt n) psw salt n = some data
  decodeBase64 : ∀ bytes, p.decodeBase64 (p.toBase64String bytes) = some bytes
  base64 : ∀ bytes, '$' ∉ (p.toBase64String bytes).toList ∧ '%' ∉ (p.toBase64String bytes).toList
  base64_ne : ∀ bytes, bytes ≠ [] → p.toBase64String bytes ≠ ""
  hmac_ne : ∀ data key, p.HmacDigest data key ≠ []

theorem Sound.firstDecrypt {p : Provider} (hp : p.Sound) (data : List UInt8) (psw : String)
    (salt : List UInt8) (n : Int) : p.firstDecrypt (p.firstEncrypt data psw salt n) psw salt n = data :=
  hp.symmetricDecrypt _ _ data

theorem Sound.firstEncrypt_ne {p : Provider} (hp : p.Sound) {data : List UInt8} (h : data ≠ [])
    (psw : String) (salt : List UInt8) (n : Int) : p.firstEncrypt data psw salt n ≠ [] :=
  hp.symmetric_ne _ _ data h

/-- The text of a key that is encrypted is a token. -/
theorem Sound.tokens_base64 {p : Provider} (hp : p.Sound) {bytes : List UInt8} (h : bytes ≠ []) :
    tokens '$' (p.toBase64String bytes) = [p.toBase64String bytes] ∧
      tokens '%' (p.toBase64String bytes) = [p.toBase64String bytes] := by
  have hne := hp.base64_ne bytes h
  refine ⟨?_, ?_⟩
  · rw [tokens_of_not_mem (hp.base64 bytes).1, if_neg hne]
  · rw [tokens_of_not_mem (hp.base64 bytes).2, if_neg hne]

/-- A provider that hides nothing. -/
def plain : Provider where
  HashDigest bytes := bytes ++ List.replicate 32 0
  HmacDigest data key := UInt8.ofNat key.length :: (key ++ data)
  PBKDF2KeyGen psw salt _ _ := List.replicate 32 1 ++ utf8 psw ++ salt
  SymmetricEncryptData _ _ data := data.reverse
  SymmetricDecryptData _ _ data := data.reverse
  PBKDF2baseEncrptAndDecrypt data _ _ _ _ _ := data.reverse
  pbeEncrypt data _ _ _ := 1 :: data
  pbeDecrypt data _ _ _ := some data.tail
  toBase64String := Base64.encode
  decodeBase64 := Base64.decode
  blockchainECDSASign data key := key ++ data
  blockchainECDSAVerify data signature key := signature = key ++ data
  length_HashDigest bytes := by rw [List.length_append, List.length_replicate]; omega

theorem plain_sound : plain.Sound where
  symmetricDecrypt _ _ data := data.reverse_reverse
  symmetric_ne _ _ _ h := fun he => h (List.reverse_eq_nil_iff.mp he)
  pbkdf2Encrypt _ _ _ _ := rfl
  pbkdf2Decrypt _ _ _ _ := rfl
  pbeDecrypt _ _ _ _ := rfl
  decodeBase64 := Base64.decode_encode
  base64 bytes := ⟨Base64.not_mem_encode (by decide) bytes, Base64.not_mem_encode (by decide) bytes⟩
  base64_ne := Base64.encode_ne
  hmac_ne _ _ := List.cons_ne_nil _ _

theorem plain_hmac_injective (key : List UInt8) :
    Function.Injective fun data => plain.HmacDigest data key := by
  intro x y h
  exact List.append_cancel_left (List.cons.inj h).2

end Provider

/-- A name without a blank around it, a backslash or an end of line. -/
structure PlainName (osName : String) : Prop where
  trimmed : Trimmed osName.toList
  plain : Properties.Plain osName.toList

instance (osName : String) : Decidable (PlainName osName) :=
  decidable_of_iff (Trimmed osName.toList ∧ Properties.Plain osName.toList)
    ⟨fun h => ⟨h.1, h.2⟩, fun h => ⟨h.trimmed, h.plain⟩⟩

/-- The settings that are read from `moaWallet.properties`, and the properties of the system. -/
structure Platform where
  versionInfo : Int
  iterationCount : Int
  osName : String
  lineSeparator : String
  isInt_versionInfo : IsInt versionInfo
  isInt_iterationCount : IsInt iterationCount
  plainName : PlainName osName
  isSeparator : lineSeparator = "\n" ∨ lineSeparator = "\r\n"

/-- The settings of the repository, on a system of that name. -/
def Platform.ofName (osName : String) (h : PlainName osName) : Platform :=
  ⟨1, 4096, osName, "\n", by decide, by decide, h, Or.inl rfl⟩

def linux : Platform := .ofName "Linux" (by decide)

def windows : Platform := .ofName "Windows 10" (by decide)

/-- A system with a character outside ASCII in its name. -/
def umlaut : Platform := .ofName "Linux ü" (by decide)

/-- `EthereumWalletAddrGen`: the last twenty bytes of a digest of thirty-two. -/
def EthereumWalletAddrGen (p : Provider) (publicKeyBytes : List UInt8) : List UInt8 :=
  ((p.HashDigest publicKeyBytes).drop 12).take 20

/-! ## The integrity of the data -/

/-- The fields of a wallet but the MAC. -/
structure WalletInfo where
  versionInfo : Int
  osInfo : String
  walletTypeStr : String
  saltBase58Str : String
  iterationCount : Int
  cipheredDataBase58Str : String
  walletPublicKeyBase58Str : String
  walletAddrBase58Str : String
  deriving DecidableEq

/-- An integer in a concatenation. -/
def ofInt (n : Int) : String := String.ofList (intDigits n)

/-- `walletConcat`, the text under the MAC. -/
def WalletInfo.walletConcat (w : WalletInfo) : String :=
  ofInt w.versionInfo ++ w.osInfo ++ w.walletTypeStr ++ w.saltBase58Str ++ ofInt w.iterationCount ++
    w.cipheredDataBase58Str ++ w.walletPublicKeyBase58Str ++ w.walletAddrBase58Str

def hmacKey (p : Provider) (saltBytes : List UInt8) (passwordStr : String) : List UInt8 :=
  p.HashDigest (saltBytes ++ utf8 passwordStr)

def WalletInfo.macDataBytes (p : Provider) (w : WalletInfo) (key : List UInt8) : List UInt8 :=
  p.HmacDigest (utf8 w.walletConcat) key

end MoaCrypto.Wallet
