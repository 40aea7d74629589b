import MoaCrypto.Wallet.Issue

/-!
# The restore data of a new wallet (`RestoreBlockchainWalletInfoGen`)

A key pair is generated, but the bytes that are encrypted are written into the source, and so is the
salt.  The data is that of one key pair for every user, whatever the generators return.
-/

namespace MoaCrypto.Wallet

open Java

/-- What the generators of a run return: the key pair, and the salt if it is asked for one. -/
structure Generated where
  ecKP : ECKeyPair
  SecureRandNumberGen : List UInt8

/-- `Hex.decode` of a text of digits. -/
def hexDecode (s : String) : List UInt8 := (decodeHex s).getD []

def privateKeyHex : String := "917ecfad03c5b2c214c3ba2c58c2a4475aa40aece64e500db7db93d972049bcb"

def publicKeyHex : String :=
  "041997c990af96e68fb2cbd5ffe171db1f3add7e39db536baba973431356100d0dd9123e7e8688946d6a47c0ea5eb95639b32f483f2e73c2bd4a665b97024a13ec"

def wSaltHex : String := "2fff460391c2f88db4c63f4670a59f7170e05431a4dc947a447731df2ba4c573"

theorem privateKeyHex_ne : hexDecode privateKeyHex ≠ [] := by decide +kernel

theorem publicKeyHex_ne : hexDecode publicKeyHex ≠ [] := by decide +kernel

theorem wSaltHex_ne : hexDecode wSaltHex ≠ [] := by decide +kernel

/-- Neither the generated keys, which are overwritten, nor a generated salt are used. -/
def RestoreBlockchainWalletInfoGen (p : Provider) (m : Platform) (_generated : Generated)
    (passwordStr : String) : String :=
  let privateKeyBytes := hexDecode privateKeyHex
  let publicKeyBytes := hexDecode publicKeyHex
  let wSaltBytes := hexDecode wSaltHex
  let encwPrkBytes := p.firstEncrypt privateKeyBytes passwordStr wSaltBytes m.iterationCount
  let encwPukBytes := p.firstEncrypt publicKeyBytes passwordStr wSaltBytes m.iterationCount
  let existHmacEwPukBytes := p.HmacDigest encwPukBytes (utf8 passwordStr)
  p.toBase64String existHmacEwPukBytes ++ "%" ++ p.toBase64String encwPrkBytes ++ "$" ++
    p.toBase64String encwPukBytes ++ "$" ++ p.toBase64String wSaltBytes

/-- The private key, the public key and the salt that `RestoreBlockchainWallet` takes from the data. -/
def restoredKeys (p : Provider) (m : Platform) (passwordStr message : String) :
    Option (List UInt8 × List UInt8 × List UInt8) :=
  match tokens '%' message with
  | _ :: data :: _ =>
    (parseRestoreData p data).map fun (firstEncryptWPrkBytes, firstEncryptWPukBytes, saltBytes) =>
      (p.PBKDF2baseEncrptAndDecrypt firstEncryptWPrkBytes .DECRYPT passwordStr saltBytes m.iterationCount (48 * 8),
        p.PBKDF2baseEncrptAndDecrypt firstEncryptWPukBytes .DECRYPT passwordStr saltBytes m.iterationCount (48 * 8),
        saltBytes)
  | _ => none

/-- The data of a run is that of its own key pair and salt, and a run with another pair issues
another wallet. -/
structure CarriesGenerated (p : Provider) (m : Platform) (generated other : Generated)
    (passwordStr : String) : Prop where
  own : ∃ privateKeyBytes publicKeyBytes,
    restoredKeys p m passwordStr (RestoreBlockchainWalletInfoGen p m generated passwordStr) =
        some (privateKeyBytes, publicKeyBytes, generated.SecureRandNumberGen) ∧
      bigInteger privateKeyBytes = generated.ecKP.getPrivateKey ∧
      bigInteger publicKeyBytes = generated.ecKP.getPublicKey
  distinct : other.ecKP ≠ generated.ecKP →
    RestoreBlockchainWalletInfoGen p m other passwordStr ≠
      RestoreBlockchainWalletInfoGen p m generated passwordStr

/-- The key pair of every restorable wallet. -/
def sourceKeys : KeyPair :=
  ⟨hexDecode privateKeyHex, hexDecode publicKeyHex, privateKeyHex_ne, publicKeyHex_ne⟩

theorem restoreInfoGen_eq (p : Provider) (m : Platform) (generated : Generated) (psw : String) :
    RestoreBlockchainWalletInfoGen p m generated psw =
      restoreHmac p m sourceKeys (hexDecode wSaltHex) psw ++ "%" ++
        restoreData p m sourceKeys (hexDecode wSaltHex) psw := by
  simp only [RestoreBlockchainWalletInfoGen, restoreHmac, restoreData, sourceKeys, String.append_assoc]

theorem restoredKeys_restoreInfoGen {p : Provider} (hp : p.Sound) (m : Platform) (generated : Generated)
    (psw : String) : restoredKeys p m psw (RestoreBlockchainWalletInfoGen p m generated psw) =
      some (hexDecode privateKeyHex, hexDecode publicKeyHex, hexDecode wSaltHex) := by
  have hparse := parseRestoreData_join hp
    (hp.firstEncrypt_ne sourceKeys.privateKey_ne psw (hexDecode wSaltHex) m.iterationCount)
    (hp.firstEncrypt_ne sourceKeys.publicKey_ne psw (hexDecode wSaltHex) m.iterationCount) wSaltHex_ne
  have htokens : tokens '%' (RestoreBlockchainWalletInfoGen p m generated psw) =
      [restoreHmac p m sourceKeys (hexDecode wSaltHex) psw, restoreData p m sourceKeys (hexDecode wSaltHex) psw] := by
    rw [restoreInfoGen_eq]
    show tokens '%' (_ ++ String.ofList ['%'] ++ _) = _
    rw [tokens_append, tokens_restoreData hp, restoreHmac, (hp.tokens_base64 (hp.hmac_ne _ _)).2]
    rfl
  rw [restoredKeys, htokens]
  simp only [restoreData]
  rw [hparse]
  simp only [Option.map_some, hp.pbkdf2Decrypt, hp.firstDecrypt, sourceKeys]

/-- **The user's own key** is carried for one generated key pair and salt only, and no two pairs are
told apart. -/
theorem restoreInfoGen_own {p : Provider} (hp : p.Sound) (m : Platform) (generated other : Generated)
    (psw : String) :
    CarriesGenerated p m generated other psw ↔
      generated.ecKP.getPrivateKey = bigInteger (hexDecode privateKeyHex) ∧
        generated.ecKP.getPublicKey = bigInteger (hexDecode publicKeyHex) ∧
        generated.SecureRandNumberGen = hexDecode wSaltHex ∧ other.ecKP = generated.ecKP := by
  have hkeys := restoredKeys_restoreInfoGen hp m generated psw
  constructor
  · rintro ⟨⟨prk, puk, hcarried, hprk, hpuk⟩, hdistinct⟩
    rw [hkeys, Option.some.injEq, Prod.mk.injEq, Prod.mk.injEq] at hcarried
    obtain ⟨rfl, rfl, hsalt⟩ := hcarried
    refine ⟨hprk.symm, hpuk.symm, hsalt.symm, ?_⟩
    by_contra hne
    exact hdistinct hne rfl
  · rintro ⟨hprk, hpuk, hsalt, hother⟩
    exact ⟨⟨_, _, by rw [hkeys, hsalt], hprk.symm, hpuk.symm⟩, fun hne => absurd hother hne⟩

/-- The generators that return what is written into the source. -/
def sourceGenerated : Generated where
  ecKP := ⟨bigInteger (hexDecode privateKeyHex), bigInteger (hexDecode publicKeyHex)⟩
  SecureRandNumberGen := hexDecode wSaltHex

theorem restoreInfoGen_own_source :
    CarriesGenerated .plain linux sourceGenerated sourceGenerated "654321" := by
  rw [restoreInfoGen_own Provider.plain_sound]
  simp only [sourceGenerated, and_self]

/-- The key pair `1` with the salt `1` is not carried. -/
theorem restoreInfoGen_other :
    ¬ CarriesGenerated .plain linux ⟨⟨1, 1⟩, [1]⟩ ⟨⟨2, 2⟩, [1]⟩ "654321" := by
  rintro ⟨⟨prk, puk, hcarried, _⟩, _⟩
  rw [restoredKeys_restoreInfoGen Provider.plain_sound, Option.some.injEq, Prod.mk.injEq, Prod.mk.injEq] at hcarried
  exact absurd hcarried.2.2 (by decide +kernel)

end MoaCrypto.Wallet
