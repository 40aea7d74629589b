import MoaCrypto.Android.Reset

/-!
# A restore on Android

`restoreWallet` checks the HMAC of a message under the password and stores its parts.  Of a message that
`generateRestoreDataFormat` has made, under the same password, it makes a wallet (`restoreWallet_apply`)
that signs with the private key of the message (`generateSignedTransaction_restored`) and shows its public
key (`getPublicKey_restored`).
-/

namespace MoaCrypto.Android

open Java

/-! ## The message -/

section Message

variable {lib : Library} (hlib : lib.Sound)

include hlib

theorem split_restoreMessage (psw : String) (salt encPrk encPuk : List UInt8) :
    split '%' (restoreMessage lib psw salt encPrk encPuk) =
      [lib.encode64 (lib.hmacSha256 encPuk (utf8 psw)), restoreMsg lib salt encPrk encPuk] := by
  rw [restoreMessage_eq]
  exact split_two (hlib.encode64 _).2 (percent_not_mem_restoreMsg hlib _ _ _) (restoreMsg_ne _ _ _)

theorem restoreMessage_ne (psw : String) (salt encPrk encPuk : List UInt8) :
    restoreMessage lib psw salt encPrk encPuk ≠ "" := by
  intro he
  have htokens := tokens_restoreMessage hlib psw salt encPrk encPuk
  rw [he] at htokens
  cases htokens

/-- The check passes under the password of the message. -/
theorem verifyHmacPsw_restoreMessage {q : Prefs} (hq : MacSettings q) {psw : String} (hpsw : utf8 psw ≠ [])
    {salt : List UInt8} (hsalt : salt ≠ []) (encPrk encPuk : List UInt8) :
    verifyHmacPsw lib q psw (restoreMessage lib psw salt encPrk encPuk) = some true := by
  have hparts : split '$' (restoreMsg lib salt encPrk encPuk) =
      [lib.encode64 encPrk, lib.encode64 encPuk, lib.encode64 salt] :=
    split_three (hlib.encode64 _).1 (hlib.encode64 _).1 (hlib.encode64 _).1 (hlib.encode64_ne salt hsalt)
  rw [verifyHmacPsw, if_neg (restoreMessage_ne hlib _ _ _ _), tokens_restoreMessage hlib]
  simp only [hlib.decode64, hparts, hmacDigest, hq.macAlg, hlib.mac_HmacSHA256, if_neg hpsw, Option.bind_eq_bind,
    Option.bind_some, List.getElem?_cons_succ, List.getElem?_cons_zero, decide_true]

theorem restoreParts_restoreMsg {salt encPrk encPuk : List UInt8} (hprk : encPrk ≠ []) (hpuk : encPuk ≠ [])
    (hsalt : salt ≠ []) : restoreParts lib (restoreMsg lib salt encPrk encPuk) = some (encPrk, encPuk, salt) := by
  have htokens : tokens '$' (restoreMsg lib salt encPrk encPuk) = _ := tokens_restoreMsg hlib hprk hpuk hsalt
  rw [restoreParts, htokens]
  simp only [hlib.decode64, Option.bind_eq_bind, Option.bind_some]

end Message

/-! ## The restored wallet -/

section Restored

variable {lib : Library} (hlib : lib.Sound) {o : Outcomes} (ho : o.Works lib) {d : Device}
  (hq : Initialised d.prefs)

/-- The device with the wallet of a key pair, from its first ciphers. -/
def Device.restored (lib : Library) (o : Outcomes) (psw : String) (salt encPrk puk : List UInt8) (d : Device) :
    Device :=
  { d.setPrefs (walletPrefs lib (d.prefs.putString .SaltValue (lib.encode58 salt)) salt psw
      (lib.encode58 (getRSAData o .ENCRYPT encPrk)) (lib.encode58 puk) (lib.encode58 (address lib puk))) with
    password := "" }

theorem prefs_restored (psw : String) (salt encPrk puk : List UInt8) :
    (d.restored lib o psw salt encPrk puk).prefs =
      walletPrefs lib (d.prefs.putString .SaltValue (lib.encode58 salt)) salt psw
        (lib.encode58 (getRSAData o .ENCRYPT encPrk)) (lib.encode58 puk) (lib.encode58 (address lib puk)) :=
  Device.prefs_setPrefs d _

include hq in
theorem initialised_restored (psw : String) (salt encPrk puk : List UInt8) :
    Initialised (d.restored lib o psw salt encPrk puk).prefs := by
  rw [prefs_restored]
  exact initialised_walletPrefs (hq.putString rfl _) _ _ _ _ _

include hlib hq in
/-- A message is stored under its own password. -/
theorem restoreWallet_apply (hreceiver : d.receiver = true) {psw : String} (hpsw : utf8 psw ≠ [])
    {salt encPrk encPuk : List UInt8} (hsalt : salt ≠ []) (hprk : encPrk ≠ []) (hpuk : encPuk ≠ [])
    (hrsa : getRSAData o .ENCRYPT encPrk ≠ []) :
    restoreWallet lib o psw (restoreMessage lib psw salt encPrk encPuk) d =
      (some (), d.restored lib o psw salt encPrk (symmetricData lib o .DECRYPT psw salt encPuk)) := by
  have hstored : d.prefs.putString .SaltValue (lib.encode58 salt) .SaltValue ≠ "" := by
    rw [Prefs.putString_self]
    exact hlib.encode58_ne salt hsalt
  have hsaltOf : (d.prefs.putString .SaltValue (lib.encode58 salt)).salt lib o d.isPswInitMode = some salt := by
    rw [Prefs.salt, if_neg hstored, Prefs.putString_self, hlib.decode58]
  have hsave := @saveParts_apply lib o d hlib hq psw encPrk encPuk salt salt hsaltOf
  have hno : ¬ d.receiver = false := by
    rw [hreceiver]
    decide
  rw [restoreWallet, Act.gets_bind_apply, verifyHmacPsw_restoreMessage hlib hq.macSettings hpsw hsalt,
    Act.orThrow_some_bind_apply, if_pos rfl, split_restoreMessage hlib]
  show saveMsg lib o psw (restoreMsg lib salt encPrk encPuk) d = _
  rw [saveMsg, Act.get_bind_apply, if_neg hno, if_neg (restoreMsg_ne _ _ _),
    restoreParts_restoreMsg hlib hprk hpuk hsalt, Act.orThrow_some_bind_apply]
  show saveParts lib o psw encPrk encPuk salt d = _
  rw [hsave, Prefs.salted_of_ne hstored, Prefs.restored, if_neg hrsa]
  rfl

include hlib hq in
theorem passes_restored (psw : String) (salt encPrk puk : List UInt8) :
    checkMACData lib (d.restored lib o psw salt encPrk puk).prefs psw = some true := by
  rw [prefs_restored]
  refine passes_walletPrefs hlib (hq.putString rfl _) ?_ _ _ _ (hlib.encode58_ne _ (address_ne hlib puk))
  rw [Prefs.putString_self, hlib.decode58]

include hlib hq ho in
/-- A restored wallet signs with the private key. -/
theorem generateSignedTransaction_restored {check : Outcomes} (hcheck : check.Works lib) (hkey : SameKey o check)
    {psw : String} {salt prk puk : List UInt8} (hsalt : salt ≠ []) (hprk : prk ≠ []) (hlength : prk.length ≤ 245)
    (transaction : String) :
    (generateSignedTransaction lib check transaction psw
      (d.restored lib o psw salt (symmetricData lib o .ENCRYPT psw salt prk) puk)).1 =
      some (some (.doSign "secp256r1" "SHA256withECDSA" transaction (byteArrayToHexString prk))) := by
  generalize hd' : d.restored lib o psw salt (symmetricData lib o .ENCRYPT psw salt prk) puk = d'
  have hinit : Initialised d'.prefs := hd' ▸ initialised_restored hq _ _ _ _
  have hpasses : checkMACData lib d'.prefs psw = some true := hd' ▸ passes_restored hlib hq _ _ _ _
  have htext : d'.prefs .SaltValue = lib.encode58 salt := by
    rw [← hd', prefs_restored]
    rfl
  have hcipher : d'.prefs .CipheredData =
      lib.encode58 (getRSAData o .ENCRYPT (symmetricData lib o .ENCRYPT psw salt prk)) := by
    rw [← hd', prefs_restored]
    rfl
  have hdecrypted := getDecryptedPrivateKey_saved hlib ho hcheck hkey hinit hsalt htext hlength hcipher
  have hcurve : d'.prefs .ECCCurve = "secp256r1" := hinit _ _ rfl
  have halg : d'.prefs .SignatureAlg = "SHA256withECDSA" := hinit _ _ rfl
  rw [generateSignedTransaction, Act.gets_bind_apply, hpasses, Act.orThrow_some_bind_apply, if_neg (by decide),
    Act.bind_of_some hdecrypted, if_neg hprk, Act.gets_bind_apply, hcurve, halg]
  rfl

theorem getPublicKey_apply (lib : Library) (d : Device) :
    getPublicKey lib d = ((lib.decode58 (d.prefs .WalletPublicKey)).map byteArrayToHexString, d) := by
  rw [getPublicKey, getValuesInPreferences, Act.gets_bind_apply]
  cases lib.decode58 (d.prefs .WalletPublicKey) <;> rfl

include hlib in
theorem getPublicKey_restored (psw : String) (salt encPrk puk : List UInt8) :
    (getPublicKey lib (d.restored lib o psw salt encPrk puk)).1 = some (byteArrayToHexString puk) := by
  have hpuk : (d.restored lib o psw salt encPrk puk).prefs .WalletPublicKey = lib.encode58 puk := by
    rw [prefs_restored]
    rfl
  rw [getPublicKey_apply, hpuk, hlib.decode58, Option.map_some]

end Restored

end MoaCrypto.Android
