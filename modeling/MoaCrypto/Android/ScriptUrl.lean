import MoaCrypto.Android.FailedCalls
import MoaCrypto.Web.Call

/-!
# The scripts as URLs (`Wallet.java`)

`generateSignedTransaction` and `verifiedSign` load a `javascript:` URL in which every argument stands between
quotes as it is.  The call arrives with these arguments exactly if the transaction, and the signature, are plain
(`arrivesExactly_iff`).
-/

namespace MoaCrypto.Android

open Act Web

def doGenerateUrl (curve : String) : String := "javascript:doGenerate('" ++ curve ++ "')"

def doSignUrl (curve signAlg msg prvkey : String) : String :=
  "javascript:doSign('" ++ curve ++ "', '" ++ signAlg ++ "', '" ++ msg ++ "', '" ++ prvkey ++ "')"

def doVerifyUrl (curve signAlg msg signVal pubkey : String) : String :=
  "javascript:doVerify('" ++ curve ++ "', '" ++ signAlg ++ "', '" ++ msg ++ "', '" ++ signVal ++ "', '" ++ pubkey ++
    "')"

/-- The text for `loadUrl`. -/
def Script.url : Script → String
  | .doGenerate curve => doGenerateUrl curve
  | .doSign curve signAlg msg prvkey => doSignUrl curve signAlg msg prvkey

/-- The text for `loadUrl`. -/
def verifiedSign (lib : Library) (transaction sign : String) : Act Device String := do
  let curve ← getValuesInPreferences .ECCCurve
  let signAlg ← getValuesInPreferences .SignatureAlg
  let pubkey ← getPublicKey lib
  pure (doVerifyUrl curve signAlg transaction sign pubkey)

section Urls

/-- The script is one call of `doSign` with the transaction, the settings and the decrypted key. -/
def SignsExactly (dec : Utf8Decoder) (lib : Library) (o : Outcomes) (transaction password : String) (d : Device)
    (script : Script) : Prop :=
  ∃ key, (getDecryptedPrivateKey lib o password d).1 = some key ∧
    IsCall dec script.url "doSign"
      [d.prefs .ECCCurve, d.prefs .SignatureAlg, transaction, byteArrayToHexString key]

/-- The URL is one call of `doVerify` with the transaction and the signature, the settings and the public key. -/
def VerifiesExactly (dec : Utf8Decoder) (lib : Library) (transaction sign : String) (d : Device) (url : String) :
    Prop :=
  ∃ pubkey, (getPublicKey lib d).1 = some pubkey ∧
    IsCall dec url "doVerify" [d.prefs .ECCCurve, d.prefs .SignatureAlg, transaction, sign, pubkey]

theorem toList_separator : "', '".toList = ['\'', ',', ' ', '\''] := rfl

theorem toList_end : "')".toList = ['\'', ')'] := rfl

theorem doSignUrl_eq (curve signAlg msg prvkey : String) :
    doSignUrl curve signAlg msg prvkey = callUrl "doSign" curve [signAlg, msg, prvkey] := by
  have hstart : "javascript:doSign('".toList = scheme.toList ++ ("doSign".toList ++ ['(', '\'']) := rfl
  refine String.toList_inj.mp (Eq.trans ?_ (toList_callUrl ..).symm)
  unfold doSignUrl
  simp only [String.toList_append, hstart, toList_separator, toList_end, List.append_assoc,
    List.cons_append, List.nil_append]
  rfl

theorem doVerifyUrl_eq (curve signAlg msg signVal pubkey : String) :
    doVerifyUrl curve signAlg msg signVal pubkey = callUrl "doVerify" curve [signAlg, msg, signVal, pubkey] := by
  have hstart : "javascript:doVerify('".toList = scheme.toList ++ ("doVerify".toList ++ ['(', '\'']) := rfl
  refine String.toList_inj.mp (Eq.trans ?_ (toList_callUrl ..).symm)
  unfold doVerifyUrl
  simp only [String.toList_append, hstart, toList_separator, toList_end, List.append_assoc,
    List.cons_append, List.nil_append]
  rfl

theorem plain_hexString (bytes : List UInt8) : Plain (byteArrayToHexString bytes).toList := by
  have hdigit : ∀ n : Fin 16, isIdentifierPart (Nat.digitChar n) = true := by decide
  refine plain_of_isIdentifierPart fun c hc => ?_
  rw [byteArrayToHexString, Java.encodeHexString, String.toList_ofList] at hc
  obtain ⟨b, -, hb⟩ := List.mem_flatMap.mp hc
  have hlt := b.toNat_lt
  rcases (by simpa [Java.hexByte] using hb : c = _ ∨ c = _) with rfl | rfl
  · exact hdigit ⟨b.toNat / 16, by omega⟩
  · exact hdigit ⟨b.toNat % 16, by omega⟩

variable {lib : Library} {o : Outcomes} {d : Device}

theorem verifiedSign_apply (transaction sign : String) :
    verifiedSign lib transaction sign d = ((getPublicKey lib d).1.map fun pubkey =>
      doVerifyUrl (d.prefs .ECCCurve) (d.prefs .SignatureAlg) transaction sign pubkey, d) := by
  rw [verifiedSign, getValuesInPreferences, gets_bind_apply, getValuesInPreferences, gets_bind_apply]
  cases hpuk : lib.decode58 (d.prefs .WalletPublicKey) with
  | none =>
    have hkey : getPublicKey lib d = (none, d) := by rw [getPublicKey_apply, hpuk, Option.map_none]
    rw [bind_of_none hkey, hkey]
    rfl
  | some puk =>
    have hkey : getPublicKey lib d = (some (byteArrayToHexString puk), d) := by
      rw [getPublicKey_apply, hpuk, Option.map_some]
    rw [bind_of_some hkey, hkey]
    rfl

theorem plain_getPublicKey {pubkey : String} (h : (getPublicKey lib d).1 = some pubkey) : Plain pubkey.toList := by
  rw [getPublicKey_apply] at h
  obtain ⟨puk, -, rfl⟩ := Option.map_eq_some_iff.mp h
  exact plain_hexString puk

variable (hd : Initialised d.prefs)

include hd

/-- A script that is posted has the decrypted key. -/
theorem generateSignedTransaction_posted {transaction password : String} {script : Script}
    (h : (generateSignedTransaction lib o transaction password d).1 = some (some script)) :
    ∃ key, (getDecryptedPrivateKey lib o password d).1 = some key ∧ script =
      .doSign (d.prefs .ECCCurve) (d.prefs .SignatureAlg) transaction (byteArrayToHexString key) := by
  have hframe : Leads Frame (getDecryptedPrivateKey lib o password) :=
    leadsAlong_getDecryptedPrivateKey (leads_getSalt lib o) password
  rw [generateSignedTransaction, gets_bind_apply] at h
  cases hpasses : checkMACData lib d.prefs password with
  | none =>
    rw [hpasses] at h
    cases h
  | some passes =>
    rw [hpasses, orThrow_some_bind_apply] at h
    cases passes with
    | false => cases h
    | true =>
      rw [if_neg (by decide)] at h
      have hinit := (hframe d).initialised hd
      cases hkey : getDecryptedPrivateKey lib o password d with
      | mk key d' =>
        rw [hkey] at hinit
        cases key with
        | none =>
          rw [bind_of_none hkey] at h
          cases h
        | some key =>
          rw [bind_of_some hkey] at h
          split at h
          · cases h
          · rw [gets_bind_apply] at h
            cases h
            refine ⟨key, rfl, ?_⟩
            rw [hinit .ECCCurve _ rfl, hinit .SignatureAlg _ rfl, hd .ECCCurve _ rfl, hd .SignatureAlg _ rfl]

theorem plain_settings : Plain (d.prefs .ECCCurve).toList ∧ Plain (d.prefs .SignatureAlg).toList := by
  rw [hd .ECCCurve _ rfl, hd .SignatureAlg _ rfl]
  exact ⟨plain_of_isName (by decide), plain_of_isName (by decide)⟩

theorem signsExactly_iff (dec : Utf8Decoder) {transaction password : String} {script : Script}
    (h : (generateSignedTransaction lib o transaction password d).1 = some (some script)) :
    SignsExactly dec lib o transaction password d script ↔ Plain transaction.toList := by
  obtain ⟨hcurve, halg⟩ := plain_settings hd
  obtain ⟨key, hkey, rfl⟩ := generateSignedTransaction_posted hd h
  have hcall := isCall_iff dec (show isName "doSign" = true by decide) (d.prefs .ECCCurve)
    [d.prefs .SignatureAlg, transaction, byteArrayToHexString key]
  rw [← doSignUrl_eq] at hcall
  constructor
  · rintro ⟨key', hkey', harrives⟩
    rw [hkey, Option.some.injEq] at hkey'
    subst hkey'
    exact hcall.mp harrives transaction (by simp)
  · intro hplain
    refine ⟨key, hkey, hcall.mpr ?_⟩
    simp only [List.forall_mem_cons]
    exact ⟨hcurve, halg, hplain, plain_hexString key, List.forall_mem_nil _⟩

theorem verifiesExactly_iff (dec : Utf8Decoder) {transaction sign url : String}
    (h : (verifiedSign lib transaction sign d).1 = some url) :
    VerifiesExactly dec lib transaction sign d url ↔ Plain transaction.toList ∧ Plain sign.toList := by
  obtain ⟨hcurve, halg⟩ := plain_settings hd
  rw [verifiedSign_apply] at h
  obtain ⟨puk, hpuk, rfl⟩ := Option.map_eq_some_iff.mp h
  have hcall := isCall_iff dec (show isName "doVerify" = true by decide) (d.prefs .ECCCurve)
    [d.prefs .SignatureAlg, transaction, sign, puk]
  rw [← doVerifyUrl_eq] at hcall
  constructor
  · rintro ⟨pubkey, hpubkey, harrives⟩
    rw [hpuk, Option.some.injEq] at hpubkey
    subst hpubkey
    have hplain := hcall.mp harrives
    exact ⟨hplain transaction (by simp), hplain sign (by simp)⟩
  · rintro ⟨htransaction, hsign⟩
    refine ⟨puk, hpuk, hcall.mpr ?_⟩
    simp only [List.forall_mem_cons]
    exact ⟨hcurve, halg, htransaction, hsign, plain_getPublicKey hpuk, List.forall_mem_nil _⟩

/-- **The given transaction is the one that arrives**, and with the given signature, exactly if both are plain. -/
theorem arrivesExactly_iff (dec : Utf8Decoder) (transaction : String) :
    (∀ password script, (generateSignedTransaction lib o transaction password d).1 = some (some script) →
      (SignsExactly dec lib o transaction password d script ↔ Plain transaction.toList)) ∧
    ∀ sign url, (verifiedSign lib transaction sign d).1 = some url →
      (VerifiesExactly dec lib transaction sign d url ↔ Plain transaction.toList ∧ Plain sign.toList) :=
  ⟨fun _ _ h => signsExactly_iff hd dec h, fun _ _ h => verifiesExactly_iff hd dec h⟩

end Urls

/-! ## A wallet that signs -/

/-- A device with a restored wallet. -/
def signingDevice : Device :=
  freshDevice.restored plain plainOutcomes "p" [1] (symmetricData plain plainOutcomes .ENCRYPT "p" [1] [7]) [4, 5]

theorem initialised_signingDevice : Initialised signingDevice.prefs :=
  initialised_restored (d := freshDevice) initialised_empty _ _ _ _

theorem posted_signingDevice (transaction : String) :
    (generateSignedTransaction plain plainOutcomes transaction "p" signingDevice).1 =
      some (some (.doSign "secp256r1" "SHA256withECDSA" transaction "07")) :=
  generateSignedTransaction_restored (d := freshDevice) plain_sound plainOutcomes_works initialised_empty
    plainOutcomes_works sameKey_plain (List.cons_ne_nil _ _) (List.cons_ne_nil _ _) (by decide) transaction

theorem loaded_signingDevice (transaction sign : String) : (verifiedSign plain transaction sign signingDevice).1 =
    some (doVerifyUrl (signingDevice.prefs .ECCCurve) (signingDevice.prefs .SignatureAlg) transaction sign
      (byteArrayToHexString [4, 5])) := by
  rw [verifiedSign_apply, signingDevice, getPublicKey_restored plain_sound]
  rfl

def payment : String := "\x7b\"to\":\"id\"\x7d"

theorem arrivesExactly_payment :
    SignsExactly .whole plain plainOutcomes payment "p" signingDevice
        (.doSign "secp256r1" "SHA256withECDSA" payment "07") ∧
      VerifiesExactly .whole plain payment "3006" signingDevice
        (doVerifyUrl (signingDevice.prefs .ECCCurve) (signingDevice.prefs .SignatureAlg) payment "3006"
          (byteArrayToHexString [4, 5])) := by
  have hiff := @arrivesExactly_iff plain plainOutcomes signingDevice initialised_signingDevice .whole payment
  have hplain : Plain payment.toList := by decide
  exact ⟨(hiff.1 "p" _ (posted_signingDevice _)).mpr hplain,
    (hiff.2 "3006" _ (loaded_signingDevice _ _)).mpr ⟨hplain, by decide⟩⟩

/-- A text in JSON with a quote in it. -/
def quotedMemo : String := "\x7b\"memo\":\"\\\"\"\x7d"

/-- Of the memo the script signs another text, without the backslash. -/
theorem not_signsExactly_quotedMemo :
    (generateSignedTransaction plain plainOutcomes quotedMemo "p" signingDevice).1 =
        some (some (.doSign "secp256r1" "SHA256withECDSA" quotedMemo "07")) ∧
      ¬ SignsExactly .whole plain plainOutcomes quotedMemo "p" signingDevice
        (.doSign "secp256r1" "SHA256withECDSA" quotedMemo "07") ∧
      IsCall .whole (Script.doSign "secp256r1" "SHA256withECDSA" quotedMemo "07").url "doSign"
        ["secp256r1", "SHA256withECDSA", "\x7b\"memo\":\"\"\"\x7d", "07"] := by
  refine ⟨posted_signingDevice _, fun hsigns => ?_, ?_⟩
  · have hplain := (signsExactly_iff initialised_signingDevice .whole (posted_signingDevice _)).mp hsigns
    exact absurd hplain (by decide)
  · have hunchanged : ∀ s ∈ ["secp256r1", "SHA256withECDSA", quotedMemo, "07"], Unchanged s.toList := by
      simp only [List.forall_mem_cons]
      exact ⟨by decide, by decide, by decide, by decide, List.forall_mem_nil _⟩
    rw [Script.url, doSignUrl_eq, IsCall, scriptOfUrl_unchanged _ (by decide) hunchanged, Option.bind_some]
    decide +kernel

end MoaCrypto.Android
