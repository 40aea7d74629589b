import MoaCrypto.Android.NoLoss
import MoaCrypto.Android.Restore

/-!
# Calls that do not store their wallet

`save(password, msg)` and the callback of a key pair store a wallet and tell the receiver.  The salt of a message
is written before RSA is asked, and the message of a key pair is handed over whether its wallet is stored or not.
A call that does not store its wallet changes nothing and is not reported exactly where `Clean` holds
(`allOrNothing_iff`).
-/

namespace MoaCrypto.Android

open Java Act

/-- The calls that store a wallet. -/
inductive StoringCall
  | save (password msg : String)
  | onSuccessKeyPair (prk puk : Option String)

section Calls

variable (lib : Library) (o : Outcomes)

/-- With the call of `onLibRestoreCompleted` or `onLibWalletCreated`, or without it. -/
def StoringCall.run : StoringCall → Act Device Bool
  | .save password msg => saveMsgReporting lib o password msg
  | .onSuccessKeyPair prk puk => do
    let msg ← Android.onSuccessKeyPair lib o prk puk
    pure msg.isSome

/-- The password, the second cipher of the private key and the public key of the wallet of a call. -/
def StoringCall.wallet (d : Device) : StoringCall → Option (String × List UInt8 × List UInt8)
  | .save password msg => do
    let (encPrk, encPuk, salt) ← restoreParts lib msg
    let s ← (d.prefs.putString .SaltValue (lib.encode58 salt)).salt lib o d.isPswInitMode
    some (password, getRSAData o .ENCRYPT encPrk, symmetricData lib o .DECRYPT password s encPuk)
  | .onSuccessKeyPair prk puk => do
    let prkBytes ← prk.bind hexStringToByteArray
    let pukBytes ← puk.bind hexStringToByteArray
    let salt ← d.salt lib o
    let first := symmetricData lib o .ENCRYPT d.password salt prkBytes
    some (d.password, if first = [] then [] else getRSAData o .ENCRYPT first, pukBytes)

/-- The preferences hold a wallet, which passes the check. -/
structure HoldsWallet (q : Prefs) (psw : String) (cipheredPrk puk : List UInt8) : Prop where
  cipheredPrk_ne : cipheredPrk ≠ []
  cipheredData : q .CipheredData = lib.encode58 cipheredPrk
  publicKey : q .WalletPublicKey = lib.encode58 puk
  addr : q .WalletAddr = lib.encode58 (address lib puk)
  passes : checkMACData lib q psw = some true

/-- The call stores its own wallet. -/
def StoringCall.Stored (call : StoringCall) (d : Device) : Prop :=
  ∃ psw cipheredPrk puk, call.wallet lib o d = some (psw, cipheredPrk, puk) ∧
    HoldsWallet lib (call.run lib o d).2.prefs psw cipheredPrk puk

end Calls

/-- Both preference files are as before. -/
def SamePrefs (d d' : Device) : Prop := d'.moaWallet = d.moaWallet ∧ d'.tempWallet = d.tempWallet

theorem samePrefs_setPrefs {d : Device} {q : Prefs} {password : String} :
    SamePrefs d { d.setPrefs q with password := password } ↔ q = d.prefs := by
  obtain ⟨main, temp, mode, _, _⟩ := d
  cases mode with
  | false => exact ⟨fun h => h.1, fun h => ⟨h, rfl⟩⟩
  | true => exact ⟨fun h => h.2, fun h => ⟨rfl, h⟩⟩

section Conditions

variable (lib : Library) (o : Outcomes)

/-- A call that does not store its wallet changes nothing and is not reported. -/
def StoringCall.AllOrNothing (call : StoringCall) (d : Device) : Prop :=
  ¬ call.Stored lib o d → SamePrefs d (call.run lib o d).2 ∧ (call.run lib o d).1 ≠ some true

/-- The text of the salt of a message, as it is stored; an empty one is replaced. -/
def messageSalt (d : Device) (salt : List UInt8) : String :=
  (d.prefs.putString .SaltValue (lib.encode58 salt)).salted lib o d.isPswInitMode .SaltValue

/-- Where RSA fails, a message has the salt that is stored.  Where a cipher of a private key fails, there is a salt,
and the message throws: the password is empty, and it is RSA that fails. -/
def StoringCall.Clean (d : Device) : StoringCall → Prop
  | .save _ msg => ∀ encPrk encPuk salt, d.receiver = true → msg ≠ "" →
    restoreParts lib msg = some (encPrk, encPuk, salt) → getRSAData o .ENCRYPT encPrk = [] →
    d.prefs .SaltValue = messageSalt lib o d salt
  | .onSuccessKeyPair prkText pukText => ∀ prk puk salt, d.receiver = true →
    prkText.bind hexStringToByteArray = some prk → pukText.bind hexStringToByteArray = some puk →
    d.salt lib o = some salt →
    (symmetricData lib o .ENCRYPT d.password salt prk = [] ∨
      getRSAData o .ENCRYPT (symmetricData lib o .ENCRYPT d.password salt prk) = []) →
    d.prefs .SaltValue ≠ "" ∧ d.password = "" ∧ symmetricData lib o .ENCRYPT d.password salt prk ≠ [] ∧
      symmetricData lib o .ENCRYPT d.password salt puk ≠ []

end Conditions

section Save

variable {lib : Library} (hlib : lib.Sound) {o : Outcomes} {d : Device} (hd : Initialised d.prefs)

/-- Without the report it is `saveMsg`. -/
theorem saveMsg_eq (lib : Library) (o : Outcomes) (password msg : String) :
    saveMsg lib o password msg = saveMsgReporting lib o password msg >>= fun _ => pure () := by
  rw [saveMsg, saveMsgReporting, bind_assoc]
  refine congrArg _ (funext fun d => ?_)
  by_cases hreceiver : d.receiver = false
  · rw [if_pos hreceiver, if_pos hreceiver]
    rfl
  · rw [if_neg hreceiver, if_neg hreceiver]
    by_cases hempty : msg = ""
    · rw [if_pos hempty, if_pos hempty]
      rfl
    · rw [if_neg hempty, if_neg hempty, bind_assoc]
      exact congrArg _ (funext fun parts => saveParts_eq lib o password _ _ _)

/-- Without parts nothing happens. -/
theorem saveMsgReporting_stop (password : String) {msg : String}
    (h : ¬ (d.receiver = true ∧ msg ≠ "" ∧ (restoreParts lib msg).isSome = true)) :
    (saveMsgReporting lib o password msg d).2 = d ∧ (saveMsgReporting lib o password msg d).1 ≠ some true := by
  rw [saveMsgReporting, get_bind_apply]
  by_cases hreceiver : d.receiver = false
  · rw [if_pos hreceiver]
    exact ⟨rfl, fun he => by cases he⟩
  · rw [if_neg hreceiver]
    by_cases hempty : msg = ""
    · rw [if_pos hempty]
      exact ⟨rfl, fun he => by cases he⟩
    · rw [if_neg hempty]
      cases hparts : restoreParts lib msg with
      | none => exact ⟨rfl, fun he => by cases he⟩
      | some parts => exact absurd ⟨by simpa using hreceiver, hempty, by rw [hparts]; rfl⟩ h

include hlib hd in
theorem saveMsgReporting_parts (hreceiver : d.receiver = true) {msg : String} (hmsg : msg ≠ "")
    {encPrk encPuk salt s : List UInt8} (hparts : restoreParts lib msg = some (encPrk, encPuk, salt))
    (hs : (d.prefs.putString .SaltValue (lib.encode58 salt)).salt lib o d.isPswInitMode = some s) (password : String) :
    saveMsgReporting lib o password msg d = (some (decide (getRSAData o .ENCRYPT encPrk ≠ [])),
      { d.setPrefs (((d.prefs.putString .SaltValue (lib.encode58 salt)).salted lib o d.isPswInitMode).restored lib o
        password s encPrk encPuk) with password := "" }) := by
  rw [saveMsgReporting, get_bind_apply, if_neg (by simp [hreceiver]), if_neg hmsg, hparts, orThrow_some_bind_apply]
  exact savePartsReporting_apply hlib hd password hs

/-- Of the salt only, the preferences are as before if it is. -/
theorem salted_putString_eq_iff (q : Prefs) (mode : Bool) (salt : List UInt8) :
    (q.putString .SaltValue (lib.encode58 salt)).salted lib o mode = q ↔
      q .SaltValue = (q.putString .SaltValue (lib.encode58 salt)).salted lib o mode .SaltValue := by
  constructor
  · intro he
    rw [he]
  · intro he
    funext key
    by_cases hkey : key = .SaltValue
    · rw [hkey, ← he]
    · rw [Prefs.salted_apply hkey, Prefs.putString_of_ne _ hkey]

include hlib hd in
/-- Where RSA works the wallet of the message is stored. -/
theorem stored_save (hreceiver : d.receiver = true) {msg : String} (hmsg : msg ≠ "")
    {encPrk encPuk salt : List UInt8} (hparts : restoreParts lib msg = some (encPrk, encPuk, salt))
    (hrsa : getRSAData o .ENCRYPT encPrk ≠ []) (password : String) :
    (StoringCall.save password msg).Stored lib o d := by
  obtain ⟨s, hs⟩ := exists_salt_putString (o := o) hlib d.prefs d.isPswInitMode salt
  have hsalt := (Prefs.decode_salted (o := o) hlib d.isPswInitMode _).trans hs
  have hinit : Initialised ((d.prefs.putString .SaltValue (lib.encode58 salt)).salted lib o d.isPswInitMode) :=
    (hd.putString rfl _).salted
  refine ⟨password, getRSAData o .ENCRYPT encPrk, symmetricData lib o .DECRYPT password s encPuk, ?_, ?_⟩
  · simp only [StoringCall.wallet, hparts, hs, Option.bind_eq_bind, Option.bind_some]
  · have hprefs : ((StoringCall.save password msg).run lib o d).2.prefs = walletPrefs lib
        ((d.prefs.putString .SaltValue (lib.encode58 salt)).salted lib o d.isPswInitMode) s password
        (lib.encode58 (getRSAData o .ENCRYPT encPrk))
        (lib.encode58 (symmetricData lib o .DECRYPT password s encPuk))
        (lib.encode58 (address lib (symmetricData lib o .DECRYPT password s encPuk))) := by
      rw [StoringCall.run, saveMsgReporting_parts hlib hd hreceiver hmsg hparts hs]
      show (d.setPrefs _).prefs = _
      rw [Device.prefs_setPrefs, Prefs.restored, if_neg hrsa]
    rw [hprefs]
    exact ⟨hrsa, rfl, rfl, rfl, passes_walletPrefs hlib hinit hsalt _ _ _ (hlib.encode58_ne _ (address_ne hlib _))⟩

include hlib hd in
theorem allOrNothing_save_iff (password msg : String) :
    (StoringCall.save password msg).AllOrNothing lib o d ↔ (StoringCall.save password msg).Clean lib o d := by
  by_cases hstop : d.receiver = true ∧ msg ≠ "" ∧ (restoreParts lib msg).isSome = true
  · obtain ⟨hreceiver, hmsg, hsome⟩ := hstop
    obtain ⟨⟨encPrk, encPuk, salt⟩, hparts⟩ := Option.isSome_iff_exists.mp hsome
    obtain ⟨s, hs⟩ := exists_salt_putString (o := o) hlib d.prefs d.isPswInitMode salt
    have hrun := saveMsgReporting_parts hlib hd hreceiver hmsg hparts hs password
    by_cases hrsa : getRSAData o .ENCRYPT encPrk = []
    · have hnot : ¬ (StoringCall.save password msg).Stored lib o d := by
        rintro ⟨psw, cipheredPrk, puk, hwallet, hholds⟩
        simp only [StoringCall.wallet, hparts, hs, Option.bind_eq_bind, Option.bind_some, Option.some.injEq,
          Prod.mk.injEq] at hwallet
        exact hholds.cipheredPrk_ne (hwallet.2.1.symm.trans hrsa)
      have hsame : SamePrefs d ((StoringCall.save password msg).run lib o d).2 ↔
          d.prefs .SaltValue = messageSalt lib o d salt := by
        rw [StoringCall.run, hrun, samePrefs_setPrefs, Prefs.restored, if_pos hrsa]
        exact salted_putString_eq_iff _ _ _
      have hreport : ((StoringCall.save password msg).run lib o d).1 ≠ some true := by
        rw [StoringCall.run, hrun, decide_eq_false (not_not.mpr hrsa)]
        intro he
        cases he
      constructor
      · intro hall encPrk' encPuk' salt' _ _ hparts' _
        rw [hparts, Option.some.injEq, Prod.mk.injEq, Prod.mk.injEq] at hparts'
        rw [← hparts'.2.2]
        exact hsame.mp (hall hnot).1
      · intro hclean _
        exact ⟨hsame.mpr (hclean encPrk encPuk salt hreceiver hmsg hparts hrsa), hreport⟩
    · refine ⟨fun _ encPrk' encPuk' salt' _ _ hparts' hfails => ?_, fun _ hnot => ?_⟩
      · rw [hparts, Option.some.injEq, Prod.mk.injEq] at hparts'
        exact absurd (hparts'.1 ▸ hfails) hrsa
      · exact absurd (stored_save hlib hd hreceiver hmsg hparts hrsa password) hnot
  · obtain ⟨hsame, hreport⟩ := saveMsgReporting_stop (o := o) password hstop
    refine ⟨fun _ encPrk encPuk salt hreceiver hmsg hparts _ => ?_, fun _ _ => ⟨?_, hreport⟩⟩
    · exact absurd ⟨hreceiver, hmsg, by rw [hparts]; rfl⟩ hstop
    · rw [StoringCall.run, hsame]
      exact ⟨rfl, rfl⟩

end Save

section KeyPair

variable {lib : Library} (hlib : lib.Sound) {o : Outcomes} {d : Device} (hd : Initialised d.prefs)

/-- The state is that after the callback, which is reported if it has a message. -/
theorem run_onSuccessKeyPair (prk puk : Option String) :
    (StoringCall.onSuccessKeyPair prk puk).run lib o d =
      ((onSuccessKeyPair lib o prk puk d).1.map Option.isSome, (onSuccessKeyPair lib o prk puk d).2) := by
  rw [StoringCall.run]
  cases h : onSuccessKeyPair lib o prk puk d with
  | mk result d' =>
    cases result with
    | none =>
      rw [bind_of_none h]
      rfl
    | some msg =>
      rw [bind_of_some h]
      rfl

/-- It is not reported if the message throws. -/
theorem reported_created {psw : String} {salt prk puk : List UInt8} :
    ((createdMessage lib o psw salt prk puk).map some).map Option.isSome ≠ some true ↔ psw = "" ∧
      symmetricData lib o .ENCRYPT psw salt prk ≠ [] ∧ symmetricData lib o .ENCRYPT psw salt puk ≠ [] := by
  rw [createdMessage]
  by_cases hempty : symmetricData lib o .ENCRYPT psw salt prk = [] ∨ symmetricData lib o .ENCRYPT psw salt puk = []
  · rw [if_pos hempty]
    exact ⟨fun hne => absurd rfl hne, fun h => absurd hempty (not_or.mpr h.2)⟩
  · rw [if_neg hempty]
    by_cases hpassword : utf8 psw = []
    · rw [if_pos hpassword]
      exact ⟨fun _ => ⟨utf8_injective hpassword, not_or.mp hempty⟩, fun _ he => by cases he⟩
    · rw [if_neg hpassword]
      refine ⟨fun hne => absurd rfl hne, fun h => absurd ?_ hpassword⟩
      rw [h.1]
      rfl

theorem salted_eq_iff (hlib : lib.Sound) (d : Device) :
    d.prefs.salted lib o d.isPswInitMode = d.prefs ↔ d.prefs .SaltValue ≠ "" := by
  constructor
  · intro he
    rw [← he]
    exact Prefs.salted_ne hlib _ _
  · exact Prefs.salted_of_ne

include hlib hd in
/-- Where the ciphers work the wallet of the key pair is stored. -/
theorem stored_onSuccessKeyPair (hreceiver : d.receiver = true) {prkText pukText : String} {prk puk salt : List UInt8}
    (hprk : hexStringToByteArray prkText = some prk) (hpuk : hexStringToByteArray pukText = some puk)
    (hsalt : d.salt lib o = some salt) (hfirst : symmetricData lib o .ENCRYPT d.password salt prk ≠ [])
    (hrsa : getRSAData o .ENCRYPT (symmetricData lib o .ENCRYPT d.password salt prk) ≠ []) :
    (StoringCall.onSuccessKeyPair (some prkText) (some pukText)).Stored lib o d := by
  have hdecode := (Prefs.decode_salted (o := o) hlib d.isPswInitMode d.prefs).trans hsalt
  refine ⟨d.password, getRSAData o .ENCRYPT (symmetricData lib o .ENCRYPT d.password salt prk), puk, ?_, ?_⟩
  · simp only [StoringCall.wallet, Option.bind_eq_bind, Option.bind_some, hprk, hpuk, hsalt, if_neg hfirst]
  · have hprefs : ((StoringCall.onSuccessKeyPair (some prkText) (some pukText)).run lib o d).2.prefs =
        walletPrefs lib (d.prefs.salted lib o d.isPswInitMode) salt d.password
          (lib.encode58 (getRSAData o .ENCRYPT (symmetricData lib o .ENCRYPT d.password salt prk)))
          (lib.encode58 puk) (lib.encode58 (address lib puk)) := by
      have hsaved : d.saved lib o salt prk puk = (d.salted lib o).setPrefs _ := if_neg (not_or.mpr ⟨hfirst, hrsa⟩)
      rw [run_onSuccessKeyPair, onSuccessKeyPair_texts hlib hd hreceiver hprk hpuk hsalt]
      show (d.saved lib o salt prk puk).prefs = _
      rw [hsaved, Device.prefs_setPrefs, Device.prefs_salted]
    rw [hprefs]
    exact ⟨hrsa, rfl, rfl, rfl, passes_walletPrefs hlib hd.salted hdecode _ _ _
      (hlib.encode58_ne _ (address_ne hlib _))⟩

include hlib hd in
theorem allOrNothing_onSuccessKeyPair_iff (prkText pukText : Option String) :
    (StoringCall.onSuccessKeyPair prkText pukText).AllOrNothing lib o d ↔
      (StoringCall.onSuccessKeyPair prkText pukText).Clean lib o d := by
  by_cases hparts : d.receiver = true ∧ ∃ prk puk salt, prkText.bind hexStringToByteArray = some prk ∧
      pukText.bind hexStringToByteArray = some puk ∧ d.salt lib o = some salt
  · obtain ⟨hreceiver, prk, puk, salt, hprk, hpuk, hsalt⟩ := hparts
    obtain ⟨prkText, rfl, hprkText⟩ := Option.bind_eq_some_iff.mp hprk
    obtain ⟨pukText, rfl, hpukText⟩ := Option.bind_eq_some_iff.mp hpuk
    by_cases hfails : symmetricData lib o .ENCRYPT d.password salt prk = [] ∨
        getRSAData o .ENCRYPT (symmetricData lib o .ENCRYPT d.password salt prk) = []
    · have hnot : ¬ (StoringCall.onSuccessKeyPair (some prkText) (some pukText)).Stored lib o d := by
        rintro ⟨psw, cipheredPrk, puk', hwallet, hholds⟩
        simp only [StoringCall.wallet, Option.bind_eq_bind, hprk, hpuk, hsalt, Option.bind_some, Option.some.injEq,
          Prod.mk.injEq] at hwallet
        refine hholds.cipheredPrk_ne ?_
        rw [← hwallet.2.1]
        split
        · rfl
        · exact hfails.resolve_left ‹_›
      have hrun := @run_onSuccessKeyPair lib o d (some prkText) (some pukText)
      have hsaved : d.saved lib o salt prk puk = d.setPrefs (d.prefs.salted lib o d.isPswInitMode) := if_pos hfails
      rw [onSuccessKeyPair_texts hlib hd hreceiver hprkText hpukText hsalt, hsaved] at hrun
      have hsame : SamePrefs d ((StoringCall.onSuccessKeyPair (some prkText) (some pukText)).run lib o d).2 ↔
          d.prefs .SaltValue ≠ "" := by
        rw [hrun, samePrefs_setPrefs, salted_eq_iff hlib]
      have hreport : ((StoringCall.onSuccessKeyPair (some prkText) (some pukText)).run lib o d).1 ≠ some true ↔
          d.password = "" ∧ symmetricData lib o .ENCRYPT d.password salt prk ≠ [] ∧
            symmetricData lib o .ENCRYPT d.password salt puk ≠ [] := by
        rw [hrun]
        exact reported_created
      constructor
      · intro hall prk' puk' salt' _ hprk' hpuk' hsalt' _
        rw [hprk, Option.some.injEq] at hprk'
        rw [hpuk, Option.some.injEq] at hpuk'
        rw [hsalt, Option.some.injEq] at hsalt'
        rw [← hprk', ← hpuk', ← hsalt']
        exact ⟨hsame.mp (hall hnot).1, hreport.mp (hall hnot).2⟩
      · intro hclean _
        obtain ⟨hstored, hthrows⟩ := hclean prk puk salt hreceiver hprk hpuk hsalt hfails
        exact ⟨hsame.mpr hstored, hreport.mpr hthrows⟩
    · refine ⟨fun _ prk' puk' salt' _ hprk' _ hsalt' hfails' => ?_, fun _ hnot => ?_⟩
      · rw [hprk, Option.some.injEq] at hprk'
        rw [hsalt, Option.some.injEq] at hsalt'
        rw [← hprk', ← hsalt'] at hfails'
        exact absurd hfails' hfails
      · obtain ⟨hfirst, hrsa⟩ := not_or.mp hfails
        exact absurd (stored_onSuccessKeyPair hlib hd hreceiver hprkText hpukText hsalt hfirst hrsa) hnot
  · rcases onSuccessKeyPair_cases (o := o) hlib hd prkText pukText with
      ⟨hsame, hreport⟩ | ⟨hreceiver, prkText', pukText', prk, puk, salt, rfl, rfl, hprk, hpuk, hsalt⟩
    · refine ⟨fun _ prk puk salt hreceiver hprk hpuk hsalt _ => ?_, fun _ _ => ?_⟩
      · exact absurd ⟨hreceiver, prk, puk, salt, hprk, hpuk, hsalt⟩ hparts
      · rw [run_onSuccessKeyPair, hsame]
        refine ⟨⟨rfl, rfl⟩, fun he => ?_⟩
        obtain ⟨msg, hmsg, hsome⟩ := Option.map_eq_some_iff.mp he
        obtain ⟨text, rfl⟩ := Option.isSome_iff_exists.mp hsome
        exact hreport text hmsg
    · exact absurd ⟨hreceiver, prk, puk, salt, hprk, hpuk, hsalt⟩ hparts

end KeyPair

/-- A new device on which a key pair is asked for. -/
def requestedDevice : Device := { freshDevice with password := "p" }

theorem initialised_requestedDevice : Initialised requestedDevice.prefs := initialised_empty

theorem salt_requestedDevice : requestedDevice.salt plain plainOutcomes = some (List.replicate 32 1) := rfl

/-- A device with the wallet of `plainHexKeys`. -/
def storedDevice : Device :=
  (onSuccessKeyPair plain plainOutcomes (some plainHexKeys.ecprvhex) (some plainHexKeys.ecpubhex)
    requestedDevice).2

theorem storedDevice_eq : storedDevice = { requestedDevice.saved plain plainOutcomes (List.replicate 32 1) [7] [4, 5]
    with password := "" } := by
  rw [storedDevice, onSuccessKeyPair_apply plain_sound initialised_requestedDevice rfl
    (stores_fresh plain "p").privateKey (stores_fresh plain "p").publicKey salt_requestedDevice]

theorem initialised_storedDevice : Initialised storedDevice.prefs := by
  rw [storedDevice]
  exact (leads_onSuccessKeyPair plain plainOutcomes _ _ requestedDevice).initialised initialised_requestedDevice

theorem verifies_storedDevice : Verifies plain storedDevice.prefs "p" := by
  rw [storedDevice]
  exact verifies_onSuccessKeyPair plain_sound initialised_requestedDevice (stores_fresh plain "p")

theorem receiver_storedDevice : storedDevice.receiver = true := by
  rw [storedDevice_eq]
  rfl

theorem decode_storedDevice : plain.decode58 (storedDevice.prefs .SaltValue) = some (List.replicate 32 1) := by
  have hsalt : storedDevice.prefs .SaltValue = plain.encode58 (List.replicate 32 1) := by
    rw [storedDevice_eq]
    exact Device.prefs_saved_salt plain_sound _ _ _ _
  rw [hsalt, plain_sound.decode58]

/-- A message with a salt of its own. -/
def otherMessage : String :=
  Base64.encode [7] ++ "$" ++ Base64.encode [4, 5] ++ "$" ++ Base64.encode [9]

theorem restoreParts_otherMessage : restoreParts plain otherMessage = some ([7], [4, 5], [9]) :=
  restoreParts_restoreMsg plain_sound (List.cons_ne_nil _ _) (List.cons_ne_nil _ _) (List.cons_ne_nil _ _)

end MoaCrypto.Android
