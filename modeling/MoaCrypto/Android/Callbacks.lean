import MoaCrypto.Android.Frame
import MoaCrypto.Android.Reset
import MoaCrypto.Lib.Run

/-!
# The scripts of the web view and their callbacks (`Wallet.java`, `ECDSA.html`)

`create` posts a script and leaves its password in a field; the callback of the script stores the key pair
under what the field holds by then.  In between other calls and callbacks may have written the field.  A
`World` is a device with the scripts that are on their way, whose callbacks come in any order; every
callback stores its key pair under the password of its own `create` in a run in which the field was last
written with this password (`keyPair_stored_under_requested`).
-/

namespace MoaCrypto.Android

open Java StepRun Act

/-! ## The callback of a key pair -/

/-- What `generateKeyPairHex` gives: the texts of a private key and of an uncompressed public key. -/
structure HexKeyPair where
  ecprvhex : String
  ecpubhex : String
  uncompressed : "04".toList <+: ecpubhex.toList

theorem hexChars_eq_nil {cs : List Char} (h : hexChars cs = some []) : cs = [] := by
  match cs, h with
  | [], _ => rfl
  | _ :: _ :: _, h =>
    obtain ⟨bytes, _, hcons⟩ := Option.map_eq_some_iff.mp h
    cases hcons

/-- The public key that is handed over is not empty. -/
theorem HexKeyPair.publicKey_ne (keys : HexKeyPair) {puk : List UInt8}
    (h : hexStringToByteArray keys.ecpubhex = some puk) : puk ≠ [] := by
  rintro rfl
  have hnil := hexChars_eq_nil h
  have hprefix := keys.uncompressed
  rw [hnil] at hprefix
  exact absurd (List.prefix_nil.mp hprefix) (by decide)

section KeyPair

variable {lib : Library} {o : Outcomes} {d : Device}

/-- The callback stores a wallet: there is a receiver, the texts are arrays, and no cipher fails. -/
structure Stores (lib : Library) (o : Outcomes) (keys : HexKeyPair) (d : Device) (salt prk puk : List UInt8) :
    Prop where
  receiver : d.receiver = true
  privateKey : hexStringToByteArray keys.ecprvhex = some prk
  publicKey : hexStringToByteArray keys.ecpubhex = some puk
  salt_eq : d.salt lib o = some salt
  symmetric_ne : symmetricData lib o .ENCRYPT d.password salt prk ≠ []
  rsa_ne : getRSAData o .ENCRYPT (symmetricData lib o .ENCRYPT d.password salt prk) ≠ []

/-- The callback gets as far as to store the wallet. -/
def Arrives (lib : Library) (o : Outcomes) (keys : HexKeyPair) (d : Device) : Prop :=
  d.receiver = true ∧ (hexStringToByteArray keys.ecprvhex).isSome = true ∧
    (hexStringToByteArray keys.ecpubhex).isSome = true ∧ (d.salt lib o).isSome = true

instance (lib : Library) (o : Outcomes) (keys : HexKeyPair) (d : Device) : Decidable (Arrives lib o keys d) :=
  inferInstanceAs (Decidable (_ ∧ _))

namespace Device

/-- The fields of a wallet are written together, or a missing salt at most. -/
theorem saved_cases (hlib : lib.Sound) (salt prk puk : List UInt8) (d : Device) :
    d.saved lib o salt prk puk = d.salted lib o ∨
      ∃ cipheredPrk, cipheredPrk ≠ "" ∧ d.saved lib o salt prk puk = (d.salted lib o).setPrefs
        (walletPrefs lib (d.salted lib o).prefs salt d.password cipheredPrk (lib.encode58 puk)
          (lib.encode58 (address lib puk))) := by
  by_cases h : symmetricData lib o .ENCRYPT d.password salt prk = [] ∨
      getRSAData o .ENCRYPT (symmetricData lib o .ENCRYPT d.password salt prk) = []
  · exact Or.inl (if_pos h)
  · exact Or.inr ⟨_, hlib.encode58_ne _ (not_or.mp h).2, if_neg h⟩

variable (hlib : lib.Sound)

include hlib

theorem password_saved (salt prk puk : List UInt8) (d : Device) :
    (d.saved lib o salt prk puk).password = d.password := by
  rcases saved_cases (o := o) hlib salt prk puk d with h | ⟨_, _, h⟩
  · rw [h, password_salted]
  · rw [h, password_setPrefs, password_salted]

/-- The salt is not written. -/
theorem prefs_saved_salt (salt prk puk : List UInt8) (d : Device) :
    (d.saved lib o salt prk puk).prefs .SaltValue = d.prefs.salted lib o d.isPswInitMode .SaltValue := by
  rcases saved_cases (o := o) hlib salt prk puk d with h | ⟨_, _, h⟩
  · rw [h, prefs_salted]
  · rw [h, prefs_setPrefs, ← prefs_salted]
    rfl

theorem salt_saved {salt : List UInt8} (hsalt : d.salt lib o = some salt) (prk puk : List UInt8) :
    (d.saved lib o salt prk puk).salt lib o = some salt := by
  rw [Device.salt, Prefs.salt, prefs_saved_salt hlib, if_neg (Prefs.salted_ne hlib _ _), Prefs.decode_salted hlib]
  exact hsalt

theorem initialised_saved (hd : Initialised d.prefs) (salt prk puk : List UInt8) :
    Initialised (d.saved lib o salt prk puk).prefs := by
  have hsalted : Initialised (d.salted lib o).prefs := by
    rw [prefs_salted]
    exact hd.salted
  rcases saved_cases (o := o) hlib salt prk puk d with h | ⟨_, _, h⟩
  · rwa [h]
  · rw [h, prefs_setPrefs]
    exact initialised_walletPrefs hsalted _ _ _ _ _

omit hlib in
/-- If no cipher fails the wallet is stored as a whole. -/
theorem prefs_saved {keys : HexKeyPair} {salt prk puk : List UInt8} (h : Stores lib o keys d salt prk puk) :
    (d.saved lib o salt prk puk).prefs = walletPrefs lib (d.prefs.salted lib o d.isPswInitMode) salt d.password
      (lib.encode58 (getRSAData o .ENCRYPT (symmetricData lib o .ENCRYPT d.password salt prk)))
      (lib.encode58 puk) (lib.encode58 (address lib puk)) := by
  have hsaved : d.saved lib o salt prk puk = (d.salted lib o).setPrefs _ :=
    if_neg (not_or.mpr ⟨h.symmetric_ne, h.rsa_ne⟩)
  rw [hsaved, prefs_setPrefs, prefs_salted]

end Device

variable (hlib : lib.Sound) (hd : Initialised d.prefs)

/-- The message of a key pair, which an empty password makes throw. -/
def createdMessage (lib : Library) (o : Outcomes) (psw : String) (salt prk puk : List UInt8) : Option String :=
  if symmetricData lib o .ENCRYPT psw salt prk = [] ∨ symmetricData lib o .ENCRYPT psw salt puk = [] then some ""
  else if utf8 psw = [] then none
  else some (restoreMessage lib psw salt (symmetricData lib o .ENCRYPT psw salt prk)
    (symmetricData lib o .ENCRYPT psw salt puk))

include hlib hd in
/-- The field is cleared, also where the message throws. -/
theorem onSuccessKeyPair_texts {prkText pukText : String} {prk puk salt : List UInt8} (hreceiver : d.receiver = true)
    (hprk : hexStringToByteArray prkText = some prk) (hpuk : hexStringToByteArray pukText = some puk)
    (hsalt : d.salt lib o = some salt) :
    onSuccessKeyPair lib o (some prkText) (some pukText) d =
      ((createdMessage lib o d.password salt prk puk).map some,
        { d.saved lib o salt prk puk with password := "" }) := by
  have hne : (d.saved lib o salt prk puk).prefs .SaltValue ≠ "" := by
    rw [Device.prefs_saved_salt hlib]
    exact Prefs.salted_ne hlib _ _
  have hinit : Initialised (d.saved lib o salt prk puk).prefs := Device.initialised_saved hlib hd salt prk puk
  have hformat := generateRestoreDataFormat_apply hlib hinit (Device.salt_saved hlib hsalt prk puk) prk puk
  rw [Device.salted_of_ne hne, Device.password_saved hlib] at hformat
  rw [onSuccessKeyPair, get_bind_apply, if_neg (by simp [hreceiver]), createdMessage]
  simp only [hprk, hpuk, orThrow_some_bind_apply]
  rw [bind_of_some (save_apply hlib hd hsalt prk puk)]
  by_cases hempty : symmetricData lib o .ENCRYPT d.password salt prk = [] ∨
      symmetricData lib o .ENCRYPT d.password salt puk = []
  · rw [if_pos hempty] at hformat
    rw [bind_of_some hformat, if_pos hempty]
    rfl
  · rw [if_neg hempty] at hformat
    rw [if_neg hempty]
    by_cases hpassword : utf8 d.password = []
    · rw [if_pos hpassword] at hformat
      have hcleared : (d.saved lib o salt prk puk).password = "" := by
        rw [Device.password_saved hlib]
        exact utf8_injective hpassword
      rw [bind_of_none hformat, if_pos hpassword, Option.map_none, ← hcleared]
    · rw [if_neg hpassword] at hformat
      rw [bind_of_some hformat, if_neg hpassword]
      rfl

include hlib hd in
theorem onSuccessKeyPair_apply {keys : HexKeyPair} {prk puk salt : List UInt8} (hreceiver : d.receiver = true)
    (hprk : hexStringToByteArray keys.ecprvhex = some prk) (hpuk : hexStringToByteArray keys.ecpubhex = some puk)
    (hsalt : d.salt lib o = some salt) :
    (onSuccessKeyPair lib o (some keys.ecprvhex) (some keys.ecpubhex) d).2 =
      { d.saved lib o salt prk puk with password := "" } := by
  rw [onSuccessKeyPair_texts hlib hd hreceiver hprk hpuk hsalt]

include hlib hd in
/-- Without a receiver, with a text that is missing or no array or a salt that cannot be decoded nothing happens. -/
theorem onSuccessKeyPair_cases (prkText pukText : Option String) :
    ((onSuccessKeyPair lib o prkText pukText d).2 = d ∧
      ∀ msg, (onSuccessKeyPair lib o prkText pukText d).1 ≠ some (some msg)) ∨
    d.receiver = true ∧ ∃ prkText' pukText' prk puk salt, prkText = some prkText' ∧ pukText = some pukText' ∧
      hexStringToByteArray prkText' = some prk ∧ hexStringToByteArray pukText' = some puk ∧
      d.salt lib o = some salt := by
  unfold onSuccessKeyPair
  by_cases hreceiver : d.receiver = false
  · left
    rw [get_bind_apply, if_pos hreceiver]
    exact ⟨rfl, fun msg he => by cases he⟩
  · cases prkText with
    | none =>
      left
      rw [get_bind_apply, if_neg hreceiver]
      exact ⟨rfl, fun msg he => by cases he⟩
    | some prkText =>
      cases pukText with
      | none =>
        left
        rw [get_bind_apply, if_neg hreceiver]
        exact ⟨rfl, fun msg he => by cases he⟩
      | some pukText =>
        rw [get_bind_apply, if_neg hreceiver]
        cases hprk : hexStringToByteArray prkText with
        | none =>
          left
          simp only [hprk, orThrow_none_bind_apply]
          exact ⟨trivial, fun msg he => by cases he⟩
        | some prk =>
          cases hpuk : hexStringToByteArray pukText with
          | none =>
            left
            simp only [hprk, hpuk, orThrow_some_bind_apply, orThrow_none_bind_apply]
            exact ⟨trivial, fun msg he => by cases he⟩
          | some puk =>
            cases hsalt : d.salt lib o with
            | some salt =>
              exact Or.inr ⟨by simpa using hreceiver, prkText, pukText, prk, puk, salt, rfl, rfl, hprk, hpuk, rfl⟩
            | none =>
              have hne : d.prefs .SaltValue ≠ "" := by
                intro hempty
                rw [Device.salt, Prefs.salt, if_pos hempty] at hsalt
                cases hsalt
              have hstop := save_of_none hlib hd hsalt prk puk
              rw [Device.salted_of_ne hne] at hstop
              left
              simp only [hprk, hpuk, orThrow_some_bind_apply]
              rw [bind_of_none hstop]
              exact ⟨rfl, fun msg he => by cases he⟩

include hlib hd in
theorem Arrives.apply {keys : HexKeyPair} (h : Arrives lib o keys d) : ∃ salt prk puk,
    hexStringToByteArray keys.ecprvhex = some prk ∧ hexStringToByteArray keys.ecpubhex = some puk ∧
      d.salt lib o = some salt ∧
      (onSuccessKeyPair lib o (some keys.ecprvhex) (some keys.ecpubhex) d).2 =
        { d.saved lib o salt prk puk with password := "" } := by
  obtain ⟨hreceiver, hprk, hpuk, hsalt⟩ := h
  obtain ⟨prk, hprk⟩ := Option.isSome_iff_exists.mp hprk
  obtain ⟨puk, hpuk⟩ := Option.isSome_iff_exists.mp hpuk
  obtain ⟨salt, hsalt⟩ := Option.isSome_iff_exists.mp hsalt
  exact ⟨salt, prk, puk, hprk, hpuk, hsalt, onSuccessKeyPair_apply hlib hd hreceiver hprk hpuk hsalt⟩

include hlib hd in
theorem onSuccessKeyPair_stop {keys : HexKeyPair} (h : ¬ Arrives lib o keys d) :
    (onSuccessKeyPair lib o (some keys.ecprvhex) (some keys.ecpubhex) d).2 = d := by
  rcases onSuccessKeyPair_cases (o := o) hlib hd (some keys.ecprvhex) (some keys.ecpubhex) with
    ⟨hsame, -⟩ | ⟨hreceiver, prkText, pukText, prk, puk, salt, hprkText, hpukText, hprk, hpuk, hsalt⟩
  · exact hsame
  · rw [Option.some.injEq] at hprkText hpukText
    refine absurd ⟨hreceiver, ?_, ?_, ?_⟩ h
    · rw [hprkText, hprk, Option.isSome_some]
    · rw [hpukText, hpuk, Option.isSome_some]
    · rw [hsalt, Option.isSome_some]

include hlib hd in
/-- What is stored is complete and passes the check under the password in the field. -/
theorem verifies_onSuccessKeyPair {keys : HexKeyPair} {salt prk puk : List UInt8}
    (h : Stores lib o keys d salt prk puk) :
    Verifies lib (onSuccessKeyPair lib o (some keys.ecprvhex) (some keys.ecpubhex) d).2.prefs d.password := by
  rw [onSuccessKeyPair_apply hlib hd h.receiver h.privateKey h.publicKey h.salt_eq]
  show Verifies lib (d.saved lib o salt prk puk).prefs d.password
  rw [Device.prefs_saved h]
  exact verifies_walletPrefs hlib hd.salted (Prefs.salted_ne hlib _ _) ((Prefs.decode_salted hlib _ _).trans h.salt_eq) _
    (hlib.encode58_ne _ h.rsa_ne) (hlib.encode58_ne _ (keys.publicKey_ne h.publicKey))
    (hlib.encode58_ne _ (address_ne hlib puk))

include hlib hd in
/-- A callback that does not store a wallet writes a missing salt at most. -/
theorem onSuccessKeyPair_of_not_stores {keys : HexKeyPair}
    (h : ¬ ∃ salt prk puk, Stores lib o keys d salt prk puk) :
    (onSuccessKeyPair lib o (some keys.ecprvhex) (some keys.ecpubhex) d).2.prefs = d.prefs ∨
      (onSuccessKeyPair lib o (some keys.ecprvhex) (some keys.ecpubhex) d).2.prefs =
        d.prefs.salted lib o d.isPswInitMode := by
  by_cases harrives : Arrives lib o keys d
  · obtain ⟨salt, prk, puk, hprk, hpuk, hsalt, happly⟩ := harrives.apply hlib hd
    have hempty : symmetricData lib o .ENCRYPT d.password salt prk = [] ∨
        getRSAData o .ENCRYPT (symmetricData lib o .ENCRYPT d.password salt prk) = [] := by
      by_contra hne
      rw [not_or] at hne
      exact h ⟨salt, prk, puk, harrives.1, hprk, hpuk, hsalt, hne.1, hne.2⟩
    have hsaved : d.saved lib o salt prk puk = d.salted lib o := if_pos hempty
    rw [happly, hsaved]
    exact Or.inr (Device.prefs_salted d)
  · rw [onSuccessKeyPair_stop hlib hd harrives]
    exact Or.inl rfl

end KeyPair

/-! ## The field of the password -/

section Password

variable {lib : Library} (hlib : lib.Sound) {o : Outcomes} {d : Device} (hd : Initialised d.prefs)

include hlib hd

/-- It is cleared once there is something to store. -/
theorem password_saveMsg (password msg : String) :
    (saveMsg lib o password msg d).2.password =
      if d.receiver = true ∧ msg ≠ "" ∧ (restoreParts lib msg).isSome = true then "" else d.password := by
  rw [saveMsg, get_bind_apply]
  by_cases hreceiver : d.receiver = false
  · rw [if_pos hreceiver, if_neg (by simp [hreceiver])]
    rfl
  · rw [if_neg hreceiver]
    by_cases hempty : msg = ""
    · rw [if_pos hempty, if_neg (by simp [hempty])]
      rfl
    · rw [if_neg hempty]
      cases hparts : restoreParts lib msg with
      | none =>
        rw [if_neg (by simp)]
        rfl
      | some parts =>
        obtain ⟨encPrk, encPuk, salt⟩ := parts
        obtain ⟨s, hs⟩ := exists_salt_putString (o := o) hlib d.prefs d.isPswInitMode salt
        rw [if_pos ⟨by simpa using hreceiver, hempty, rfl⟩, orThrow_some_bind_apply]
        show (saveParts lib o password encPrk encPuk salt d).2.password = ""
        rw [saveParts_apply hlib hd password hs]

theorem password_getDecryptedPrivateKey (psw : String) :
    (getDecryptedPrivateKey lib o psw d).2.password = d.password := by
  rw [getDecryptedPrivateKey, getValuesInPreferences, gets_bind_apply]
  by_cases hempty : d.prefs .CipheredData = ""
  · rw [if_pos hempty]
    rfl
  · rw [if_neg hempty]
    cases lib.decode58 (d.prefs .CipheredData) with
    | none => rfl
    | some bytes =>
      rw [orThrow_some_bind_apply, getPBKDF2Data_apply hlib hd]
      exact Device.password_salted d

/-- It is cleared if a check fails. -/
theorem password_generateSignedTransaction (transaction password : String) :
    (generateSignedTransaction lib o transaction password d).2.password =
      if checkMACData lib d.prefs password = some false ∨ checkMACData lib d.prefs password = some true ∧
        (getDecryptedPrivateKey lib o password d).1 = some [] then "" else d.password := by
  have hkey := password_getDecryptedPrivateKey hlib hd (o := o) password
  rw [generateSignedTransaction, gets_bind_apply]
  cases hcheck : checkMACData lib d.prefs password with
  | none =>
    rw [if_neg (by simp)]
    rfl
  | some passes =>
    rw [orThrow_some_bind_apply]
    cases passes with
    | false => rw [if_pos rfl, if_pos (Or.inl rfl)]; rfl
    | true =>
      rw [if_neg (by simp)]
      cases hprivate : getDecryptedPrivateKey lib o password d with
      | mk privateKeyBytes d' =>
        rw [hprivate] at hkey
        cases privateKeyBytes with
        | none =>
          rw [bind_of_none hprivate, if_neg (by simp)]
          exact hkey
        | some bytes =>
          rw [bind_of_some hprivate]
          by_cases hempty : bytes = []
          · rw [if_pos hempty, if_pos (Or.inr ⟨rfl, congrArg some hempty⟩)]
            rfl
          · rw [if_neg hempty, if_neg (by simp [hempty])]
            exact hkey

/-- It is cleared once the key pair arrives. -/
theorem password_onSuccessKeyPair (keys : HexKeyPair) :
    (onSuccessKeyPair lib o (some keys.ecprvhex) (some keys.ecpubhex) d).2.password =
      if Arrives lib o keys d then "" else d.password := by
  by_cases h : Arrives lib o keys d
  · obtain ⟨salt, prk, puk, -, -, -, happly⟩ := h.apply hlib hd
    rw [if_pos h, happly]
  · rw [if_neg h, onSuccessKeyPair_stop hlib hd h]

end Password

/-! ## Scripts on their way -/

namespace WebView

/-- A script that is posted, and the password of the call that posted it. -/
structure Request where
  script : Script
  password : String

/-- The password of a request for a key pair. -/
def Request.keyPair (request : Request) : Option String :=
  match request.script with
  | .doGenerate _ => some request.password
  | .doSign _ _ _ _ => none

/-- The device, the scripts whose callbacks are to come, and what was last written to the field of the
password. -/
structure World where
  device : Device
  posted : List Request
  written : String

/-- The password of the request for a key pair at a position. -/
def World.requested (w : World) (i : Nat) : Option String := w.posted[i]?.bind Request.keyPair

/-- The script at a position is that of a signature. -/
def World.signing (w : World) (i : Nat) : Bool := w.posted[i]?.any fun request => request.keyPair.isNone

/-- The calls, and the callbacks of the posted scripts in any order. -/
inductive Event
  | create (password : String)
  | save (o : Outcomes) (password msg : String)
  | generateSignedTransaction (o : Outcomes) (transaction password : String)
  | onSuccessKeyPair (i : Nat) (o : Outcomes) (keys : HexKeyPair)
  | onSuccessSign (i : Nat) (sign : String)

section Steps

variable (lib : Library)

/-- What an event does to the device and to the posted scripts. -/
def call (w : World) : Event → Device × List Request
  | .create password =>
    match Android.create password w.device with
    | (script, d) => (d, w.posted ++ script.toList.map fun script => ⟨script, password⟩)
  | .save o password msg => ((saveMsg lib o password msg w.device).2, w.posted)
  | .generateSignedTransaction o transaction password =>
    match Android.generateSignedTransaction lib o transaction password w.device with
    | (script, d) => (d, w.posted ++ script.join.toList.map fun script => ⟨script, password⟩)
  | .onSuccessKeyPair i o keys =>
    match w.requested i with
    | some _ =>
      ((Android.onSuccessKeyPair lib o (some keys.ecprvhex) (some keys.ecpubhex) w.device).2, w.posted.eraseIdx i)
    | none => (w.device, w.posted)
  | .onSuccessSign i sign =>
    if w.signing i then ((Android.onSuccessSign sign w.device).2, w.posted.eraseIdx i) else (w.device, w.posted)

/-- What an event writes to the field of the password. -/
def writes (w : World) : Event → Option String
  | .create password => some password
  | .save _ _ msg =>
    if w.device.receiver = true ∧ msg ≠ "" ∧ (restoreParts lib msg).isSome = true then some "" else none
  | .generateSignedTransaction o _ password =>
    if checkMACData lib w.device.prefs password = some false ∨ checkMACData lib w.device.prefs password = some true ∧
      (getDecryptedPrivateKey lib o password w.device).1 = some [] then some "" else none
  | .onSuccessKeyPair i o keys =>
    if (w.requested i).isSome = true ∧ Arrives lib o keys w.device then some "" else none
  | .onSuccessSign i _ => if w.signing i then some "" else none

def step (w : World) (e : Event) : World :=
  ⟨(call lib w e).1, (call lib w e).2, (writes lib w e).getD w.written⟩

/-- A device on which no script is on its way. -/
def World.start (d : Device) : World := ⟨d, [], d.password⟩

/-- A stored wallet whose key is encrypted, and whose fields are under a MAC, with a password. -/
structure IssuedUnder (o : Outcomes) (keys : HexKeyPair) (password : String) (q : Prefs) : Prop where
  encrypted : ∃ salt prk, lib.decode58 (q .SaltValue) = some salt ∧
    hexStringToByteArray keys.ecprvhex = some prk ∧
    q .CipheredData = lib.encode58 (getRSAData o .ENCRYPT (symmetricData lib o .ENCRYPT password salt prk))
  passes : checkMACData lib q password = some true

/-- The callback of a key pair stores the wallet under the password of its request, or none. -/
def StoredUnder (w : World) : Event → Prop
  | .onSuccessKeyPair i o keys => ∀ password, w.requested i = some password →
    ((∃ salt prk puk, Stores lib o keys w.device salt prk puk) →
      IssuedUnder lib o keys password (step lib w (.onSuccessKeyPair i o keys)).device.prefs) ∧
    ((¬ ∃ salt prk puk, Stores lib o keys w.device salt prk puk) → ∀ key, key ≠ .SaltValue →
      (step lib w (.onSuccessKeyPair i o keys)).device.prefs key = w.device.prefs key)
  | _ => True

/-- A callback that stores a wallet comes while the field has last been written with the password of its
request. -/
def InTurn (w : World) : Event → Prop
  | .onSuccessKeyPair i o keys => ∀ password, w.requested i = some password →
    (∃ salt prk puk, Stores lib o keys w.device salt prk puk) → w.written = password
  | _ => True

/-- The MACs of a text under the password that was written and under the requested one differ. -/
def Separates (w : World) : Event → Prop
  | .onSuccessKeyPair i _ _ => ∀ password, w.requested i = some password → ∀ salt target,
    macData lib salt w.written target = macData lib salt password target → w.written = password
  | _ => True

end Steps

/-- The settings are there, and the field has what was last written to it. -/
structure Written (w : World) : Prop where
  settings : Initialised w.device.prefs
  password : w.device.password = w.written

section Invariant

variable {lib : Library} (hlib : lib.Sound) {w : World}

theorem frame_call (w : World) (e : Event) : Frame w.device (call lib w e).1 := by
  cases e with
  | create password => exact ⟨rfl, fun _ => rfl, fun _ => rfl, fun _ _ => ⟨rfl, rfl⟩⟩
  | save o password msg => exact leads_saveMsg lib o password msg w.device
  | generateSignedTransaction o transaction password =>
    exact leads_generateSignedTransaction lib o transaction password w.device
  | onSuccessKeyPair i o keys =>
    rw [call]
    cases w.requested i with
    | some _ => exact leads_onSuccessKeyPair lib o _ _ w.device
    | none => exact Std.Refl.refl _
  | onSuccessSign i sign =>
    rw [call]
    split
    · exact leads_onSuccessSign sign w.device
    · exact Std.Refl.refl _

include hlib in
theorem password_call (hw : Initialised w.device.prefs) (e : Event) :
    (call lib w e).1.password = (writes lib w e).getD w.device.password := by
  cases e with
  | create password => rfl
  | save o password msg =>
    show (saveMsg lib o password msg w.device).2.password = _
    rw [password_saveMsg hlib hw, writes, apply_ite (Option.getD · w.device.password)]
    rfl
  | generateSignedTransaction o transaction password =>
    show (Android.generateSignedTransaction lib o transaction password w.device).2.password = _
    rw [password_generateSignedTransaction hlib hw, writes, apply_ite (Option.getD · w.device.password)]
    rfl
  | onSuccessKeyPair i o keys =>
    rw [call, writes]
    cases w.requested i with
    | none => rw [if_neg (by simp), Option.getD_none]
    | some password =>
      show (Android.onSuccessKeyPair lib o (some keys.ecprvhex) (some keys.ecpubhex) w.device).2.password = _
      rw [password_onSuccessKeyPair hlib hw]
      by_cases h : Arrives lib o keys w.device
      · rw [if_pos h, if_pos ⟨rfl, h⟩, Option.getD_some]
      · rw [if_neg h, if_neg fun hboth => h hboth.2, Option.getD_none]
  | onSuccessSign i sign =>
    rw [call, writes]
    cases w.signing i with
    | false => rfl
    | true => rfl

include hlib in
/-- Every event keeps the field and what was last written to it the same. -/
theorem written_step (hw : Written w) (e : Event) : Written (step lib w e) := by
  refine ⟨(frame_call w e).initialised hw.settings, ?_⟩
  show (call lib w e).1.password = (writes lib w e).getD w.written
  rw [password_call hlib hw.settings, hw.password]

/-- The callback of a request runs. -/
theorem device_onSuccessKeyPair {i : Nat} {password : String} (h : w.requested i = some password) (o : Outcomes)
    (keys : HexKeyPair) : (step lib w (.onSuccessKeyPair i o keys)).device =
      (Android.onSuccessKeyPair lib o (some keys.ecprvhex) (some keys.ecpubhex) w.device).2 := by
  rw [step, call, h]

include hlib in
/-- A key pair that is stored is stored under the password in the field. -/
theorem issuedUnder_password (hw : Initialised w.device.prefs) {i : Nat} {password : String}
    (h : w.requested i = some password) {o : Outcomes} {keys : HexKeyPair} {salt prk puk : List UInt8}
    (hstores : Stores lib o keys w.device salt prk puk) :
    IssuedUnder lib o keys w.device.password (step lib w (.onSuccessKeyPair i o keys)).device.prefs := by
  have hverifies := verifies_onSuccessKeyPair hlib hw hstores
  rw [device_onSuccessKeyPair h]
  refine ⟨⟨salt, prk, ?_, hstores.privateKey, ?_⟩, hverifies.passes⟩
  · rw [onSuccessKeyPair_apply hlib hw hstores.receiver hstores.privateKey hstores.publicKey hstores.salt_eq]
    show lib.decode58 ((w.device.saved lib o salt prk puk).prefs .SaltValue) = some salt
    rw [Device.prefs_saved_salt hlib, Prefs.decode_salted hlib]
    exact hstores.salt_eq
  · rw [onSuccessKeyPair_apply hlib hw hstores.receiver hstores.privateKey hstores.publicKey hstores.salt_eq]
    show (w.device.saved lib o salt prk puk).prefs .CipheredData = _
    rw [Device.prefs_saved hstores]
    rfl

include hlib in
theorem storedUnder_step (hw : Written w) {e : Event} (he : InTurn lib w e) : StoredUnder lib w e := by
  cases e with
  | onSuccessKeyPair i o keys =>
    intro password hrequested
    refine ⟨?_, fun hnot key hkey => ?_⟩
    · rintro ⟨salt, prk, puk, hstores⟩
      have hissued := issuedUnder_password hlib hw.settings hrequested hstores
      rwa [hw.password, he password hrequested ⟨salt, prk, puk, hstores⟩] at hissued
    · rw [device_onSuccessKeyPair hrequested]
      rcases onSuccessKeyPair_of_not_stores hlib hw.settings hnot with h | h
      · rw [h]
      · rw [h, Prefs.salted_apply hkey]
  | create password => trivial
  | save o password msg => trivial
  | generateSignedTransaction o transaction password => trivial
  | onSuccessSign i sign => trivial

include hlib in
/-- Where the MACs of two passwords differ a wallet under the one does not pass the check under the other. -/
theorem inTurn_of_storedUnder (hw : Written w) {e : Event} (hseparates : Separates lib w e)
    (he : StoredUnder lib w e) : InTurn lib w e := by
  cases e with
  | onSuccessKeyPair i o keys =>
    rintro password hrequested ⟨salt, prk, puk, hstores⟩
    have hinit : Initialised (step lib w (.onSuccessKeyPair i o keys)).device.prefs :=
      (frame_call w _).initialised hw.settings
    have hverifies := verifies_onSuccessKeyPair hlib hw.settings hstores
    rw [← device_onSuccessKeyPair hrequested] at hverifies
    obtain ⟨_, hpasses⟩ := (he password hrequested).1 ⟨salt, prk, puk, hstores⟩
    obtain ⟨salt', hsalt', hmac⟩ := hverifies.mac hlib hinit
    obtain ⟨salt'', hsalt'', hmac'⟩ := Verifies.mac hlib hinit ⟨hverifies.complete, hpasses⟩
    have hsame : salt' = salt'' := Option.some.inj (hsalt'.symm.trans hsalt'')
    subst hsame
    exact hseparates password hrequested salt' _ (by rw [← hw.password, ← hmac, hmac'])
  | create password => trivial
  | save o password msg => trivial
  | generateSignedTransaction o transaction password => trivial
  | onSuccessSign i sign => trivial

end Invariant

/-- **The right password.**  In a run in which every callback that stores a wallet comes while the field was
last written with the password of its own request, each stores the wallet under this password; where the MACs
of the passwords differ, in no other run. -/
theorem keyPair_stored_under_requested {lib : Library} (hlib : lib.Sound) {d : Device} (hd : Initialised d.prefs)
    (events : List Event) :
    (Along (step lib) (InTurn lib) (World.start d) events →
      Along (step lib) (StoredUnder lib) (World.start d) events) ∧
    (Along (step lib) (Separates lib) (World.start d) events →
      Along (step lib) (StoredUnder lib) (World.start d) events →
      Along (step lib) (InTurn lib) (World.start d) events) := by
  have hwritten : ∀ events, Along (step lib) (fun w _ => Written w) (World.start d) events := by
    intro events
    have hrun : Along (step lib) (fun w _ => Written w ∧ True) (World.start d) events :=
      invariant_at (step lib) (fun _ e hw _ => written_step hlib hw e) ⟨hd, rfl⟩
        (along_of_forall (step lib) (fun _ _ => trivial) _ _)
    exact Along.mono (step lib) (fun _ _ h => h.1) hrun
  constructor
  · intro hturn
    exact Along.mono (step lib) (fun _ _ h => storedUnder_step hlib h.1 h.2)
      ((hwritten events).and (step lib) hturn)
  · intro hseparates hstored
    exact Along.mono (step lib) (fun _ _ h => inTurn_of_storedUnder hlib h.1 h.2.1 h.2.2)
      ((hwritten events).and (step lib) (hseparates.and (step lib) hstored))

end WebView

/-! ## In the clear -/

/-- A key pair of one byte and of two. -/
def plainHexKeys : HexKeyPair := ⟨"07", "0405", by decide⟩

/-- On a fresh device the key pair is stored. -/
theorem stores_fresh (lib : Library) (psw : String) : Stores lib plainOutcomes plainHexKeys
    { freshDevice with password := psw } (List.replicate 32 1) [7] [4, 5] where
  receiver := rfl
  privateKey := by decide
  publicKey := by decide
  salt_eq := rfl
  symmetric_ne := List.cons_ne_nil _ _
  rsa_ne := List.cons_ne_nil _ _

/-- A library whose MAC depends on the key. -/
def keyed : Library :=
  { plain with
    mac := fun algorithmName =>
      if algorithmName = "HmacSHA256" then some fun targetData key => plainDigest (key ++ targetData) else none
    hmacSha256 := fun targetData key => plainDigest (key ++ targetData) }

theorem keyed_sound : keyed.Sound :=
  { plain_sound with
    mac_HmacSHA256 := rfl
    mac_empty := rfl
    length_hmacSha256 := fun _ _ => length_plainDigest _ }

/-- The MACs under passwords of one and of two bytes differ. -/
theorem macData_keyed (salt : List UInt8) (target : String) :
    macData keyed salt "qq" target ≠ macData keyed salt "p" target := by
  intro he
  have hdigest : plainDigest (plainDigest (salt ++ utf8 "qq") ++ utf8 target) =
      plainDigest (plainDigest (salt ++ utf8 "p") ++ utf8 target) := by
    have hdecoded := congrArg keyed.decode58 he
    rw [macData, macData, keyed_sound.decode58, keyed_sound.decode58] at hdecoded
    exact Option.some.inj hdecoded
  -- the second byte is the length of what is hashed
  have hsecond := congrArg List.head? (List.cons.inj hdigest).2
  have hbyte : UInt8.ofNat (salt ++ utf8 "qq").length = UInt8.ofNat (salt ++ utf8 "p").length :=
    Option.some.inj hsecond
  have hmod := congrArg UInt8.toNat hbyte
  rw [List.length_append, List.length_append, show (utf8 "qq").length = 2 by decide,
    show (utf8 "p").length = 1 by decide, UInt8.toNat_ofNat', UInt8.toNat_ofNat'] at hmod
  omega

namespace WebView

/-- A key pair that comes in turn is stored under its password. -/
theorem keyPair_stored_under_requested_one :
    Along (step keyed) (StoredUnder keyed) (World.start freshDevice)
      [.create "p", .onSuccessKeyPair 0 plainOutcomes plainHexKeys] := by
  refine (keyPair_stored_under_requested keyed_sound (d := freshDevice) initialised_empty _).1
    ⟨trivial, fun password hrequested _ => ?_, trivial⟩
  exact Option.some.inj hrequested

/-- The key pair of the first of two calls is stored under the password of the second. -/
theorem keyPair_stored_under_other :
    ¬ Along (step keyed) (StoredUnder keyed) (World.start freshDevice)
      [.create "p", .create "qq", .onSuccessKeyPair 0 plainOutcomes plainHexKeys] := by
  rintro ⟨_, _, hstored, _⟩
  have hwritten : Written (step keyed (step keyed (World.start freshDevice) (.create "p")) (.create "qq")) :=
    ⟨initialised_empty, rfl⟩
  have hseparates : Separates keyed (step keyed (step keyed (World.start freshDevice) (.create "p")) (.create "qq"))
      (.onSuccessKeyPair 0 plainOutcomes plainHexKeys) := by
    intro password hrequested salt target he
    have hp : "p" = password := Option.some.inj hrequested
    subst hp
    exact absurd he (macData_keyed salt target)
  have hturn := inTurn_of_storedUnder keyed_sound hwritten hseparates hstored "p" rfl
    ⟨_, _, _, stores_fresh keyed "qq"⟩
  exact absurd hturn (by decide)

end WebView

end MoaCrypto.Android
