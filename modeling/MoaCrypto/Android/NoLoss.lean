import MoaCrypto.Android.Callbacks

/-!
# What becomes of the main wallet (`MoaWalletHelper.java`)

`Operation` has the calls of the helper and the callbacks of the web view, with what the key store and
the cipher give in each; failures are among it.  Most operations leave a main wallet that verifies as it
is, and a new key pair replaces it by another.  `restoreWallet` writes the salt before it knows that the
rest can be written, and `updateWallet` copies whatever the temporary preferences hold; with these two
under the condition `Careful` no run loses a wallet (`main_wallet_kept`).
-/

namespace MoaCrypto.Android

open Java StepRun Act

inductive Operation
  | setContext
  | setReceiver
  | createWallet (password : String)
  | getSignedTransaction (o : Outcomes) (transaction password : String)
  | restoreWallet (o : Outcomes) (password msg : String)
  | removeWallet
  | generateWalletInitMsg (o : Outcomes) (walletData : WalletData)
  | updateWallet
  | removeTempWallet
  | setPswInitMode (isPswInitMode : Bool)
  | getSalt (o : Outcomes)
  | onSuccessKeyPair (o : Outcomes) (keys : HexKeyPair)
  | onSuccessSign (sign : String)

/-- The device after an operation, also if it ends with an exception. -/
def step (lib : Library) (d : Device) : Operation → Device
  | .setContext => (initProperties d).2
  | .setReceiver => { d with receiver := true }
  | .createWallet password => (create password d).2
  | .getSignedTransaction o transaction password => (generateSignedTransaction lib o transaction password d).2
  | .restoreWallet o password msg => (restoreWallet lib o password msg d).2
  | .removeWallet => (removeWallet d).2
  | .generateWalletInitMsg o walletData => (generateBackUpRestoreDataFormat lib o walletData d).2
  | .updateWallet => (updateWallet d).2
  | .removeTempWallet => (removeTempWallet d).2
  | .setPswInitMode isPswInitMode => (setPswInitMode isPswInitMode d).2
  | .getSalt o => (getSalt lib o d).2
  | .onSuccessKeyPair o keys => (onSuccessKeyPair lib o (some keys.ecprvhex) (some keys.ecpubhex) d).2
  | .onSuccessSign sign => (onSuccessSign sign d).2

/-- A complete wallet that passes the check under its owner's password. -/
def HasWallet (lib : Library) (q : Prefs) : Prop := ∃ psw, Verifies lib q psw

/-- A wallet in the main preferences is left as it is, replaced by another one, or removed. -/
def Kept (lib : Library) (d : Device) (op : Operation) : Prop :=
  HasWallet lib d.moaWallet →
    (step lib d op).moaWallet = d.moaWallet ∨ HasWallet lib (step lib d op).moaWallet ∨
      (op = .removeWallet ∧ d.isPswInitMode = false)

/-- The parts of the data that a restore with the verified password stores. -/
def restored (lib : Library) (q : Prefs) (password msg : String) :
    Option (List UInt8 × List UInt8 × List UInt8) := do
  let verified ← verifyHmacPsw lib q password msg
  let restoreMsg ← (split '%' msg)[1]?
  if verified = true ∧ restoreMsg ≠ "" then restoreParts lib restoreMsg else none

/-- The salt of a message is the one that is there, and RSA fails; or neither RSA nor the decryption of the
public key fails. -/
structure RestoreSucceeds (lib : Library) (o : Outcomes) (q : Prefs) (password : String)
    (encPrk encPuk salt : List UInt8) : Prop where
  sameSalt : getRSAData o .ENCRYPT encPrk = [] → lib.encode58 salt = q .SaltValue
  publicKey_ne : getRSAData o .ENCRYPT encPrk ≠ [] →
    ∀ s, (q.putString .SaltValue (lib.encode58 salt)).salt lib o false = some s →
      symmetricData lib o .DECRYPT password s encPuk ≠ []

/-- The two operations that can lose a main wallet do so only otherwise: a restore over the main wallet in
which a cipher fails, and an update without a complete temporary wallet for the same version and system. -/
def Careful (lib : Library) (d : Device) : Operation → Prop
  | .restoreWallet o password msg =>
    HasWallet lib d.moaWallet → d.isPswInitMode = false → d.receiver = true →
      ∀ encPrk encPuk salt, restored lib d.moaWallet password msg = some (encPrk, encPuk, salt) →
        RestoreSucceeds lib o d.moaWallet password encPrk encPuk salt
  | .updateWallet =>
    HasWallet lib d.moaWallet →
      HasWallet lib d.tempWallet ∧ d.tempWallet .VersionInfo = d.moaWallet .VersionInfo ∧
        d.tempWallet .OSInfo = d.moaWallet .OSInfo
  | _ => True

/-! ## The operations one by one -/

theorem HasWallet.salt_ne {lib : Library} {q : Prefs} (h : HasWallet lib q) : q .SaltValue ≠ "" := by
  obtain ⟨psw, hverifies⟩ := h
  exact hverifies.complete _ (by simp [walletKeys])

section Restore

variable {lib : Library} {o : Outcomes} {d : Device}

/-- A restore stores the parts of its data, or nothing. -/
theorem restoreWallet_cases (password msg : String) :
    (restoreWallet lib o password msg d).2 = d ∨
      d.receiver = true ∧ ∃ encPrk encPuk salt, restored lib d.prefs password msg = some (encPrk, encPuk, salt) ∧
        (restoreWallet lib o password msg d).2 = (saveParts lib o password encPrk encPuk salt d).2 := by
  unfold restoreWallet restored
  rw [gets_bind_apply]
  cases verifyHmacPsw lib d.prefs password msg with
  | none => exact Or.inl rfl
  | some verified =>
    cases verified with
    | false => exact Or.inl rfl
    | true =>
      cases (split '%' msg)[1]? with
      | none => exact Or.inl rfl
      | some restoreMsg =>
        rw [orThrow_some_bind_apply, if_pos rfl, orThrow_some_bind_apply, saveMsg, get_bind_apply]
        by_cases hreceiver : d.receiver = false
        · rw [if_pos hreceiver]
          exact Or.inl rfl
        · rw [if_neg hreceiver]
          by_cases hempty : restoreMsg = ""
          · rw [if_pos hempty]
            exact Or.inl rfl
          · rw [if_neg hempty]
            cases hparts : restoreParts lib restoreMsg with
            | none => exact Or.inl rfl
            | some parts =>
              obtain ⟨encPrk, encPuk, salt⟩ := parts
              refine Or.inr ⟨by simpa using hreceiver, encPrk, encPuk, salt, ?_, rfl⟩
              simp only [Option.bind_eq_bind, Option.bind_some, ne_eq, hempty, not_false_eq_true, and_self,
                if_true, hparts]

end Restore

section KeyPairs

variable {lib : Library} (hlib : lib.Sound) {o : Outcomes} {d : Device}

theorem Device.prefs_of_main (h : d.isPswInitMode = false) : d.prefs = d.moaWallet := if_neg (by simp [h])

/-- Unchanged where they have a salt, by a function that writes nothing else. -/
theorem OnlySalt.moaWallet {d' : Device} (h : OnlySalt d d') (hmode : d.isPswInitMode = false)
    (hsalt : d.moaWallet .SaltValue ≠ "") : d'.moaWallet = d.moaWallet := by
  have hprefs := Device.prefs_of_main hmode
  have hprefs' := Device.prefs_of_main (h.mode.trans hmode)
  rw [← hprefs', h.prefs (by rwa [hprefs]), hprefs]

include hlib in
/-- Of a new key pair the main preferences get all fields or none. -/
theorem onSuccessKeyPair_main (hmode : d.isPswInitMode = false) (hmain : Initialised d.moaWallet)
    (hwallet : HasWallet lib d.moaWallet) (keys : HexKeyPair) :
    (onSuccessKeyPair lib o (some keys.ecprvhex) (some keys.ecpubhex) d).2.moaWallet = d.moaWallet ∨
      HasWallet lib (onSuccessKeyPair lib o (some keys.ecprvhex) (some keys.ecpubhex) d).2.moaWallet := by
  have hprefs := Device.prefs_of_main hmode
  have hprefs' := Device.prefs_of_main
    ((leads_onSuccessKeyPair lib o (some keys.ecprvhex) (some keys.ecpubhex) d).mode.trans hmode)
  have hinit : Initialised d.prefs := by rwa [hprefs]
  rw [← hprefs', ← hprefs]
  by_cases hstores : ∃ salt prk puk, Stores lib o keys d salt prk puk
  · obtain ⟨salt, prk, puk, hstores⟩ := hstores
    exact Or.inr ⟨d.password, verifies_onSuccessKeyPair hlib hinit hstores⟩
  · refine Or.inl ?_
    rcases onSuccessKeyPair_of_not_stores hlib hinit hstores with h | h
    · exact h
    · rw [h, hprefs, Prefs.salted_of_ne hwallet.salt_ne]

end KeyPairs

section Backup

variable {lib : Library} (hlib : lib.Sound) {o : Outcomes} {main temp : Prefs} (hmain : Initialised main)
  (htemp : Configured temp)

/-- In any state in which the reset ends the main preferences have got a missing salt at most. -/
structure MainSalted (lib : Library) (o : Outcomes) (main : Prefs) (d : Device) : Prop where
  main : d.moaWallet = main ∨ d.moaWallet = main.salted lib o false
  temp : Configured d.tempWallet

theorem Frame.mainSalted {d d' : Device} (h : Frame d d') (hmode : d.isPswInitMode = true)
    (hmain : Initialised d.moaWallet) (hd : MainSalted lib o main d) : MainSalted lib o main d' :=
  ⟨by rw [h.main hmode]; exact hd.main, (h.ready ⟨hmain, hd.temp⟩).temp⟩

/-- The part of the reset in the temporary preferences. -/
theorem mainSalted_tail (prk puk : List UInt8) {d : Device} (hmode : d.isPswInitMode = true)
    (hinit : Initialised d.moaWallet) (hd : MainSalted lib o main d) :
    MainSalted lib o main ((do
      save lib o prk puk
      let backupDataFormat ← generateRestoreDataFormat lib o prk puk
      setPassword ""
      setPswInitMode false
      pure backupDataFormat : Act Device String) d).2 := by
  have hsave := leads_save lib o prk puk d
  refine snd_bind rfl (hsave.mainSalted hmode hinit hd) fun _ => ?_
  have hformat := leads_generateRestoreDataFormat lib o prk puk (save lib o prk puk d).2
  have hboth : Frame d (generateRestoreDataFormat lib o prk puk (save lib o prk puk d).2).2 :=
    IsTrans.trans _ _ _ hsave hformat
  refine snd_bind rfl (hboth.mainSalted hmode hinit hd) fun _ => ?_
  obtain ⟨hmainAfter, htempAfter⟩ := hboth.mainSalted hmode hinit hd
  exact ⟨hmainAfter, htempAfter⟩

include hlib hmain htemp in
theorem generateBackUp_mainSalted (data : WalletData) (mode : Bool) (psw : String) (receiver : Bool) :
    MainSalted lib o main
      (generateBackUpRestoreDataFormat lib o data ⟨main, temp, mode, psw, receiver⟩).2 := by
  have hinit : Configured temp.initialise := Or.inr htemp.initialise
  have hstart : MainSalted lib o main ⟨main, temp.initialise, false, psw, receiver⟩ := ⟨Or.inl rfl, hinit⟩
  have hsalted : MainSalted lib o main ⟨main.salted lib o false, temp.initialise, false, psw, receiver⟩ :=
    ⟨Or.inr rfl, hinit⟩
  have hfirst : ∀ psw' bytes, (getPBKDF2Data lib o .DECRYPT psw' bytes
      ⟨main, temp.initialise, false, psw, receiver⟩).2 =
      ⟨main.salted lib o false, temp.initialise, false, psw, receiver⟩ := by
    intro psw' bytes
    rw [getPBKDF2Data_apply (d := ⟨main, temp.initialise, false, psw, receiver⟩) hlib hmain]
    rfl
  have hsecond : ∀ psw' bytes, (getPBKDF2Data lib o .DECRYPT psw' bytes
      ⟨main.salted lib o false, temp.initialise, false, psw, receiver⟩).2 =
      ⟨main.salted lib o false, temp.initialise, false, psw, receiver⟩ := by
    intro psw' bytes
    rw [getPBKDF2Data_apply (d := ⟨main.salted lib o false, temp.initialise, false, psw, receiver⟩) hlib hmain.salted]
    exact Device.salted_salted hlib ⟨main, temp.initialise, false, psw, receiver⟩
  unfold generateBackUpRestoreDataFormat
  rw [setPswInitMode, modify_bind_apply, bind_of_some (initProperties_apply _), setPswInitMode, modify_bind_apply]
  refine snd_bind rfl hstart fun hmacPsw => ?_
  refine snd_bind rfl hstart fun encPrk => ?_
  refine snd_bind (hfirst _ _) hsalted fun prk => ?_
  refine snd_bind rfl hsalted fun encPuk => ?_
  refine snd_bind (hsecond _ _) hsalted fun puk => ?_
  refine snd_bind rfl hsalted fun salt => ?_
  -- the rest is in the temporary preferences
  rw [modify_bind_apply, setValuesInPreferences, modify_bind_apply, setPassword, modify_bind_apply]
  exact mainSalted_tail prk puk rfl hmain.salted ⟨Or.inr rfl, Or.inr (htemp.initialise.putString rfl _)⟩

end Backup

/-! ## The steps -/

section Steps

variable {lib : Library} (hlib : lib.Sound)

include hlib in
/-- What is copied from complete temporary preferences verifies. -/
theorem hasWallet_updated {main temp : Prefs} (hmain : Initialised main) (htemp : Configured temp)
    (hwallet : HasWallet lib temp) (hversion : temp .VersionInfo = main .VersionInfo)
    (hos : temp .OSInfo = main .OSInfo) : HasWallet lib (updated main temp) := by
  obtain ⟨psw, hverifies⟩ := hwallet
  have hinit : Initialised temp := by
    rcases htemp with hunset | hinit
    · have hmainVersion : main .VersionInfo = "1" := hmain _ _ rfl
      rw [hunset .VersionInfo (by simp [settings]), hmainVersion] at hversion
      exact absurd hversion (by decide)
    · exact hinit
  obtain ⟨salt, hsalt, hmac⟩ := hverifies.mac hlib hinit
  have hmerged : mergedWalletData (updated main temp) = mergedWalletData temp := by
    rw [mergedWalletData_eq (initialised_updated hmain temp), mergedWalletData_eq hinit, hos]
    rfl
  refine ⟨psw, ?_, ?_⟩
  · intro key hkey
    have hsame : updated main temp key = temp key := by
      simp only [walletKeys, List.mem_cons, List.not_mem_nil, or_false] at hkey
      rcases hkey with rfl | rfl | rfl | rfl | rfl <;> rfl
    rw [hsame]
    exact hverifies.complete key hkey
  · have haddr : updated main temp .WalletAddr ≠ "" := hverifies.complete .WalletAddr (by simp [walletKeys])
    have hsaltText : updated main temp .SaltValue = temp .SaltValue := rfl
    have hmacText : updated main temp .MACData = temp .MACData := rfl
    rw [checkMACData_eq hlib (initialised_updated hmain temp).macSettings haddr, hsaltText, hsalt, Option.map_some,
      hmerged, hmacText]
    exact congrArg some (decide_eq_true hmac)

include hlib in
/-- A restore in which no cipher fails stores a complete wallet. -/
theorem hasWallet_restored {o : Outcomes} {main : Prefs} (hmain : Initialised main) (hwallet : HasWallet lib main)
    {temp : Prefs} {psw password : String} {receiver : Bool} {encPrk encPuk salt : List UInt8}
    (h : RestoreSucceeds lib o main password encPrk encPuk salt) :
    (saveParts lib o password encPrk encPuk salt ⟨main, temp, false, psw, receiver⟩).2.moaWallet = main ∨
      HasWallet lib (saveParts lib o password encPrk encPuk salt ⟨main, temp, false, psw, receiver⟩).2.moaWallet := by
  have hinit : Initialised (main.putString .SaltValue (lib.encode58 salt)) := hmain.putString rfl _
  obtain ⟨s, hs⟩ := exists_salt_putString (o := o) hlib main false salt
  rw [saveParts_apply (d := ⟨main, temp, false, psw, receiver⟩) hlib hmain password hs, Device.setPrefs_main]
  show ((main.putString .SaltValue (lib.encode58 salt)).salted lib o false).restored lib o password s encPrk encPuk =
      main ∨ HasWallet lib _
  unfold Prefs.restored
  by_cases hrsa : getRSAData o .ENCRYPT encPrk = []
  · have hsame : main.putString .SaltValue (lib.encode58 salt) = main := by
      rw [h.sameSalt hrsa]
      exact Function.update_eq_self _ main
    rw [hsame]
    exact Or.inl ((if_pos hrsa).trans (Prefs.salted_of_ne hwallet.salt_ne))
  · refine Or.inr ⟨password, ?_⟩
    rw [if_neg hrsa]
    exact verifies_walletPrefs hlib hinit.salted (Prefs.salted_ne hlib false _)
      ((Prefs.decode_salted hlib false _).trans hs) password (hlib.encode58_ne _ hrsa)
      (hlib.encode58_ne _ (h.publicKey_ne hrsa s hs)) (hlib.encode58_ne _ (address_ne hlib _))

include hlib in
/-- Every operation keeps the settings. -/
theorem ready_step {d : Device} (hd : Ready d) (op : Operation) : Ready (step lib d op) := by
  cases op with
  | setContext =>
    show Ready (initProperties d).2
    rw [initProperties_apply]
    obtain ⟨main, temp, mode, password, receiver⟩ := d
    cases mode with
    | false => exact ⟨Configured.initialise (Or.inr hd.main), hd.temp⟩
    | true => exact ⟨hd.main, Or.inr hd.temp.initialise⟩
  | setReceiver => exact ⟨hd.main, hd.temp⟩
  | createWallet password => exact ⟨hd.main, hd.temp⟩
  | getSignedTransaction o transaction password =>
    exact (leads_generateSignedTransaction lib o transaction password d).ready hd
  | restoreWallet o password msg => exact (leads_restoreWallet lib o password msg d).ready hd
  | removeWallet => exact (leads_removeWallet d).ready hd
  | generateWalletInitMsg o walletData =>
    obtain ⟨main, temp, mode, password, receiver⟩ := d
    obtain ⟨hmain, htemp⟩ := generateBackUp_mainSalted hlib hd.main hd.temp walletData mode password receiver (o := o)
    refine ⟨?_, htemp⟩
    rcases hmain with hmain | hmain
    · rw [step, hmain]
      exact hd.main
    · rw [step, hmain]
      exact Initialised.salted hd.main
  | updateWallet => exact ⟨initialised_updated hd.main _, Or.inl fun _ _ => rfl⟩
  | removeTempWallet => exact ⟨hd.main, Or.inl fun _ _ => rfl⟩
  | setPswInitMode isPswInitMode => exact ⟨hd.main, hd.temp⟩
  | getSalt o => exact (leads_getSalt lib o d).ready hd
  | onSuccessKeyPair o keys => exact (leads_onSuccessKeyPair lib o _ _ d).ready hd
  | onSuccessSign sign => exact ⟨hd.main, hd.temp⟩

/-- An operation that keeps to the mode and writes nothing but a missing salt. -/
theorem moaWallet_of_onlySalt {d d' : Device} (h : Frame d d') (hsalt : OnlySalt d d')
    (hwallet : HasWallet lib d.moaWallet) : d'.moaWallet = d.moaWallet := by
  cases hmode : d.isPswInitMode with
  | true => exact h.main hmode
  | false => exact hsalt.moaWallet hmode hwallet.salt_ne

include hlib in
theorem kept_step {d : Device} (hd : Ready d) {op : Operation} (hop : Careful lib d op) : Kept lib d op := by
  intro hwallet
  cases op with
  | setContext =>
    refine Or.inl ?_
    show (initProperties d).2.moaWallet = d.moaWallet
    rw [initProperties_apply]
    obtain ⟨main, temp, mode, password, receiver⟩ := d
    have hversion : main .VersionInfo = "1" := hd.main _ _ rfl
    have hsame : main.initialise = main := if_neg (by rw [hversion]; decide)
    cases mode with
    | false => exact hsame
    | true => rfl
  | setReceiver => exact Or.inl rfl
  | createWallet password => exact Or.inl rfl
  | getSignedTransaction o transaction password =>
    exact Or.inl (moaWallet_of_onlySalt (leads_generateSignedTransaction lib o transaction password d)
      (onlySalt_generateSignedTransaction lib o transaction password d) hwallet)
  | restoreWallet o password msg =>
    obtain ⟨main, temp, mode, psw, receiver⟩ := d
    cases mode with
    | true => exact Or.inl ((leads_restoreWallet lib o password msg _).main rfl)
    | false =>
      have hcases := @restoreWallet_cases lib o ⟨main, temp, false, psw, receiver⟩ password msg
      rcases hcases with hsame | ⟨hreceiver, encPrk, encPuk, salt, hparts, hstored⟩
      · exact Or.inl (congrArg Device.moaWallet hsame)
      · have hsucceeds := hop hwallet rfl hreceiver encPrk encPuk salt hparts
        rw [step, hstored]
        rcases hasWallet_restored hlib hd.main hwallet hsucceeds with h | h
        · exact Or.inl h
        · exact Or.inr (Or.inl h)
  | removeWallet =>
    cases hmode : d.isPswInitMode with
    | true => exact Or.inl ((leads_removeWallet d).main hmode)
    | false => exact Or.inr (Or.inr ⟨rfl, rfl⟩)
  | generateWalletInitMsg o walletData =>
    obtain ⟨main, temp, mode, password, receiver⟩ := d
    obtain ⟨hmain, _⟩ := generateBackUp_mainSalted hlib hd.main hd.temp walletData mode password receiver (o := o)
    rcases hmain with hmain | hmain
    · exact Or.inl hmain
    · exact Or.inl (hmain.trans (Prefs.salted_of_ne hwallet.salt_ne))
  | updateWallet =>
    obtain ⟨htemp, hversion, hos⟩ := hop hwallet
    exact Or.inr (Or.inl (hasWallet_updated hlib hd.main hd.temp htemp hversion hos))
  | removeTempWallet => exact Or.inl rfl
  | setPswInitMode isPswInitMode => exact Or.inl rfl
  | getSalt o => exact Or.inl (moaWallet_of_onlySalt (leads_getSalt lib o d) (onlySalt_getSalt lib o d) hwallet)
  | onSuccessKeyPair o keys =>
    cases hmode : d.isPswInitMode with
    | true => exact Or.inl ((leads_onSuccessKeyPair lib o _ _ d).main hmode)
    | false =>
      rcases onSuccessKeyPair_main hlib hmode hd.main hwallet keys with h | h
      · exact Or.inl h
      · exact Or.inr (Or.inl h)
  | onSuccessSign sign => exact Or.inl rfl

end Steps

/-! ## The runs -/

/-- The temporary preferences do not get a private key. -/
def NoKey (d d' : Device) : Prop := d.tempWallet .CipheredData = "" → d'.tempWallet .CipheredData = ""

instance : Std.Refl NoKey where
  refl _ h := h

instance : IsTrans Device NoKey where
  trans _ _ _ h h' hd := h' (h hd)

section NoKey

variable (lib : Library) {o : Outcomes}

theorem noKey_set {key : PrefKey} (h : key ≠ .CipheredData) (value : String) :
    Leads NoKey (setValuesInPreferences key value) := by
  refine Leads.modify fun d hd => ?_
  obtain ⟨main, temp, mode, password, receiver⟩ := d
  cases mode with
  | false => exact hd
  | true => exact (Prefs.putString_of_ne temp h.symm value).trans hd

theorem noKey_setPassword (password : String) : Leads NoKey (setPassword password) := Leads.modify fun _ h => h

theorem noKey_setPswInitMode (mode : Bool) : Leads NoKey (setPswInitMode mode) := Leads.modify fun _ h => h

theorem noKey_initProperties : Leads NoKey initProperties := by
  refine Leads.bind (Leads.gets _) fun _ => Leads.ite (Leads.pure _) ?_
  refine Leads.bind (noKey_set (by decide) _) fun _ => Leads.bind (noKey_set (by decide) _) fun _ => ?_
  refine Leads.bind (noKey_set (by decide) _) fun _ => Leads.bind (noKey_set (by decide) _) fun _ => ?_
  refine Leads.bind (noKey_set (by decide) _) fun _ => Leads.bind (noKey_set (by decide) _) fun _ => ?_
  refine Leads.bind (noKey_set (by decide) _) fun _ => Leads.bind (noKey_set (by decide) _) fun _ => ?_
  exact noKey_set (by decide) _

theorem noKey_getSalt : Leads NoKey (getSalt lib o) := by
  refine Leads.bind (Leads.gets _) fun base58Salt => Leads.ite ?_ (Leads.orThrow _)
  exact Leads.bind Leads.get fun _ => Leads.bind (noKey_set (by decide) _) fun _ => Leads.pure _

variable (hrsa : ∀ data, getRSAData o .ENCRYPT data = [])

include hrsa

/-- Without RSA nothing is saved. -/
theorem noKey_save (prk puk : List UInt8) : Leads NoKey (save lib o prk puk) := by
  refine Leads.bind (Leads.bind (Leads.gets _) fun _ => Leads.orThrow _) fun _ => Leads.ite (Leads.pure _) ?_
  refine Leads.bind Leads.get fun _ => Leads.bind (leadsAlong_getPBKDF2Data (noKey_getSalt lib) _ _ _) fun first => ?_
  refine Leads.ite (Leads.pure _) ?_
  rw [if_pos (hrsa first)]
  exact Leads.pure _

/-- A reset in which RSA fails goes on to its end without a key in the temporary preferences. -/
theorem noKey_generateBackUp (walletData : WalletData) :
    Leads NoKey (generateBackUpRestoreDataFormat lib o walletData) := by
  have hdecrypt : ∀ psw bytes, Leads NoKey (getPBKDF2Data lib o .DECRYPT psw bytes) := fun psw bytes =>
    leadsAlong_getPBKDF2Data (noKey_getSalt lib) .DECRYPT psw bytes
  refine Leads.bind (noKey_setPswInitMode _) fun _ => Leads.bind noKey_initProperties fun _ => ?_
  refine Leads.bind (noKey_setPswInitMode _) fun _ => Leads.bind (Leads.orThrow _) fun _ => ?_
  refine Leads.bind (Leads.orThrow _) fun _ => Leads.bind (hdecrypt _ _) fun prk => ?_
  refine Leads.bind (Leads.orThrow _) fun _ => Leads.bind (hdecrypt _ _) fun puk => ?_
  refine Leads.bind (Leads.orThrow _) fun _ => Leads.bind (noKey_setPswInitMode _) fun _ => ?_
  refine Leads.bind (noKey_set (by decide) _) fun _ => Leads.bind (noKey_setPassword _) fun _ => ?_
  refine Leads.bind (noKey_save lib hrsa prk puk) fun _ => ?_
  refine Leads.bind (leadsAlong_generateRestoreDataFormat (noKey_getSalt lib) prk puk) fun _ => ?_
  exact Leads.bind (noKey_setPassword _) fun _ => Leads.bind (noKey_setPswInitMode _) fun _ => Leads.pure _

end NoKey

/-- An update without a key in the temporary preferences loses the wallet. -/
theorem not_kept_updateWallet {lib : Library} {d : Device} (hwallet : HasWallet lib d.moaWallet)
    (htemp : d.tempWallet .CipheredData = "") : ¬ Kept lib d .updateWallet := by
  have hlost : ¬ HasWallet lib (step lib d .updateWallet).moaWallet := by
    rintro ⟨psw, hverifies⟩
    exact hverifies.complete .CipheredData (by simp [walletKeys]) htemp
  intro hkept
  rcases hkept hwallet with hsame | h | ⟨hremove, _⟩
  · exact hlost (by rwa [hsame])
  · exact hlost h
  · cases hremove

/-- A call in which the key store fails. -/
def rsaFails : Outcomes := { plainOutcomes with doFinal := fun _ _ => none }

/-- The restore data of the wallet of `plainHexKeys`. -/
def plainWalletData : WalletData :=
  ⟨"id", "1", plainEncryptedPsw, Base64.encode [7] ++ "$" ++ Base64.encode [4, 5] ++ "$" ++
    Base64.encode (List.replicate 32 1), byteArrayToHexString (plainPsw 2)⟩

end MoaCrypto.Android
