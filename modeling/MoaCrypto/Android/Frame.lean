import MoaCrypto.Android.Saved

/-!
# What the functions of the Android wallet leave alone

`Frame` says what no function that keeps to the selected mode changes: the other preference file, the mode
and the settings of both files.  `OnlySalt` says more of the functions that write nothing but a missing
salt.  Both are proved of the parts and carried over sequences by `Act.Leads.bind`.
-/

namespace MoaCrypto.Android

open Java Act

/-- The mode, the preference file that is not selected, and all settings are as before. -/
structure Frame (d d' : Device) : Prop where
  mode : d'.isPswInitMode = d.isPswInitMode
  main : d.isPswInitMode = true → d'.moaWallet = d.moaWallet
  temp : d.isPswInitMode = false → d'.tempWallet = d.tempWallet
  same : ∀ key, settings key ≠ none → d'.moaWallet key = d.moaWallet key ∧ d'.tempWallet key = d.tempWallet key

instance : Std.Refl Frame where
  refl _ := ⟨rfl, fun _ => rfl, fun _ => rfl, fun _ _ => ⟨rfl, rfl⟩⟩

instance : IsTrans Device Frame where
  trans _ _ _ h h' :=
    ⟨h'.mode.trans h.mode, fun hm => (h'.main (h.mode.trans hm)).trans (h.main hm),
      fun hm => (h'.temp (h.mode.trans hm)).trans (h.temp hm),
      fun key hk => ⟨(h'.same key hk).1.trans (h.same key hk).1,
        (h'.same key hk).2.trans (h.same key hk).2⟩⟩

/-- The mode is as before, and so are the selected preferences, unless they had no salt. -/
structure OnlySalt (d d' : Device) : Prop where
  mode : d'.isPswInitMode = d.isPswInitMode
  prefs : d.prefs .SaltValue ≠ "" → d'.prefs = d.prefs

instance : Std.Refl OnlySalt where
  refl _ := ⟨rfl, fun _ => rfl⟩

instance : IsTrans Device OnlySalt where
  trans _ _ _ h h' :=
    ⟨h'.mode.trans h.mode, fun hs => (h'.prefs (by rwa [h.prefs hs])).trans (h.prefs hs)⟩

theorem frame_setPrefs {d : Device} {q : Prefs} (h : ∀ key, settings key ≠ none → q key = d.prefs key) :
    Frame d (d.setPrefs q) := by
  obtain ⟨main, temp, mode, password, receiver⟩ := d
  cases mode with
  | false => exact ⟨rfl, fun hm => (by cases hm), fun _ => rfl, fun key hk => ⟨h key hk, rfl⟩⟩
  | true => exact ⟨rfl, fun _ => rfl, fun hm => (by cases hm), fun key hk => ⟨rfl, h key hk⟩⟩

/-- Writing a key that is no setting. -/
theorem leads_set {key : PrefKey} (h : settings key = none) (value : String) :
    Leads Frame (setValuesInPreferences key value) := by
  refine Leads.modify fun d => frame_setPrefs fun other hother => ?_
  have hne : other ≠ key := by
    rintro rfl
    exact hother h
  rw [Prefs.putString_of_ne _ hne]

theorem leads_setPassword (password : String) : Leads Frame (setPassword password) :=
  Leads.modify fun _ => ⟨rfl, fun _ => rfl, fun _ => rfl, fun _ _ => ⟨rfl, rfl⟩⟩

theorem onlySalt_setPassword (password : String) : Leads OnlySalt (setPassword password) :=
  Leads.modify fun _ => ⟨rfl, fun _ => rfl⟩

/-! ## The functions that write through `getSalt` only -/

section Rules

variable {R : Device → Device → Prop} [Std.Refl R] [IsTrans Device R] {lib : Library} {o : Outcomes}
  (hsalt : Leads R (getSalt lib o))

include hsalt

theorem leadsAlong_getPBKDF2Data (encOrDecMode : CipherMode) (psw : String) (data : List UInt8) :
    Leads R (getPBKDF2Data lib o encOrDecMode psw data) := by
  have hkey : Leads R (generateDerivedKey lib o psw) :=
    Leads.bind hsalt fun _ => Leads.bind (Leads.gets _) fun _ => Leads.bind (Leads.orThrow _) fun _ => Leads.pure _
  refine Leads.bind hkey fun _ => Leads.ite (Leads.pure _) ?_
  exact Leads.bind (Leads.gets _) fun _ => Leads.bind (Leads.orThrow _) fun _ =>
    Leads.bind (Leads.orThrow _) fun _ => Leads.pure _

theorem leadsAlong_generateRestoreDataFormat (prk puk : List UInt8) :
    Leads R (generateRestoreDataFormat lib o prk puk) :=
  Leads.bind Leads.get fun _ => Leads.bind (leadsAlong_getPBKDF2Data hsalt _ _ _) fun _ =>
    Leads.ite (Leads.pure _) <| Leads.bind (leadsAlong_getPBKDF2Data hsalt _ _ _) fun _ =>
      Leads.ite (Leads.pure _) <| Leads.bind (Leads.gets _) fun _ => Leads.bind (Leads.orThrow _) fun _ =>
        Leads.bind hsalt fun _ => Leads.pure _

theorem leadsAlong_getDecryptedPrivateKey (psw : String) : Leads R (getDecryptedPrivateKey lib o psw) :=
  Leads.bind (Leads.gets _) fun _ => Leads.ite (Leads.pure _) <|
    Leads.bind (Leads.orThrow _) fun _ => leadsAlong_getPBKDF2Data hsalt _ _ _

/-- A failed check is a signature that is empty. -/
theorem leadsAlong_generateSignedTransaction (hsign : ∀ sign, Leads R (onSuccessSign sign))
    (transaction password : String) : Leads R (generateSignedTransaction lib o transaction password) := by
  refine Leads.bind (Leads.gets _) fun _ => Leads.bind (Leads.orThrow _) fun _ => Leads.ite ?_ ?_
  · exact Leads.bind (hsign _) fun _ => Leads.pure _
  · refine Leads.bind (leadsAlong_getDecryptedPrivateKey hsalt password) fun _ => Leads.ite ?_ ?_
    · exact Leads.bind (hsign _) fun _ => Leads.pure _
    · exact Leads.bind (Leads.gets _) fun _ => Leads.pure _

end Rules

/-! ## The functions one by one -/

section Frames

variable (lib : Library) (o : Outcomes)

theorem leads_getSalt : Leads Frame (getSalt lib o) := by
  refine Leads.bind (Leads.gets _) fun base58Salt => Leads.ite ?_ (Leads.orThrow _)
  exact Leads.bind Leads.get fun _ => Leads.bind (leads_set rfl _) fun _ => Leads.pure _

theorem onlySalt_getSalt : Leads OnlySalt (getSalt lib o) := by
  intro d
  rw [getSalt_apply]
  exact ⟨Device.isPswInitMode_salted d, fun h => by rw [Device.salted_of_ne h]⟩

theorem leads_generateAddress (publicKey : List UInt8) : Leads Frame (generateAddress lib publicKey) :=
  Leads.bind (Leads.gets _) fun _ => Leads.orThrow _

theorem leads_setWalletPref (cipheredPrk puk addr : String) :
    Leads Frame (setWalletPref lib cipheredPrk puk addr) :=
  Leads.bind (leads_set rfl _) fun _ => Leads.bind (leads_set rfl _) fun _ =>
    Leads.bind (leads_set rfl _) fun _ => Leads.bind (leads_set rfl _) fun _ =>
    Leads.bind Leads.get fun _ => Leads.bind (Leads.orThrow _) fun _ => leads_set rfl _

theorem leads_save (prk puk : List UInt8) : Leads Frame (save lib o prk puk) :=
  Leads.bind (leads_generateAddress lib puk) fun _ => Leads.ite (Leads.pure _) <|
    Leads.bind Leads.get fun _ => Leads.bind (leadsAlong_getPBKDF2Data (leads_getSalt lib o) _ _ _) fun _ =>
      Leads.ite (Leads.pure _) <| Leads.ite (Leads.pure _) (leads_setWalletPref lib _ _ _)

theorem leads_generateRestoreDataFormat (prk puk : List UInt8) :
    Leads Frame (generateRestoreDataFormat lib o prk puk) :=
  leadsAlong_generateRestoreDataFormat (leads_getSalt lib o) prk puk

theorem leads_saveParts (password : String) (encPrk encPuk salt : List UInt8) :
    Leads Frame (saveParts lib o password encPrk encPuk salt) := by
  refine Leads.bind (leads_set rfl _) fun _ => Leads.bind (leads_setPassword _) fun _ => ?_
  refine Leads.bind (leadsAlong_getPBKDF2Data (leads_getSalt lib o) _ _ _) fun _ => ?_
  refine Leads.bind (leads_generateAddress lib _) fun _ => Leads.ite (leads_setPassword _) ?_
  refine Leads.ite (leads_setPassword _) ?_
  exact Leads.bind (leads_setWalletPref lib _ _ _) fun _ => leads_setPassword _

theorem leads_saveMsg (password msg : String) : Leads Frame (saveMsg lib o password msg) :=
  Leads.bind Leads.get fun _ => Leads.ite (Leads.pure _) <| Leads.ite (Leads.pure _) <|
    Leads.bind (Leads.orThrow _) fun _ => leads_saveParts lib o _ _ _ _

theorem leads_restoreWallet (password msg : String) : Leads Frame (restoreWallet lib o password msg) :=
  Leads.bind (Leads.gets _) fun _ => Leads.bind (Leads.orThrow _) fun _ => Leads.ite
    (Leads.bind (Leads.orThrow _) fun _ => leads_saveMsg lib o _ _) (Leads.pure _)

theorem leads_onSuccessKeyPair (prk puk : Option String) : Leads Frame (onSuccessKeyPair lib o prk puk) := by
  refine Leads.bind Leads.get fun d => Leads.ite (Leads.pure _) ?_
  cases prk with
  | none => exact Leads.pure _
  | some prk =>
    cases puk with
    | none => exact Leads.pure _
    | some puk =>
      exact Leads.bind (Leads.orThrow _) fun _ => Leads.bind (Leads.orThrow _) fun _ =>
        Leads.bind (leads_save lib o _ _) fun _ => Leads.bind (leads_generateRestoreDataFormat lib o _ _) fun _ =>
        Leads.bind (leads_setPassword _) fun _ => Leads.pure _

theorem leads_onSuccessSign (sign : String) : Leads Frame (onSuccessSign sign) :=
  Leads.bind (leads_setPassword _) fun _ => Leads.bind Leads.get fun _ => Leads.pure _

theorem onlySalt_onSuccessSign (sign : String) : Leads OnlySalt (onSuccessSign sign) :=
  Leads.bind (onlySalt_setPassword _) fun _ => Leads.bind Leads.get fun _ => Leads.pure _

theorem leads_generateSignedTransaction (transaction password : String) :
    Leads Frame (generateSignedTransaction lib o transaction password) :=
  leadsAlong_generateSignedTransaction (leads_getSalt lib o) leads_onSuccessSign transaction password

theorem onlySalt_generateSignedTransaction (transaction password : String) :
    Leads OnlySalt (generateSignedTransaction lib o transaction password) :=
  leadsAlong_generateSignedTransaction (onlySalt_getSalt lib o) onlySalt_onSuccessSign transaction password

theorem leads_removeWallet : Leads Frame removeWallet :=
  Leads.bind (leads_set rfl _) fun _ => Leads.bind (leads_set rfl _) fun _ =>
    Leads.bind (leads_set rfl _) fun _ => leads_set rfl _

end Frames

/-! ## The settings of a device -/

/-- The main preferences have the settings, the temporary ones have them all or none. -/
structure Ready (d : Device) : Prop where
  main : Initialised d.moaWallet
  temp : Configured d.tempWallet

theorem Frame.ready {d d' : Device} (h : Frame d d') (hd : Ready d) : Ready d' := by
  have hsome : ∀ key value, settings key = some value → settings key ≠ none := by
    intro key value hkey hnone
    rw [hkey] at hnone
    cases hnone
  refine ⟨fun key value hkey => ?_, ?_⟩
  · rw [(h.same key (hsome key value hkey)).1, hd.main key value hkey]
  · rcases hd.temp with hunset | hinit
    · exact Or.inl fun key hkey => (h.same key hkey).2.trans (hunset key hkey)
    · exact Or.inr fun key value hkey => (h.same key (hsome key value hkey)).2.trans (hinit key value hkey)

/-- The selected preferences keep the settings. -/
theorem Frame.initialised {d d' : Device} (h : Frame d d') (hd : Initialised d.prefs) : Initialised d'.prefs := by
  intro key value hkey
  have hsame := h.same key (by rw [hkey]; exact Option.some_ne_none value)
  have hvalue := hd key value hkey
  unfold Device.prefs at hvalue ⊢
  rw [h.mode]
  cases hmode : d.isPswInitMode with
  | false =>
    rw [hmode] at hvalue
    exact hsame.1.trans hvalue
  | true =>
    rw [hmode] at hvalue
    exact hsame.2.trans hvalue

end MoaCrypto.Android
