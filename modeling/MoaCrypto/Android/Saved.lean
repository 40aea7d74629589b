import MoaCrypto.Android.Wallet

/-!
# What the functions of the Android wallet do on initialised preferences

`settings` are the values that `initProperties` writes.  On preferences that hold them each function has
one equation: `getSalt_apply`, `getPBKDF2Data_apply`, `generateMACData_eq`, `setWalletPref_apply`,
`save_apply`, `saveParts_apply`, `generateRestoreDataFormat_apply`.  `Verifies` says that a complete wallet passes the check
under a password; what `setWalletPref` writes does (`verifies_walletPrefs`).
-/

namespace MoaCrypto.Android

open Java

/-! ## The settings -/

/-- What `initProperties` writes. -/
def settings : PrefKey → Option String
  | .VersionInfo => some "1"
  | .SymmetricAlg => some "AES/CTR/NoPadding"
  | .SymmetricKeySize => some "256"
  | .HashAlg => some "SHA256"
  | .SignatureAlg => some "SHA256withECDSA"
  | .ECCAlg => some "EC"
  | .ECCCurve => some "secp256r1"
  | .MACAlg => some "HmacSHA256"
  | .IterationCount => some "4096"
  | _ => none

def Initialised (q : Prefs) : Prop := ∀ key value, settings key = some value → q key = value

/-- The settings, unless there are any. -/
def Prefs.initialise (q : Prefs) : Prefs :=
  if q .VersionInfo = "" then fun key => (settings key).getD (q key) else q

/-- Without settings, or with all of them. -/
def Configured (q : Prefs) : Prop := (∀ key, settings key ≠ none → q key = "") ∨ Initialised q

theorem Configured.initialise {q : Prefs} (hq : Configured q) : Initialised q.initialise := by
  by_cases hempty : q .VersionInfo = ""
  · intro key value h
    rw [Prefs.initialise, if_pos hempty, h, Option.getD_some]
  · rw [Prefs.initialise, if_neg hempty]
    rcases hq with hq | hq
    · exact absurd (hq .VersionInfo (by simp [settings])) hempty
    · exact hq

theorem Initialised.putString {q : Prefs} (hq : Initialised q) {key : PrefKey} (h : settings key = none)
    (value : String) : Initialised (q.putString key value) := by
  intro other v hv
  have hne : other ≠ key := by
    rintro rfl
    rw [h] at hv
    cases hv
  rw [Prefs.putString_of_ne q hne, hq other v hv]

theorem initProperties_apply (d : Device) : initProperties d = (some (), d.setPrefs d.prefs.initialise) := by
  rw [initProperties, getValuesInPreferences, Act.gets_bind_apply, Prefs.initialise]
  by_cases hempty : d.prefs .VersionInfo = ""
  · have hsettings : ((((((((d.prefs.putString .VersionInfo "1").putString .SymmetricAlg
        "AES/CTR/NoPadding").putString .SymmetricKeySize "256").putString .HashAlg "SHA256").putString
        .SignatureAlg "SHA256withECDSA").putString .ECCAlg "EC").putString .ECCCurve "secp256r1").putString
        .MACAlg "HmacSHA256").putString .IterationCount "4096" =
        fun key => (settings key).getD (d.prefs key) := by
      funext key
      cases key <;> rfl
    rw [if_neg (not_not.mpr hempty), if_pos hempty]
    simp only [setValuesInPreferences, Act.modify_bind_apply, Act.modify_apply, Device.prefs_setPrefs,
      Device.setPrefs_setPrefs, hsettings]
  · rw [if_pos hempty, if_neg hempty, Device.setPrefs_prefs]
    rfl

/-! ## The salt -/

section Salt

variable (lib : Library) (o : Outcomes)

/-- The salt that a call works with: the stored one, or a new one. -/
def Prefs.salt (isPswInitMode : Bool) (q : Prefs) : Option (List UInt8) :=
  if q .SaltValue = "" then some (o.nextBytes isPswInitMode) else lib.decode58 (q .SaltValue)

/-- A new salt is stored. -/
def Prefs.salted (isPswInitMode : Bool) (q : Prefs) : Prefs :=
  if q .SaltValue = "" then q.putString .SaltValue (lib.encode58 (o.nextBytes isPswInitMode)) else q

def Device.salt (d : Device) : Option (List UInt8) := d.prefs.salt lib o d.isPswInitMode

def Device.salted (d : Device) : Device := d.setPrefs (d.prefs.salted lib o d.isPswInitMode)

variable {lib o}

theorem nextBytes_ne (o : Outcomes) (mode : Bool) : o.nextBytes mode ≠ [] := by
  intro he
  have hlength := o.length_nextBytes mode
  rw [he] at hlength
  cases hlength

namespace Prefs

theorem salted_of_ne {mode : Bool} {q : Prefs} (h : q .SaltValue ≠ "") : q.salted lib o mode = q := if_neg h

theorem salted_ne (hlib : lib.Sound) (mode : Bool) (q : Prefs) : q.salted lib o mode .SaltValue ≠ "" := by
  by_cases h : q .SaltValue = ""
  · rw [salted, if_pos h, putString_self]
    exact hlib.encode58_ne _ (nextBytes_ne o mode)
  · rwa [salted_of_ne h]

/-- The stored text is that of the salt that is worked with. -/
theorem decode_salted (hlib : lib.Sound) (mode : Bool) (q : Prefs) :
    lib.decode58 (q.salted lib o mode .SaltValue) = q.salt lib o mode := by
  by_cases h : q .SaltValue = ""
  · rw [salted, salt, if_pos h, if_pos h, putString_self, hlib.decode58]
  · rw [salted_of_ne h, salt, if_neg h]

theorem salted_apply {mode : Bool} {q : Prefs} {key : PrefKey} (h : key ≠ .SaltValue) :
    q.salted lib o mode key = q key := by
  by_cases hempty : q .SaltValue = ""
  · rw [salted, if_pos hempty, putString_of_ne _ h]
  · rw [salted_of_ne hempty]

end Prefs

theorem Initialised.salted {mode : Bool} {q : Prefs} (hq : Initialised q) : Initialised (q.salted lib o mode) := by
  intro key value hkey
  have hne : key ≠ .SaltValue := by
    rintro rfl
    cases hkey
  rw [Prefs.salted_apply hne, hq key value hkey]

namespace Device

theorem salted_of_ne {d : Device} (h : d.prefs .SaltValue ≠ "") : d.salted lib o = d := by
  rw [salted, Prefs.salted_of_ne h, setPrefs_prefs]

@[simp] theorem prefs_salted (d : Device) :
    (d.salted lib o).prefs = d.prefs.salted lib o d.isPswInitMode := prefs_setPrefs d _

@[simp] theorem password_salted (d : Device) : (d.salted lib o).password = d.password := password_setPrefs d _

@[simp] theorem isPswInitMode_salted (d : Device) : (d.salted lib o).isPswInitMode = d.isPswInitMode :=
  isPswInitMode_setPrefs d _

theorem salted_salted (hlib : lib.Sound) (d : Device) : (d.salted lib o).salted lib o = d.salted lib o :=
  salted_of_ne (by rw [prefs_salted]; exact Prefs.salted_ne hlib _ _)

theorem salt_salted (hlib : lib.Sound) (d : Device) : (d.salted lib o).salt lib o = d.salt lib o := by
  rw [salt, prefs_salted, Prefs.salt, if_neg (Prefs.salted_ne hlib _ _), Prefs.decode_salted hlib]
  rfl

end Device

end Salt

section Initialised

variable {lib : Library} {o : Outcomes} {d : Device}

theorem getSalt_apply : getSalt lib o d = (d.salt lib o, d.salted lib o) := by
  rw [getSalt, getValuesInPreferences, Act.gets_bind_apply]
  by_cases h : d.prefs .SaltValue = ""
  · rw [if_pos h, Device.salt, Device.salted, Prefs.salt, Prefs.salted, if_pos h, if_pos h]
    rfl
  · rw [if_neg h, Device.salt, Device.salted_of_ne h, Prefs.salt, if_neg h]
    rfl

/-- What the symmetric cipher gives under a password and a salt. -/
def symmetricData (lib : Library) (o : Outcomes) (encOrDecMode : CipherMode) (psw : String)
    (salt data : List UInt8) : List UInt8 :=
  let derivedKey := lib.kdfGen (utf8 psw) salt 4096 48
  o.getSymmetricData "AES/CTR/NoPadding" (derivedKey.drop 32) (derivedKey.take 32) encOrDecMode data

theorem valueOf_count : Integer.valueOf "4096" = some 4096 := by
  show Integer.valueOf (String.ofList (intDigits 4096)) = _
  rw [valueOf_intDigits, if_pos (by decide)]

theorem keyBytes_256 : keyBytes "256" = some 32 := by
  have hvalue : Integer.valueOf "256" = some 256 := by
    show Integer.valueOf (String.ofList (intDigits 256)) = _
    rw [valueOf_intDigits, if_pos (by decide)]
  rw [keyBytes, hvalue]
  rfl

variable (hlib : lib.Sound) (hq : Initialised d.prefs)

include hq in
theorem generateDerivedKey_apply (psw : String) : generateDerivedKey lib o psw d =
    ((d.salt lib o).map fun salt => lib.kdfGen (utf8 psw) salt 4096 48, d.salted lib o) := by
  have hcount : d.prefs.salted lib o d.isPswInitMode .IterationCount = "4096" := hq.salted _ _ rfl
  unfold generateDerivedKey
  cases hsalt : d.salt lib o with
  | none =>
    rw [Act.bind_of_none (getSalt_apply.trans (by rw [hsalt]))]
    rfl
  | some salt =>
    rw [Act.bind_of_some (getSalt_apply.trans (by rw [hsalt]))]
    simp only [getValuesInPreferences, Act.gets_bind_apply, Device.prefs_salted, hcount, valueOf_count, Act.orThrow_some_bind_apply,
      Act.pure_apply, Option.map_some]

include hlib hq in
theorem getPBKDF2Data_apply (encOrDecMode : CipherMode) (psw : String) (data : List UInt8) :
    getPBKDF2Data lib o encOrDecMode psw data d =
      ((d.salt lib o).map fun salt => symmetricData lib o encOrDecMode psw salt data, d.salted lib o) := by
  have hsize : d.prefs.salted lib o d.isPswInitMode .SymmetricKeySize = "256" := hq.salted _ _ rfl
  have halg : d.prefs.salted lib o d.isPswInitMode .SymmetricAlg = "AES/CTR/NoPadding" := hq.salted _ _ rfl
  unfold getPBKDF2Data
  cases hsalt : d.salt lib o with
  | none =>
    rw [Act.bind_of_none ((generateDerivedKey_apply hq psw).trans (by rw [hsalt]; rfl))]
    rfl
  | some salt =>
    rw [Act.bind_of_some ((generateDerivedKey_apply hq psw).trans (by rw [hsalt]; rfl))]
    have hlength := hlib.length_kdfGen (utf8 psw) salt 4096 48
    have hcopy := copyOf_of_le (show 32 ≤ (lib.kdfGen (utf8 psw) salt 4096 48).length by omega)
    have hiv := copyOfRange_of_le (show 32 ≤ (lib.kdfGen (utf8 psw) salt 4096 48).length by omega) le_rfl
    rw [List.take_length] at hiv
    rw [if_neg (by simpa using hlength)]
    simp only [Act.gets_bind_apply, Device.prefs_salted, hsize, keyBytes_256, Act.orThrow_some_bind_apply, hiv, halg,
      Act.pure_apply, Option.map_some, symmetricData, hcopy]

include hlib hq in
theorem getPBKDF2Data_of_salt {salt : List UInt8} (hsalt : d.salt lib o = some salt)
    (encOrDecMode : CipherMode) (psw : String) (data : List UInt8) :
    getPBKDF2Data lib o encOrDecMode psw data d =
      (some (symmetricData lib o encOrDecMode psw salt data), d.salted lib o) := by
  rw [getPBKDF2Data_apply hlib hq, hsalt, Option.map_some]

include hlib hq in
theorem getPBKDF2Data_of_none (hsalt : d.salt lib o = none) (encOrDecMode : CipherMode) (psw : String)
    (data : List UInt8) : getPBKDF2Data lib o encOrDecMode psw data d = (none, d.salted lib o) := by
  rw [getPBKDF2Data_apply hlib hq, hsalt, Option.map_none]

/-- The address of a public key. -/
def address (lib : Library) (publicKey : List UInt8) : List UInt8 := (lib.sha256 publicKey).drop 12

include hlib in
theorem address_ne (publicKey : List UInt8) : address lib publicKey ≠ [] := by
  intro he
  have hlength := congrArg List.length he
  rw [address, List.length_drop, hlib.length_sha256] at hlength
  cases hlength

include hlib hq in
theorem generateAddress_apply (publicKey : List UInt8) :
    generateAddress lib publicKey d = (some (address lib publicKey), d) := by
  have hhash : d.prefs .HashAlg = "SHA256" := hq _ _ rfl
  have hrange := copyOfRange_of_le (show 12 ≤ (lib.sha256 publicKey).length by rw [hlib.length_sha256]; omega) le_rfl
  rw [generateAddress, getValuesInPreferences, Act.gets_bind_apply, hhash]
  simp only [hashDigest, hlib.messageDigest_SHA256, hrange, List.take_length, Act.orThrow_apply, address]

/-! ## The MAC -/

/-- The MAC of a text under a salt and a password. -/
def macData (lib : Library) (salt : List UInt8) (psw targetMacData : String) : String :=
  lib.encode58 (lib.hmacSha256 (utf8 targetMacData) (lib.sha256 (salt ++ utf8 psw)))

/-- The settings that a MAC depends on. -/
structure MacSettings (q : Prefs) : Prop where
  hashAlg : q .HashAlg = "SHA256"
  macAlg : q .MACAlg = "HmacSHA256"

theorem Initialised.macSettings {q : Prefs} (hq : Initialised q) : MacSettings q := ⟨hq _ _ rfl, hq _ _ rfl⟩

include hlib in
theorem generateMACData_eq {q : Prefs} (hq : MacSettings q) (base58Salt psw targetMacData : String) :
    generateMACData lib q base58Salt psw targetMacData =
      (lib.decode58 base58Salt).map fun salt => macData lib salt psw targetMacData := by
  unfold generateMACData
  cases lib.decode58 base58Salt with
  | none => rfl
  | some salt =>
    have hkey : lib.sha256 (salt ++ utf8 psw) ≠ [] := by
      intro he
      have hlength := hlib.length_sha256 (salt ++ utf8 psw)
      rw [he] at hlength
      cases hlength
    simp only [Option.bind_eq_bind, Option.bind_some, hq.hashAlg, hq.macAlg, hashDigest, hmacDigest,
      hlib.messageDigest_SHA256, hlib.mac_HmacSHA256, if_neg hkey, Option.map_some, macData]

/-- The preferences with the fields of a wallet. -/
def walletPrefs (lib : Library) (q : Prefs) (salt : List UInt8) (psw cipheredPrk puk addr : String) : Prefs :=
  let q := (((q.putString .CipheredData cipheredPrk).putString .WalletPublicKey puk).putString
    .WalletAddr addr).putString .OSInfo lib.osName
  q.putString .MACData (macData lib salt psw (mergedWalletData q))

include hlib hq in
theorem setWalletPref_apply {salt : List UInt8} (hsalt : lib.decode58 (d.prefs .SaltValue) = some salt)
    (cipheredPrk puk addr : String) :
    setWalletPref lib cipheredPrk puk addr d =
      (some (), d.setPrefs (walletPrefs lib d.prefs salt d.password cipheredPrk puk addr)) := by
  have hinit := (((hq.putString (show settings .CipheredData = none from rfl) cipheredPrk).putString
    (show settings .WalletPublicKey = none from rfl) puk).putString
    (show settings .WalletAddr = none from rfl) addr).putString (show settings .OSInfo = none from rfl) lib.osName
  simp only [setWalletPref, setValuesInPreferences, Act.modify_bind_apply, Act.get_bind_apply,
    Device.prefs_setPrefs, Device.setPrefs_setPrefs, Device.password_setPrefs, generateMACData_eq hlib hinit.macSettings]
  simp only [ne_eq, reduceCtorEq, not_false_eq_true, Prefs.putString_of_ne, hsalt, Option.map_some,
    Act.orThrow_some_bind_apply, Act.modify_apply, Device.prefs_setPrefs, Device.setPrefs_setPrefs]
  rfl

/-! ## A saved wallet -/

/-- The device after `save`. -/
def Device.saved (lib : Library) (o : Outcomes) (salt prk puk : List UInt8) (d : Device) : Device :=
  let firstEncryptedPrk := symmetricData lib o .ENCRYPT d.password salt prk
  let lastEncryptedPrk := getRSAData o .ENCRYPT firstEncryptedPrk
  let d' := d.salted lib o
  if firstEncryptedPrk = [] ∨ lastEncryptedPrk = [] then d'
  else d'.setPrefs (walletPrefs lib d'.prefs salt d.password (lib.encode58 lastEncryptedPrk)
    (lib.encode58 puk) (lib.encode58 (address lib puk)))

include hlib hq in
theorem save_apply {salt : List UInt8} (hsalt : d.salt lib o = some salt) (prk puk : List UInt8) :
    save lib o prk puk d = (some (), d.saved lib o salt prk puk) := by
  have hfirst := getPBKDF2Data_of_salt hlib hq hsalt .ENCRYPT d.password prk
  have hdecode := (Prefs.decode_salted (o := o) hlib d.isPswInitMode d.prefs).trans hsalt
  have hinit : Initialised (d.salted lib o).prefs := by rw [Device.prefs_salted]; exact hq.salted
  rw [← Device.prefs_salted] at hdecode
  rw [save, Act.bind_of_some (generateAddress_apply hlib hq puk), if_neg (address_ne hlib puk),
    Act.get_bind_apply, Act.bind_of_some hfirst, Device.saved]
  by_cases hempty : symmetricData lib o .ENCRYPT d.password salt prk = []
  · rw [if_pos hempty, if_pos (Or.inl hempty)]
    rfl
  · rw [if_neg hempty]
    by_cases hrsa : getRSAData o .ENCRYPT (symmetricData lib o .ENCRYPT d.password salt prk) = []
    · rw [if_pos hrsa, if_pos (Or.inr hrsa)]
      rfl
    · rw [if_neg hrsa, if_neg (not_or.mpr ⟨hempty, hrsa⟩),
        setWalletPref_apply hlib hinit hdecode, Device.password_salted]

include hlib hq in
/-- A salt that cannot be decoded stops every call that needs it. -/
theorem save_of_none (hsalt : d.salt lib o = none) (prk puk : List UInt8) :
    save lib o prk puk d = (none, d.salted lib o) := by
  have hfirst := getPBKDF2Data_of_none hlib hq hsalt .ENCRYPT d.password prk
  rw [save, Act.bind_of_some (generateAddress_apply hlib hq puk), if_neg (address_ne hlib puk),
    Act.get_bind_apply, Act.bind_of_none hfirst]

/-- The preferences after `save(password, msg)`, from those with the salt of the message. -/
def Prefs.restored (lib : Library) (o : Outcomes) (password : String) (salt encPrk encPuk : List UInt8) (q : Prefs) :
    Prefs :=
  let puk := symmetricData lib o .DECRYPT password salt encPuk
  if getRSAData o .ENCRYPT encPrk = [] then q
  else walletPrefs lib q salt password (lib.encode58 (getRSAData o .ENCRYPT encPrk)) (lib.encode58 puk)
    (lib.encode58 (address lib puk))

include hlib in
/-- The salt of a message can be read back; an empty one is replaced. -/
theorem exists_salt_putString (q : Prefs) (mode : Bool) (salt : List UInt8) :
    ∃ s, (q.putString .SaltValue (lib.encode58 salt)).salt lib o mode = some s := by
  rw [Prefs.salt, Prefs.putString_self]
  by_cases hempty : lib.encode58 salt = ""
  · exact ⟨_, if_pos hempty⟩
  · exact ⟨salt, (if_neg hempty).trans (hlib.decode58 salt)⟩

include hlib hq in
/-- The parts of a message are stored, but for the keys if RSA fails, and then nothing is reported; the password
is cleared. -/
theorem savePartsReporting_apply (password : String) {encPrk encPuk salt s : List UInt8}
    (hs : (d.prefs.putString .SaltValue (lib.encode58 salt)).salt lib o d.isPswInitMode = some s) :
    savePartsReporting lib o password encPrk encPuk salt d =
      (some (decide (getRSAData o .ENCRYPT encPrk ≠ [])), { d.setPrefs (((d.prefs.putString .SaltValue (lib.encode58 salt)).salted lib o
        d.isPswInitMode).restored lib o password s encPrk encPuk) with password := "" }) := by
  obtain ⟨d', hd'⟩ : ∃ d', d' = { d.setPrefs (d.prefs.putString .SaltValue (lib.encode58 salt)) with
    password := password } := ⟨_, rfl⟩
  have hprefs : d'.prefs = d.prefs.putString .SaltValue (lib.encode58 salt) := by
    rw [hd']
    exact Device.prefs_setPrefs d _
  have hmode : d'.isPswInitMode = d.isPswInitMode := by
    rw [hd']
    exact Device.isPswInitMode_setPrefs d _
  have hpassword : d'.password = password := by rw [hd']
  have hclear : ∀ q, ({ d'.setPrefs q with password := "" } : Device) = { d.setPrefs q with password := "" } := by
    intro q
    rw [hd']
    rcases d with ⟨_, _, _ | _, _, _⟩ <;> rfl
  have hinit : Initialised d'.prefs := by
    rw [hprefs]
    exact hq.putString rfl _
  have hinit' : Initialised (d'.salted lib o).prefs := by
    rw [Device.prefs_salted]
    exact hinit.salted
  have hsalt : d'.salt lib o = some s := by rw [Device.salt, hprefs, hmode, hs]
  have hdecode := (Prefs.decode_salted (o := o) hlib d'.isPswInitMode d'.prefs).trans hsalt
  rw [← Device.prefs_salted] at hdecode
  rw [savePartsReporting, setValuesInPreferences, Act.modify_bind_apply, setPassword, Act.modify_bind_apply, ← hd',
    Act.bind_of_some (getPBKDF2Data_of_salt hlib hinit hsalt .DECRYPT password encPuk),
    Act.bind_of_some (generateAddress_apply hlib hinit' _), if_neg (address_ne hlib _), Prefs.restored]
  rw [Device.prefs_salted] at hdecode
  by_cases hrsa : getRSAData o .ENCRYPT encPrk = []
  · rw [if_pos hrsa, if_pos hrsa, decide_eq_false (not_not.mpr hrsa), ← hclear, ← hprefs, ← hmode]
    rfl
  · rw [if_neg hrsa, if_neg hrsa, decide_eq_true hrsa, Act.bind_of_some (setWalletPref_apply hlib hinit' (by rwa [Device.prefs_salted]) _ _ _),
      ← hclear, ← hprefs, ← hmode, Device.prefs_salted, Device.password_salted, hpassword, Device.salted,
      Device.setPrefs_setPrefs]
    rfl

/-- Apart from the report the two are the same. -/
theorem saveParts_eq (lib : Library) (o : Outcomes) (password : String) (encPrk encPuk salt : List UInt8) :
    saveParts lib o password encPrk encPuk salt =
      savePartsReporting lib o password encPrk encPuk salt >>= fun _ => pure () := by
  simp only [savePartsReporting, Act.bind_assoc]
  refine congrArg _ (funext fun _ => congrArg _ (funext fun _ => congrArg _ (funext fun puk => congrArg _
    (funext fun walletAddress => ?_))))
  by_cases haddr : walletAddress = []
  · rw [if_pos haddr, if_pos haddr]
    rfl
  · rw [if_neg haddr, if_neg haddr]
    by_cases hrsa : getRSAData o .ENCRYPT encPrk = []
    · simp only [if_pos hrsa]
      rfl
    · simp only [if_neg hrsa, Act.bind_assoc]
      rfl

include hlib hq in
theorem saveParts_apply (password : String) {encPrk encPuk salt s : List UInt8}
    (hs : (d.prefs.putString .SaltValue (lib.encode58 salt)).salt lib o d.isPswInitMode = some s) :
    saveParts lib o password encPrk encPuk salt d =
      (some (), { d.setPrefs (((d.prefs.putString .SaltValue (lib.encode58 salt)).salted lib o
        d.isPswInitMode).restored lib o password s encPrk encPuk) with password := "" }) := by
  rw [saveParts_eq, Act.bind_of_some (savePartsReporting_apply hlib hq password hs)]
  rfl

/-- The message that `generateRestoreDataFormat` makes of the encrypted keys. -/
def restoreMessage (lib : Library) (psw : String) (salt encryptedPrk encryptedPuk : List UInt8) : String :=
  lib.encode64 (lib.hmacSha256 encryptedPuk (utf8 psw)) ++ "%" ++ lib.encode64 encryptedPrk ++ "$" ++
    lib.encode64 encryptedPuk ++ "$" ++ lib.encode64 salt

include hlib hq in
theorem generateRestoreDataFormat_apply {salt : List UInt8} (hsalt : d.salt lib o = some salt)
    (prk puk : List UInt8) :
    generateRestoreDataFormat lib o prk puk d =
      (if symmetricData lib o .ENCRYPT d.password salt prk = [] ∨
          symmetricData lib o .ENCRYPT d.password salt puk = [] then some ""
        else if utf8 d.password = [] then none
        else some (restoreMessage lib d.password salt (symmetricData lib o .ENCRYPT d.password salt prk)
          (symmetricData lib o .ENCRYPT d.password salt puk)), d.salted lib o) := by
  have hinit : Initialised (d.salted lib o).prefs := by rw [Device.prefs_salted]; exact hq.salted
  have hmac : (d.salted lib o).prefs .MACAlg = "HmacSHA256" := hinit _ _ rfl
  have hsalted : (d.salted lib o).salt lib o = some salt := (Device.salt_salted hlib d).trans hsalt
  have hprk := getPBKDF2Data_of_salt hlib hq hsalt .ENCRYPT d.password prk
  have hpuk := getPBKDF2Data_of_salt hlib hinit hsalted .ENCRYPT d.password puk
  rw [Device.salted_salted hlib] at hpuk
  rw [generateRestoreDataFormat, Act.get_bind_apply, Act.bind_of_some hprk]
  by_cases hempty : symmetricData lib o .ENCRYPT d.password salt prk = []
  · rw [if_pos hempty, if_pos (Or.inl hempty)]
    rfl
  · rw [if_neg hempty, Act.bind_of_some hpuk]
    by_cases hempty' : symmetricData lib o .ENCRYPT d.password salt puk = []
    · rw [if_pos hempty', if_pos (Or.inr hempty')]
      rfl
    · rw [if_neg hempty', if_neg (not_or.mpr ⟨hempty, hempty'⟩), getValuesInPreferences, Act.gets_bind_apply,
        hmac, hmacDigest, hlib.mac_HmacSHA256]
      by_cases hkey : utf8 d.password = []
      · simp only [hkey, if_true, Act.orThrow_none_bind_apply]
      · simp only [if_neg hkey, Act.orThrow_some_bind_apply]
        rw [Act.bind_of_some (getSalt_apply.trans (by rw [hsalted, Device.salted_salted hlib]))]
        rfl

/-! ## The check -/

/-- The fields that a wallet consists of, with its salt. -/
def walletKeys : List PrefKey := [.SaltValue, .CipheredData, .WalletPublicKey, .WalletAddr, .MACData]

/-- A complete wallet that passes the check under a password. -/
structure Verifies (lib : Library) (q : Prefs) (psw : String) : Prop where
  complete : ∀ key ∈ walletKeys, q key ≠ ""
  passes : checkMACData lib q psw = some true

include hlib in
theorem checkMACData_eq {q : Prefs} (hq : MacSettings q) (haddr : q .WalletAddr ≠ "") (psw : String) :
    checkMACData lib q psw = (lib.decode58 (q .SaltValue)).map fun salt =>
      decide (q .MACData = macData lib salt psw (mergedWalletData q)) := by
  rw [checkMACData, if_neg haddr, generateMACData_eq hlib hq, Option.map_map]
  rfl

theorem initialised_walletPrefs {q : Prefs} (hq : Initialised q) (salt : List UInt8)
    (psw cipheredPrk puk addr : String) : Initialised (walletPrefs lib q salt psw cipheredPrk puk addr) :=
  ((((hq.putString rfl _).putString rfl _).putString rfl _).putString rfl _).putString rfl _

include hlib in
theorem hmacSha256_ne (targetData key : List UInt8) : lib.hmacSha256 targetData key ≠ [] := by
  intro he
  have hlength := hlib.length_hmacSha256 targetData key
  rw [he] at hlength
  cases hlength

include hlib in
theorem macData_ne (salt : List UInt8) (psw target : String) : macData lib salt psw target ≠ "" :=
  hlib.encode58_ne _ (hmacSha256_ne hlib _ _)

include hlib in
/-- What is written together passes the check. -/
theorem passes_walletPrefs {q : Prefs} (hq : Initialised q) {salt : List UInt8}
    (hsalt : lib.decode58 (q .SaltValue) = some salt) (psw cipheredPrk puk : String) {addr : String} (haddr : addr ≠ "") :
    checkMACData lib (walletPrefs lib q salt psw cipheredPrk puk addr) psw = some true := by
  have hdecode : lib.decode58 (walletPrefs lib q salt psw cipheredPrk puk addr .SaltValue) = some salt := hsalt
  have hinit : Initialised (walletPrefs lib q salt psw cipheredPrk puk addr) := initialised_walletPrefs hq _ _ _ _ _
  rw [checkMACData_eq hlib hinit.macSettings haddr, hdecode, Option.map_some]
  exact congrArg some (decide_eq_true rfl)

include hlib in
/-- What is written together verifies. -/
theorem verifies_walletPrefs {q : Prefs} (hq : Initialised q) {salt : List UInt8} (hne : q .SaltValue ≠ "")
    (hsalt : lib.decode58 (q .SaltValue) = some salt) (psw : String) {cipheredPrk puk addr : String}
    (hcipher : cipheredPrk ≠ "") (hpuk : puk ≠ "") (haddr : addr ≠ "") :
    Verifies lib (walletPrefs lib q salt psw cipheredPrk puk addr) psw := by
  refine ⟨?_, ?_⟩
  · intro key hkey
    simp only [walletKeys, List.mem_cons, List.not_mem_nil, or_false] at hkey
    rcases hkey with rfl | rfl | rfl | rfl | rfl
    · exact hne
    · exact hcipher
    · exact hpuk
    · exact haddr
    · exact macData_ne hlib _ _ _
  · exact passes_walletPrefs hlib hq hsalt psw cipheredPrk puk haddr

include hlib in
/-- The salt of a wallet that passes the check can be decoded, and the MAC is that of its fields. -/
theorem Verifies.mac {q : Prefs} (hq : Initialised q) {psw : String} (h : Verifies lib q psw) :
    ∃ salt, lib.decode58 (q .SaltValue) = some salt ∧ q .MACData = macData lib salt psw (mergedWalletData q) := by
  have hpasses := h.passes
  rw [checkMACData_eq hlib hq.macSettings (h.complete _ (by simp [walletKeys]))] at hpasses
  obtain ⟨salt, hsalt, hmac⟩ := Option.map_eq_some_iff.mp hpasses
  exact ⟨salt, hsalt, of_decide_eq_true hmac⟩

end Initialised

end MoaCrypto.Android
