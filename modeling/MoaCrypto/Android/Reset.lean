import MoaCrypto.Android.Saved

/-!
# The password reset on Android

The restore data of a wallet is decrypted under the old hmac password and encrypted again under the new
one, in the temporary preferences, which then replace the wallet.  For the decryption the salt is taken
from the main preferences, not from the data, and the name of the system under the MAC is not copied;
what comes out is the wallet of the private key that was decrypted so (`passwordReset_apply`).
-/

namespace MoaCrypto.Android

open Java Wallet

/-! ## The hmac password -/

section HmacPsw

variable {lib : Library} (hlib : lib.Sound) {o : Outcomes} (ho : o.Works lib)

include hlib in
theorem hmacPswKey_some (id dateOfBirth : String) : hmacPswKey lib id dateOfBirth =
    some ((lib.kdfGen (utf8 dateOfBirth) (utf8 id) 10 48).drop 32,
      (lib.kdfGen (utf8 dateOfBirth) (utf8 id) 10 48).take 32) := by
  have hlength := hlib.length_kdfGen (utf8 dateOfBirth) (utf8 id) 10 48
  rw [hmacPswKey, copyOfRange_of_le (by omega) le_rfl, copyOf_of_le (by omega), List.take_length, Option.map_some]

include hlib in
theorem hmacPswKey_eq (id dateOfBirth : String) : ∃ iv key, hmacPswKey lib id dateOfBirth = some (iv, key) ∧
    iv.length = 16 ∧ key.length = 32 := by
  have hlength := hlib.length_kdfGen (utf8 dateOfBirth) (utf8 id) 10 48
  refine ⟨_, _, hmacPswKey_some hlib id dateOfBirth, ?_, ?_⟩
  · rw [List.length_drop, hlength]
  · rw [List.length_take, hlength]
    rfl

/-- An hmac password has fourteen bytes. -/
theorem length_getHmacPsw {q : Prefs} {psw : String} {bytes : List UInt8}
    (h : getHmacPsw lib q psw = some bytes) : bytes.length = 14 := by
  simp only [getHmacPsw, Option.bind_eq_bind, Option.bind_eq_some_iff] at h
  obtain ⟨hmacPsw, _, first, _, hbytes⟩ := h
  have hlength : ∀ n, (copyOf hmacPsw n).length = n := by
    intro n
    rw [copyOf, List.length_take, List.length_append, List.length_replicate]
    omega
  split at hbytes
  · unfold copyOfRange at hbytes
    split at hbytes
    · rw [Option.some.injEq] at hbytes
      rw [← hbytes, List.length_drop, hlength]
    · cases hbytes
  · rw [Option.some.injEq] at hbytes
    rw [← hbytes, hlength]

include hlib ho in
/-- The matching id and birth date give the password back. -/
theorem getDecryptedHmacPsw_encrypted {o' : Outcomes} (ho' : o'.Works lib) {q : Prefs} (hq : Initialised q)
    {random : UInt8} {id dateOfBirth encrypted : String} {bytes : List UInt8} (hbytes : bytes.length = 14)
    (h : getEncryptedHmacPsw lib o q random id (byteArrayToHexString bytes) dateOfBirth = some encrypted) :
    getDecryptedHmacPsw lib o' id dateOfBirth encrypted = some bytes := by
  obtain ⟨iv, key, hkey, hiv, hkeyLength⟩ := hmacPswKey_eq hlib id dateOfBirth
  have hmac : q .MACAlg = "HmacSHA256" := hq _ _ rfl
  simp only [getEncryptedHmacPsw, hexStringToByteArray_hexString, Option.bind_eq_bind, Option.bind_some, hkey,
    ho.cbc, hmac, hmacDigest, hlib.mac_HmacSHA256, Option.bind_eq_some_iff, Option.ite_none_left_eq_some,
    Option.some.injEq] at h
  obtain ⟨hmacBytes, ⟨_, rfl⟩, rfl⟩ := h
  have hcipher := hlib.length_aesCbc iv key (random :: bytes) hiv hkeyLength
  have hhalf : (xorHalves (lib.hmacSha256 (lib.aesCbc iv key .ENCRYPT (random :: bytes))
      (utf8 dateOfBirth))).length = 16 := by
    rw [xorHalves, List.length_zipWith, List.length_take, List.length_drop, hlib.length_hmacSha256]
    rfl
  rw [List.length_cons, hbytes] at hcipher
  have hfirst : ∀ second : List UInt8, second.length = 16 →
      (lib.aesCbc iv key .ENCRYPT (random :: bytes) ++ second).take
        ((lib.aesCbc iv key .ENCRYPT (random :: bytes) ++ second).length / 2) =
        lib.aesCbc iv key .ENCRYPT (random :: bytes) := by
    intro second hsecond
    rw [List.length_append, hcipher, hsecond]
    exact List.take_left' hcipher
  simp only [getDecryptedHmacPsw, hkey, Option.bind_eq_bind, Option.bind_some, hlib.decode64, hfirst _ hhalf,
    ho'.cbc, hlib.aesCbc iv key _ hiv hkeyLength]
  rw [copyOfRange_of_le (by omega) (by rw [List.length_cons]; omega)]
  rw [List.take_of_length_le (by rw [List.length_cons]; omega)]
  rfl

end HmacPsw

/-! ## The first cipher -/

section Symmetric

variable {lib : Library} (hlib : lib.Sound) {o : Outcomes} (ho : o.Works lib)

include hlib ho

theorem length_symmetricData (encOrDecMode : CipherMode) (psw : String) (salt data : List UInt8) :
    (symmetricData lib o encOrDecMode psw salt data).length = data.length := by
  have hlength := hlib.length_kdfGen (utf8 psw) salt 4096 48
  rw [symmetricData, ho.ctr]
  exact hlib.length_aesCtr _ _ _ _ (by rw [List.length_drop, hlength]) (by rw [List.length_take, hlength]; rfl)

theorem symmetricData_ne {encOrDecMode : CipherMode} {psw : String} {salt data : List UInt8} (h : data ≠ []) :
    symmetricData lib o encOrDecMode psw salt data ≠ [] := by
  intro he
  have hlength := length_symmetricData hlib ho encOrDecMode psw salt data
  rw [he] at hlength
  exact h (List.length_eq_zero_iff.mp hlength.symm)

theorem symmetricData_decrypt {o' : Outcomes} (ho' : o'.Works lib) (psw : String) (salt data : List UInt8) :
    symmetricData lib o' .DECRYPT psw salt (symmetricData lib o .ENCRYPT psw salt data) = data := by
  have hlength := hlib.length_kdfGen (utf8 psw) salt 4096 48
  rw [symmetricData, symmetricData, ho.ctr, ho'.ctr]
  exact hlib.aesCtr _ _ _ (by rw [List.length_drop, hlength]) (by rw [List.length_take, hlength]; rfl)

end Symmetric

/-- The key store has one RSA key in both calls, for data of up to 245 bytes. -/
def SameKey (o o' : Outcomes) : Prop :=
  ∀ data : List UInt8, data.length ≤ 245 →
    ∃ c, c ≠ [] ∧ o.doFinal .ENCRYPT data = some c ∧ o'.doFinal .DECRYPT c = some data

theorem SameKey.getRSAData {o o' : Outcomes} (h : SameKey o o') {data : List UInt8} (hdata : data.length ≤ 245) :
    getRSAData o .ENCRYPT data ≠ [] ∧ getRSAData o' .DECRYPT (getRSAData o .ENCRYPT data) = data := by
  obtain ⟨c, hne, henc, hdec⟩ := h data hdata
  simp only [MoaCrypto.Android.getRSAData, henc, hdec]
  exact ⟨hne, trivial⟩

/-! ## The message -/

/-- What the server keeps of a message and gives back: the part after the percent sign. -/
def serverPart (msg : String) : Option String := (tokens '%' msg)[1]?

section Message

variable {lib : Library} (hlib : lib.Sound)

/-- The part after the percent sign. -/
def restoreMsg (lib : Library) (salt encPrk encPuk : List UInt8) : String :=
  lib.encode64 encPrk ++ "$" ++ lib.encode64 encPuk ++ "$" ++ lib.encode64 salt

theorem restoreMessage_eq (psw : String) (salt encPrk encPuk : List UInt8) :
    restoreMessage lib psw salt encPrk encPuk = lib.encode64 (lib.hmacSha256 encPuk (utf8 psw)) ++
      String.ofList ['%'] ++ restoreMsg lib salt encPrk encPuk := by
  simp only [restoreMessage, restoreMsg, String.append_assoc]

theorem restoreMsg_ne (salt encPrk encPuk : List UInt8) : restoreMsg lib salt encPrk encPuk ≠ "" := by
  intro he
  have hlength := congrArg (fun s => s.toList.length) he
  simp [restoreMsg, String.toList_append] at hlength

include hlib

theorem tokens_encode64 {bytes : List UInt8} (h : bytes ≠ []) :
    tokens '$' (lib.encode64 bytes) = [lib.encode64 bytes] ∧
      tokens '%' (lib.encode64 bytes) = [lib.encode64 bytes] := by
  have hne := hlib.encode64_ne bytes h
  refine ⟨?_, ?_⟩
  · rw [tokens_of_not_mem (hlib.encode64 bytes).1, if_neg hne]
  · rw [tokens_of_not_mem (hlib.encode64 bytes).2, if_neg hne]

theorem tokens_restoreMsg {encPrk encPuk salt : List UInt8} (hprk : encPrk ≠ []) (hpuk : encPuk ≠ [])
    (hsalt : salt ≠ []) :
    tokens '$' (lib.encode64 encPrk ++ "$" ++ lib.encode64 encPuk ++ "$" ++ lib.encode64 salt) =
      [lib.encode64 encPrk, lib.encode64 encPuk, lib.encode64 salt] :=
  tokens_three (tokens_encode64 hlib hprk).1 (tokens_encode64 hlib hpuk).1 (tokens_encode64 hlib hsalt).1

theorem percent_not_mem_restoreMsg (salt encPrk encPuk : List UInt8) :
    '%' ∉ (restoreMsg lib salt encPrk encPuk).toList := by
  simp [restoreMsg, String.toList_append, (hlib.encode64 _).2]

theorem tokens_restoreMessage (psw : String) (salt encPrk encPuk : List UInt8) :
    tokens '%' (restoreMessage lib psw salt encPrk encPuk) =
      [lib.encode64 (lib.hmacSha256 encPuk (utf8 psw)), restoreMsg lib salt encPrk encPuk] := by
  rw [restoreMessage_eq, tokens_append, (tokens_encode64 hlib (hmacSha256_ne hlib _ _)).2,
    tokens_of_not_mem (percent_not_mem_restoreMsg hlib _ _ _), if_neg (restoreMsg_ne _ _ _)]
  rfl

theorem serverPart_restoreMessage (psw : String) (salt encPrk encPuk : List UInt8) :
    serverPart (restoreMessage lib psw salt encPrk encPuk) = some (restoreMsg lib salt encPrk encPuk) := by
  rw [serverPart, tokens_restoreMessage hlib]
  rfl

end Message

/-! ## The reset -/

/-- The preferences that `updateWallet` makes of both files. -/
def updated (main temp : Prefs) : Prefs :=
  ((((main.putString .CipheredData (temp .CipheredData)).putString .WalletPublicKey
    (temp .WalletPublicKey)).putString .WalletAddr (temp .WalletAddr)).putString .MACData
    (temp .MACData)).putString .SaltValue (temp .SaltValue)

theorem updateWallet_apply (d : Device) : updateWallet d =
    (some (), { d with
      moaWallet := updated d.moaWallet d.tempWallet, tempWallet := .empty, isPswInitMode := false }) := rfl

/-- The reset with the update. -/
def passwordReset (lib : Library) (o : Outcomes) (walletData : WalletData) : Act Device String := do
  let backupDataFormat ← generateBackUpRestoreDataFormat lib o walletData
  updateWallet
  pure backupDataFormat

/-- The temporary wallet: the keys as they were decrypted, encrypted under the new password and the salt
of the data. -/
def tempWalletPrefs (lib : Library) (o : Outcomes) (temp : Prefs) (psw : String) (salt prk puk : List UInt8) :
    Prefs :=
  walletPrefs lib (temp.initialise.putString .SaltValue (lib.encode58 salt)) salt psw
    (lib.encode58 (getRSAData o .ENCRYPT (symmetricData lib o .ENCRYPT psw salt prk)))
    (lib.encode58 puk) (lib.encode58 (address lib puk))

section Flow

variable {lib : Library} (hlib : lib.Sound) {o : Outcomes} (ho : o.Works lib)
  {main temp : Prefs} (hmain : Initialised main) (htemp : Configured temp) (mode : Bool) (password : String)
  (receiver : Bool) {mainSalt salt encPrk encPuk hmacPsw : List UInt8} {data : WalletData}
  (hpsw : getDecryptedHmacPsw lib o data.id data.dateOfBirth data.encryptedHmacPsw = some hmacPsw)
  (hmsg : tokens '$' data.restoreMsg = [lib.encode64 encPrk, lib.encode64 encPuk, lib.encode64 salt])

include hlib hmain hpsw hmsg in
/-- A salt of the main preferences that cannot be decoded stops the reset. -/
theorem passwordReset_of_none (hmainSalt : main.salt lib o false = none) :
    (passwordReset lib o data ⟨main, temp, mode, password, receiver⟩).1 = none := by
  have hprk := getPBKDF2Data_of_none (d := ⟨main, temp.initialise, false, password, receiver⟩) (o := o) hlib hmain
    hmainSalt .DECRYPT (byteArrayToHexString hmacPsw) encPrk
  have hstop : (generateBackUpRestoreDataFormat lib o data ⟨main, temp, mode, password, receiver⟩).1 = none := by
    unfold generateBackUpRestoreDataFormat
    rw [setPswInitMode, Act.modify_bind_apply, Act.bind_of_some (initProperties_apply _), setPswInitMode,
      Act.modify_bind_apply, hpsw, Act.orThrow_some_bind_apply]
    simp only [hmsg, List.getElem?_cons_zero, Option.bind_some, hlib.decode64, Act.orThrow_some_bind_apply]
    exact congrArg Prod.fst (Act.bind_of_none hprk)
  rw [passwordReset]
  cases hrun : generateBackUpRestoreDataFormat lib o data ⟨main, temp, mode, password, receiver⟩ with
  | mk r d' =>
    rw [hrun] at hstop
    subst hstop
    rw [Act.bind_of_none hrun]

end Flow

/-- The device after the update, with the preferences `main` before it. -/
def afterReset (lib : Library) (o : Outcomes) (main temp : Prefs) (receiver : Bool) (psw : String)
    (salt prk puk : List UInt8) : Device :=
  ⟨updated main (tempWalletPrefs lib o temp psw salt prk puk), .empty, false, "", receiver⟩

/-- Both keys are encrypted and stored in the temporary preferences, with the salt that is there. -/
theorem save_temp {lib : Library} (hlib : lib.Sound) {o : Outcomes} (ho : o.Works lib) (main : Prefs)
    {temp : Prefs} (htemp : Initialised temp) {psw : String} (hpsw : utf8 psw ≠ []) (receiver : Bool)
    {salt prk puk : List UInt8} (hsalt : salt ≠ []) (htext : temp .SaltValue = lib.encode58 salt)
    (hprk : prk ≠ []) (hpuk : puk ≠ [])
    (hrsa : getRSAData o .ENCRYPT (symmetricData lib o .ENCRYPT psw salt prk) ≠ []) :
    ∃ saved msg, saved = walletPrefs lib temp salt psw
        (lib.encode58 (getRSAData o .ENCRYPT (symmetricData lib o .ENCRYPT psw salt prk)))
        (lib.encode58 puk) (lib.encode58 (address lib puk)) ∧
      msg = restoreMessage lib psw salt (symmetricData lib o .ENCRYPT psw salt prk)
        (symmetricData lib o .ENCRYPT psw salt puk) ∧
      save lib o prk puk ⟨main, temp, true, psw, receiver⟩ = (some (), ⟨main, saved, true, psw, receiver⟩) ∧
      generateRestoreDataFormat lib o prk puk ⟨main, saved, true, psw, receiver⟩ =
        (some msg, ⟨main, saved, true, psw, receiver⟩) := by
  refine ⟨_, _, rfl, rfl, ?_⟩
  generalize hsaved : walletPrefs lib temp salt psw
    (lib.encode58 (getRSAData o .ENCRYPT (symmetricData lib o .ENCRYPT psw salt prk)))
    (lib.encode58 puk) (lib.encode58 (address lib puk)) = saved
  have hinit : Initialised saved := hsaved ▸ initialised_walletPrefs htemp _ _ _ _ _
  have hstored : saved .SaltValue = lib.encode58 salt := hsaved ▸ htext
  have hsaltText := hlib.encode58_ne salt hsalt
  have hsaltOf : ∀ other : Prefs, other .SaltValue = lib.encode58 salt →
      Device.salt lib o ⟨main, other, true, psw, receiver⟩ = some salt := by
    intro other hother
    rw [Device.salt, Device.prefs_temp, Prefs.salt, hother, if_neg hsaltText, hlib.decode58]
  have hsalted : ∀ other : Prefs, other .SaltValue = lib.encode58 salt →
      Device.salted lib o ⟨main, other, true, psw, receiver⟩ = ⟨main, other, true, psw, receiver⟩ := by
    intro other hother
    exact Device.salted_of_ne (by rw [Device.prefs_temp, hother]; exact hsaltText)
  have hfirst : symmetricData lib o .ENCRYPT psw salt prk ≠ [] := symmetricData_ne hlib ho hprk
  have hsave := save_apply (d := ⟨main, temp, true, psw, receiver⟩) hlib htemp (hsaltOf temp htext) prk puk
  have hformat := generateRestoreDataFormat_apply (d := ⟨main, saved, true, psw, receiver⟩) hlib hinit
    (hsaltOf saved hstored) prk puk
  refine ⟨?_, hformat.trans ?_⟩
  · rw [hsave, Device.saved, if_neg (not_or.mpr ⟨hfirst, hrsa⟩), hsalted temp htext, Device.setPrefs_temp, Device.prefs_temp, hsaved]
  · rw [hsalted saved hstored, if_neg (not_or.mpr ⟨hfirst, symmetricData_ne hlib ho hpuk⟩), if_neg hpsw]

section Flow

variable {lib : Library} (hlib : lib.Sound) {o : Outcomes} (ho : o.Works lib)
  {main temp : Prefs} (hmain : Initialised main) (htemp : Configured temp) (mode : Bool) (password : String)
  (receiver : Bool) {mainSalt salt encPrk encPuk hmacPsw : List UInt8} {data : WalletData}
  (hpsw : getDecryptedHmacPsw lib o data.id data.dateOfBirth data.encryptedHmacPsw = some hmacPsw)
  (hmsg : tokens '$' data.restoreMsg = [lib.encode64 encPrk, lib.encode64 encPuk, lib.encode64 salt])
  (hmainSalt : main.salt lib o false = some mainSalt) (hsalt : salt ≠ [])
  (hprkNe : encPrk ≠ []) (hpukNe : encPuk ≠ []) (hnew : utf8 data.hmacPsw ≠ [])
  (hrsa : getRSAData o .ENCRYPT (symmetricData lib o .ENCRYPT data.hmacPsw salt
    (symmetricData lib o .DECRYPT (byteArrayToHexString hmacPsw) mainSalt encPrk)) ≠ [])

include hlib hmain hmainSalt in
/-- A decryption with the main wallet selected is under the salt of the main preferences, which is stored. -/
theorem getPBKDF2Data_main (temp : Prefs) (psw : String) (encrypted : List UInt8) :
    getPBKDF2Data lib o .DECRYPT psw encrypted ⟨main, temp, false, password, receiver⟩ =
        (some (symmetricData lib o .DECRYPT psw mainSalt encrypted),
          ⟨main.salted lib o false, temp, false, password, receiver⟩) ∧
      getPBKDF2Data lib o .DECRYPT psw encrypted ⟨main.salted lib o false, temp, false, password, receiver⟩ =
        (some (symmetricData lib o .DECRYPT psw mainSalt encrypted),
          ⟨main.salted lib o false, temp, false, password, receiver⟩) := by
  have hsalted := Device.salt_salted hlib ⟨main, temp, false, password, receiver⟩ (o := o)
  have hsame := Device.salted_salted hlib ⟨main, temp, false, password, receiver⟩ (o := o)
  have hagain := getPBKDF2Data_of_salt (d := ⟨main.salted lib o false, temp, false, password, receiver⟩) hlib
    hmain.salted (hsalted.trans hmainSalt) .DECRYPT psw encrypted
  refine ⟨?_, hagain.trans (congrArg (Prod.mk _) hsame)⟩
  exact getPBKDF2Data_of_salt (d := ⟨main, temp, false, password, receiver⟩) hlib hmain hmainSalt .DECRYPT psw encrypted

include hlib ho hmain htemp hpsw hmsg hmainSalt hsalt hprkNe hpukNe hnew hrsa in
theorem passwordReset_apply :
    ∃ msg, passwordReset lib o data ⟨main, temp, mode, password, receiver⟩ =
      (some msg, afterReset lib o (main.salted lib o false) temp receiver data.hmacPsw salt
        (symmetricData lib o .DECRYPT (byteArrayToHexString hmacPsw) mainSalt encPrk)
        (symmetricData lib o .DECRYPT (byteArrayToHexString hmacPsw) mainSalt encPuk)) := by
  obtain ⟨hprk, _⟩ := getPBKDF2Data_main hlib hmain password receiver hmainSalt temp.initialise
    (byteArrayToHexString hmacPsw) encPrk
  obtain ⟨_, hpuk⟩ := getPBKDF2Data_main hlib hmain password receiver hmainSalt temp.initialise
    (byteArrayToHexString hmacPsw) encPuk
  have hinit : Initialised (temp.initialise.putString .SaltValue (lib.encode58 salt)) :=
    htemp.initialise.putString rfl _
  have hpukDecrypted : symmetricData lib o .DECRYPT (byteArrayToHexString hmacPsw) mainSalt encPuk ≠ [] :=
    symmetricData_ne hlib ho hpukNe
  obtain ⟨saved, msg, hsaved, _, hsave, hformat⟩ := save_temp hlib ho (main.salted lib o false) hinit hnew receiver hsalt
    (Prefs.putString_self _ _ _) (symmetricData_ne hlib ho hprkNe) hpukDecrypted hrsa
  have hgenerate : generateBackUpRestoreDataFormat lib o data ⟨main, temp, mode, password, receiver⟩ =
      (some msg, ⟨main.salted lib o false, saved, false, "", receiver⟩) := by
    unfold generateBackUpRestoreDataFormat
    rw [setPswInitMode, Act.modify_bind_apply, Act.bind_of_some (initProperties_apply _), setPswInitMode,
      Act.modify_bind_apply, hpsw, Act.orThrow_some_bind_apply]
    simp only [hmsg, List.getElem?_cons_zero, List.getElem?_cons_succ, Option.bind_some, hlib.decode64,
      Act.orThrow_some_bind_apply, Device.prefs_temp, Device.setPrefs_temp]
    rw [Act.bind_of_some hprk, Act.orThrow_some_bind_apply, Act.bind_of_some hpuk,
      Act.orThrow_some_bind_apply, Act.modify_bind_apply, setValuesInPreferences, Act.modify_bind_apply, Device.prefs_temp, Device.setPrefs_temp, setPassword,
      Act.modify_bind_apply, Act.bind_of_some hsave, Act.bind_of_some hformat]
    rfl
  refine ⟨msg, ?_⟩
  rw [passwordReset, Act.bind_of_some hgenerate, Act.bind_of_some (updateWallet_apply _), hsaved]
  rfl

end Flow

/-! ## The wallet after the reset -/

/-- The text under the MAC on initialised preferences. -/
theorem mergedWalletData_eq {q : Prefs} (hq : Initialised q) :
    mergedWalletData q = "1" ++ q .OSInfo ++ (q .SaltValue ++ "4096" ++ q .CipheredData ++
      q .WalletPublicKey ++ q .WalletAddr) := by
  have hversion : q .VersionInfo = "1" := hq _ _ rfl
  have hcount : q .IterationCount = "4096" := hq _ _ rfl
  simp only [mergedWalletData, hversion, hcount, String.append_assoc]

theorem initialised_updated {main : Prefs} (hmain : Initialised main) (temp : Prefs) :
    Initialised (updated main temp) :=
  ((((hmain.putString rfl _).putString rfl _).putString rfl _).putString rfl _).putString rfl _

/-- The MACs of two texts that differ in the name of the system only are different. -/
def NameMatters (lib : Library) (other : String) : Prop :=
  ∀ key rest, lib.hmacSha256 (utf8 ("1" ++ lib.osName ++ rest)) key =
    lib.hmacSha256 (utf8 ("1" ++ other ++ rest)) key → other = lib.osName

section After

variable {lib : Library} (hlib : lib.Sound) {main temp : Prefs} (hmain : Initialised main)
  (htemp : Initialised temp) {salt : List UInt8} (htext : temp .SaltValue = lib.encode58 salt)
  {psw cipheredPrk puk addr : String} (haddr : addr ≠ "")

include hlib hmain htemp htext haddr

/-- The MAC that is copied is over the name of the system, and is checked with the name that is stored. -/
theorem checkMACData_updated :
    checkMACData lib (updated main (walletPrefs lib temp salt psw cipheredPrk puk addr)) psw =
      some (decide (macData lib salt psw ("1" ++ lib.osName ++ (temp .SaltValue ++ "4096" ++ cipheredPrk ++
          puk ++ addr)) =
        macData lib salt psw ("1" ++ main .OSInfo ++ (temp .SaltValue ++ "4096" ++ cipheredPrk ++
          puk ++ addr)))) := by
  have hinit := initialised_updated hmain (walletPrefs lib temp salt psw cipheredPrk puk addr)
  have hfields := (((htemp.putString (show settings .CipheredData = none from rfl) cipheredPrk).putString
    (show settings .WalletPublicKey = none from rfl) puk).putString
    (show settings .WalletAddr = none from rfl) addr).putString (show settings .OSInfo = none from rfl) lib.osName
  have hmac : updated main (walletPrefs lib temp salt psw cipheredPrk puk addr) .MACData =
      macData lib salt psw (mergedWalletData ((((temp.putString .CipheredData cipheredPrk).putString
        .WalletPublicKey puk).putString .WalletAddr addr).putString .OSInfo lib.osName)) := rfl
  have hsaltText : updated main (walletPrefs lib temp salt psw cipheredPrk puk addr) .SaltValue =
      lib.encode58 salt := htext
  rw [checkMACData_eq hlib hinit.macSettings haddr, hmac, mergedWalletData_eq hinit, mergedWalletData_eq hfields, hsaltText,
    hlib.decode58, ← htext]
  rfl

theorem passes_updated (hos : main .OSInfo = lib.osName) :
    checkMACData lib (updated main (walletPrefs lib temp salt psw cipheredPrk puk addr)) psw = some true := by
  rw [checkMACData_updated hlib hmain htemp htext haddr, hos]
  exact congrArg some (decide_eq_true rfl)

theorem osInfo_of_passes (hname : NameMatters lib (main .OSInfo))
    (h : checkMACData lib (updated main (walletPrefs lib temp salt psw cipheredPrk puk addr)) psw = some true) :
    main .OSInfo = lib.osName := by
  rw [checkMACData_updated hlib hmain htemp htext haddr, Option.some.injEq, decide_eq_true_eq] at h
  have hmac := Option.some.inj ((hlib.decode58 _).symm.trans ((congrArg lib.decode58 h).trans (hlib.decode58 _)))
  exact hname _ _ hmac

end After

/-- The private key as it is decrypted from what was saved. -/
theorem getDecryptedPrivateKey_saved {lib : Library} (hlib : lib.Sound) {o check : Outcomes} (ho : o.Works lib)
    (hcheck : check.Works lib) (hkey : SameKey o check) {d : Device} (hq : Initialised d.prefs)
    {psw : String} {salt prk : List UInt8} (hsalt : salt ≠ []) (htext : d.prefs .SaltValue = lib.encode58 salt)
    (hprk : prk.length ≤ 245) (hcipher : d.prefs .CipheredData =
      lib.encode58 (getRSAData o .ENCRYPT (symmetricData lib o .ENCRYPT psw salt prk))) :
    getDecryptedPrivateKey lib check psw d = (some prk, d) := by
  have hstored : d.prefs .SaltValue ≠ "" := by
    rw [htext]
    exact hlib.encode58_ne salt hsalt
  have hlength : (symmetricData lib o .ENCRYPT psw salt prk).length ≤ 245 := by
    rw [length_symmetricData hlib ho]
    exact hprk
  obtain ⟨hne, hrsa⟩ := hkey.getRSAData hlength
  have hsaltOf : d.salt lib check = some salt := by
    rw [Device.salt, Prefs.salt, if_neg hstored, htext, hlib.decode58]
  rw [getDecryptedPrivateKey, getValuesInPreferences, Act.gets_bind_apply, hcipher,
    if_neg (hlib.encode58_ne _ hne), hlib.decode58, Act.orThrow_some_bind_apply, hrsa,
    getPBKDF2Data_of_salt hlib hq hsaltOf, symmetricData_decrypt hlib ho hcheck, Device.salted_of_ne hstored]

section AfterReset

variable {lib : Library} (hlib : lib.Sound) {o : Outcomes} {main temp : Prefs} (hmain : Initialised main)
  (htemp : Configured temp) (receiver : Bool) (psw : String) {salt : List UInt8} (prk puk : List UInt8)

include hmain in
theorem initialised_afterReset : Initialised (afterReset lib o main temp receiver psw salt prk puk).prefs :=
  initialised_updated hmain _

theorem addr_afterReset : (afterReset lib o main temp receiver psw salt prk puk).prefs .WalletAddr =
    lib.encode58 (address lib puk) := rfl

include hlib hmain htemp in
/-- The check passes where the main preferences have the name of the system. -/
theorem passes_afterReset (hos : main .OSInfo = lib.osName) :
    checkMACData lib (afterReset lib o main temp receiver psw salt prk puk).prefs psw = some true :=
  passes_updated hlib hmain (htemp.initialise.putString rfl _) (Prefs.putString_self _ _ _)
    (hlib.encode58_ne _ (address_ne hlib puk)) hos

include hlib hmain htemp in
theorem osInfo_afterReset (hname : NameMatters lib (main .OSInfo))
    (h : checkMACData lib (afterReset lib o main temp receiver psw salt prk puk).prefs psw = some true) :
    main .OSInfo = lib.osName :=
  osInfo_of_passes hlib hmain (htemp.initialise.putString rfl _) (Prefs.putString_self _ _ _)
    (hlib.encode58_ne _ (address_ne hlib puk)) hname h

include hlib hmain in
theorem getDecryptedPrivateKey_afterReset {check : Outcomes} (ho : o.Works lib) (hcheck : check.Works lib)
    (hkey : SameKey o check) (hsalt : salt ≠ []) (hprk : prk.length ≤ 245) :
    (getDecryptedPrivateKey lib check psw (afterReset lib o main temp receiver psw salt prk puk)).1 = some prk :=
  congrArg Prod.fst
    (getDecryptedPrivateKey_saved hlib ho hcheck hkey (initialised_afterReset hmain receiver psw prk puk) hsalt rfl hprk rfl)

end AfterReset

/-! ## The reset keeps the wallet -/

/-- The bytes of a private and a public key of the curve. -/
structure KeyPair where
  privateKey : List UInt8
  publicKey : List UInt8
  privateKey_ne : privateKey ≠ []
  length_privateKey : privateKey.length ≤ 32
  publicKey_ne : publicKey ≠ []

/-- The part for the server of a message that `generateRestoreDataFormat` has made on some device. -/
def BuiltMessage (lib : Library) (keys : KeyPair) (hmacPsw salt : List UInt8) (restoreMsg : String) : Prop :=
  ∃ (old : Outcomes) (d : Device) (msg : String), old.Works lib ∧ Initialised d.prefs ∧
    d.password = byteArrayToHexString hmacPsw ∧ d.salt lib old = some salt ∧
    (generateRestoreDataFormat lib old keys.privateKey keys.publicKey d).1 = some msg ∧
    serverPart msg = some restoreMsg

/-- The encrypted password that `getEncryptedHmacPsw` has made on some device. -/
def MatchingPsw (lib : Library) (hmacPsw : List UInt8) (id dateOfBirth encryptedHmacPsw : String) : Prop :=
  ∃ (enc : Outcomes) (q : Prefs) (random : UInt8), enc.Works lib ∧ Initialised q ∧
    getEncryptedHmacPsw lib enc q random id (byteArrayToHexString hmacPsw) dateOfBirth = some encryptedHmacPsw

/-- The main wallet is that of the key pair, under the password. -/
structure KeepsWallet (lib : Library) (check : Outcomes) (d : Device) (keys : KeyPair) (psw : String) :
    Prop where
  selected : d.isPswInitMode = false
  passes : checkMACData lib d.prefs psw = some true
  privateKey : (getDecryptedPrivateKey lib check psw d).1 = some keys.privateKey
  address : d.prefs .WalletAddr = lib.encode58 (address lib keys.publicKey)

/-- The main preferences have the salt of the message and the name of the system. -/
structure MainMatches (lib : Library) (o : Outcomes) (main : Prefs) (salt : List UInt8) : Prop where
  salt : main.salt lib o false = some salt
  osInfo : main .OSInfo = lib.osName

/-- Under another salt the private key is not decrypted. -/
def SaltMatters (lib : Library) (o : Outcomes) (psw : String) (salt prk : List UInt8) : Prop :=
  ∀ other, symmetricData lib o .DECRYPT psw other (symmetricData lib o .ENCRYPT psw salt prk) = prk → other = salt

/-- What a message consists of. -/
theorem BuiltMessage.parts {lib : Library} (hlib : lib.Sound) {o : Outcomes} (ho : o.Works lib) {keys : KeyPair}
    {hmacPsw salt : List UInt8} {restoreMsg : String} (hsalt : salt ≠ [])
    (h : BuiltMessage lib keys hmacPsw salt restoreMsg) :
    tokens '$' restoreMsg =
      [lib.encode64 (symmetricData lib o .ENCRYPT (byteArrayToHexString hmacPsw) salt keys.privateKey),
        lib.encode64 (symmetricData lib o .ENCRYPT (byteArrayToHexString hmacPsw) salt keys.publicKey),
        lib.encode64 salt] := by
  obtain ⟨old, d, msg, hold, hq, hpassword, hsaltOf, hmsg, hserver⟩ := h
  have hsame : ∀ data, symmetricData lib o .ENCRYPT (byteArrayToHexString hmacPsw) salt data =
      symmetricData lib old .ENCRYPT (byteArrayToHexString hmacPsw) salt data := by
    intro data
    rw [symmetricData, symmetricData, ho.ctr, hold.ctr]
  have hprk : symmetricData lib o .ENCRYPT (byteArrayToHexString hmacPsw) salt keys.privateKey ≠ [] :=
    symmetricData_ne hlib ho keys.privateKey_ne
  have hpuk : symmetricData lib o .ENCRYPT (byteArrayToHexString hmacPsw) salt keys.publicKey ≠ [] :=
    symmetricData_ne hlib ho keys.publicKey_ne
  rw [generateRestoreDataFormat_apply hlib hq hsaltOf, hpassword, ← hsame, ← hsame,
    if_neg (not_or.mpr ⟨hprk, hpuk⟩)] at hmsg
  simp only [Option.ite_none_left_eq_some, Option.some.injEq] at hmsg
  rw [← hmsg.2, serverPart_restoreMessage hlib, Option.some.injEq] at hserver
  rw [← hserver]
  exact tokens_restoreMsg hlib hprk hpuk hsalt

theorem utf8_hexString_ne {bytes : List UInt8} (h : bytes.length = 14) :
    utf8 (byteArrayToHexString bytes) ≠ [] := by
  intro he
  have hempty : byteArrayToHexString bytes = "" := utf8_injective he
  have hlength := length_encodeHexString bytes
  rw [byteArrayToHexString] at hempty
  rw [hempty, h] at hlength
  cases hlength

/-- **The reset keeps the wallet** where the main preferences have the salt of the message and the name
of the system, and, if both matter, nowhere else. -/
theorem generateBackUp_updateWallet {lib : Library} (hlib : lib.Sound) {o check : Outcomes} (ho : o.Works lib)
    (hcheck : check.Works lib) (hkey : SameKey o check) (keys : KeyPair) {oldPsw newPsw salt : List UInt8}
    (hold : oldPsw.length = 14) (hnew : newPsw.length = 14) (hsalt : salt ≠ []) {restoreMsg : String}
    (hmsg : BuiltMessage lib keys oldPsw salt restoreMsg) {id dateOfBirth encrypted : String}
    (hpsw : MatchingPsw lib oldPsw id dateOfBirth encrypted) {d : Device} (hd : Initialised d.moaWallet)
    (hdTemp : Configured d.tempWallet) :
    (MainMatches lib o d.moaWallet salt →
      ∃ msg d', passwordReset lib o ⟨id, dateOfBirth, encrypted, restoreMsg, byteArrayToHexString newPsw⟩ d =
        (some msg, d') ∧ KeepsWallet lib check d' keys (byteArrayToHexString newPsw)) ∧
    (SaltMatters lib o (byteArrayToHexString oldPsw) salt keys.privateKey →
      NameMatters lib (d.moaWallet .OSInfo) →
      (∃ msg d', passwordReset lib o ⟨id, dateOfBirth, encrypted, restoreMsg, byteArrayToHexString newPsw⟩ d =
        (some msg, d') ∧ KeepsWallet lib check d' keys (byteArrayToHexString newPsw)) →
      MainMatches lib o d.moaWallet salt) := by
  obtain ⟨main, temp, mode, password, receiver⟩ := d
  have hmain : Initialised main := hd
  have htemp : Configured temp := hdTemp
  have hparts := hmsg.parts hlib ho hsalt
  have hencPrk : symmetricData lib o .ENCRYPT (byteArrayToHexString oldPsw) salt keys.privateKey ≠ [] :=
    symmetricData_ne hlib ho keys.privateKey_ne
  have hencPuk : symmetricData lib o .ENCRYPT (byteArrayToHexString oldPsw) salt keys.publicKey ≠ [] :=
    symmetricData_ne hlib ho keys.publicKey_ne
  have hdecrypted : getDecryptedHmacPsw lib o id dateOfBirth encrypted = some oldPsw := by
    obtain ⟨enc, q, random, henc, hq, hencrypted⟩ := hpsw
    exact getDecryptedHmacPsw_encrypted hlib henc ho hq hold hencrypted
  -- what the reset leaves, for any salt of the main preferences
  have hreset : ∀ mainSalt prk puk, main.salt lib o false = some mainSalt →
      prk = symmetricData lib o .DECRYPT (byteArrayToHexString oldPsw) mainSalt
        (symmetricData lib o .ENCRYPT (byteArrayToHexString oldPsw) salt keys.privateKey) →
      puk = symmetricData lib o .DECRYPT (byteArrayToHexString oldPsw) mainSalt
        (symmetricData lib o .ENCRYPT (byteArrayToHexString oldPsw) salt keys.publicKey) →
      prk.length ≤ 245 ∧
      ∃ msg, passwordReset lib o ⟨id, dateOfBirth, encrypted, restoreMsg, byteArrayToHexString newPsw⟩
        ⟨main, temp, mode, password, receiver⟩ = (some msg, afterReset lib o (main.salted lib o false) temp
          receiver (byteArrayToHexString newPsw) salt prk puk) := by
    rintro mainSalt prk puk hmainSalt rfl rfl
    have hlength : (symmetricData lib o .DECRYPT (byteArrayToHexString oldPsw) mainSalt
        (symmetricData lib o .ENCRYPT (byteArrayToHexString oldPsw) salt keys.privateKey)).length ≤ 245 := by
      rw [length_symmetricData hlib ho, length_symmetricData hlib ho]
      exact keys.length_privateKey.trans (by omega)
    have hrsa := (hkey.getRSAData ((length_symmetricData hlib ho .ENCRYPT (byteArrayToHexString newPsw) salt
      _).trans_le hlength)).1
    exact ⟨hlength, passwordReset_apply hlib ho hmain htemp mode password receiver hdecrypted hparts hmainSalt
      hsalt hencPrk hencPuk (utf8_hexString_ne hnew) hrsa⟩
  constructor
  · rintro ⟨hmainSalt, hos⟩
    obtain ⟨hlength, msg, hrun⟩ := hreset salt keys.privateKey keys.publicKey hmainSalt
      (symmetricData_decrypt hlib ho ho _ _ _).symm (symmetricData_decrypt hlib ho ho _ _ _).symm
    refine ⟨msg, _, hrun, rfl, ?_, ?_, addr_afterReset receiver _ _ _⟩
    · exact passes_afterReset hlib hmain.salted htemp receiver _ _ _ ((Prefs.salted_apply (by simp)).trans hos)
    · exact getDecryptedPrivateKey_afterReset hlib hmain.salted receiver _ _ _ ho hcheck hkey hsalt hlength
  · rintro hmatters hname ⟨msg, d', hrun, hkeeps⟩
    cases hmainSalt : main.salt lib o false with
    | none =>
      have hstop : (passwordReset lib o ⟨id, dateOfBirth, encrypted, restoreMsg, byteArrayToHexString newPsw⟩
          ⟨main, temp, mode, password, receiver⟩).1 = none :=
        passwordReset_of_none hlib hmain mode password receiver hdecrypted hparts hmainSalt
      rw [hrun] at hstop
      cases hstop
    | some mainSalt =>
      obtain ⟨hlength, msg', hrun'⟩ := hreset mainSalt _ _ hmainSalt rfl rfl
      rw [hrun', Prod.mk.injEq] at hrun
      obtain ⟨_, rfl⟩ := hrun
      have hprk := (getDecryptedPrivateKey_afterReset hlib hmain.salted receiver _ _ _ ho hcheck hkey hsalt
        hlength).symm.trans hkeeps.privateKey
      have hsalted : main.salted lib o false .OSInfo = main .OSInfo := Prefs.salted_apply (by simp)
      have hos := osInfo_afterReset hlib hmain.salted htemp receiver _ _ _ (hsalted ▸ hname) hkeeps.passes
      refine ⟨by rw [hmainSalt, hmatters mainSalt (Option.some.inj hprk)], ?_⟩
      exact hsalted.symm.trans hos

/-! ## In the clear -/

/-- Every key pair, password and salt has a message. -/
theorem exists_builtMessage {lib : Library} (hlib : lib.Sound) {o : Outcomes} (ho : o.Works lib) (keys : KeyPair)
    {hmacPsw salt : List UInt8} (hpsw : hmacPsw.length = 14) (hsalt : salt ≠ []) :
    ∃ restoreMsg, BuiltMessage lib keys hmacPsw salt restoreMsg := by
  have hinit : Initialised (Prefs.empty.initialise.putString .SaltValue (lib.encode58 salt)) :=
    Configured.initialise (Or.inl fun _ _ => rfl) |>.putString rfl _
  have hsaltOf : Device.salt lib o ⟨Prefs.empty.initialise.putString .SaltValue (lib.encode58 salt), .empty, false,
      byteArrayToHexString hmacPsw, true⟩ = some salt := by
    rw [Device.salt, Device.prefs_main, Prefs.salt, Prefs.putString_self, if_neg (hlib.encode58_ne salt hsalt),
      hlib.decode58]
  have hmade := congrArg Prod.fst (generateRestoreDataFormat_apply (d := ⟨Prefs.empty.initialise.putString .SaltValue
    (lib.encode58 salt), .empty, false, byteArrayToHexString hmacPsw, true⟩) hlib hinit hsaltOf
    keys.privateKey keys.publicKey)
  rw [if_neg (not_or.mpr ⟨symmetricData_ne hlib ho keys.privateKey_ne, symmetricData_ne hlib ho keys.publicKey_ne⟩),
    if_neg (utf8_hexString_ne hpsw)] at hmade
  exact ⟨_, o, ⟨Prefs.empty.initialise.putString .SaltValue (lib.encode58 salt), .empty, false,
    byteArrayToHexString hmacPsw, true⟩, _, ho, hinit, rfl, hsaltOf, hmade, serverPart_restoreMessage hlib _ _ _ _⟩

/-- A key pair of one byte each. -/
def plainKeys : KeyPair := ⟨[7], [4], by decide, by decide, by decide⟩

/-- An hmac password. -/
def plainPsw (n : UInt8) : List UInt8 := List.replicate 14 n

/-- The encrypted password of the user `id`, born on `1`. -/
def plainEncryptedPsw : String :=
  Base64.encode (0 :: plainPsw 1 ++ [1] ++ xorHalves (plainDigest (0 :: plainPsw 1 ++ [1])))

theorem matchingPsw_plain : MatchingPsw plain (plainPsw 1) "id" "1" plainEncryptedPsw := by
  refine ⟨plainOutcomes, Prefs.empty.initialise, 0, plainOutcomes_works,
    Configured.initialise (Or.inl fun _ _ => rfl), ?_⟩
  rw [getEncryptedHmacPsw, hexStringToByteArray_hexString]
  rfl

/-- A device after the first start. -/
def freshDevice : Device := ⟨Prefs.empty.initialise, .empty, false, "", true⟩

theorem initialised_empty : Initialised Prefs.empty.initialise := Configured.initialise (Or.inl fun _ _ => rfl)

/-- The device with the salt of the message and the name of the system. -/
def sameDevice : Device :=
  { freshDevice with
    moaWallet := (freshDevice.moaWallet.putString .SaltValue (MoaBase58.encode [9])).putString .OSInfo "Linux" }

theorem sameKey_plain : SameKey plainOutcomes plainOutcomes := fun data _ => ⟨1 :: data, by simp, rfl, rfl⟩

theorem mainMatches_same : MainMatches plain plainOutcomes sameDevice.moaWallet [9] := by
  refine ⟨?_, rfl⟩
  have htext : sameDevice.moaWallet .SaltValue = MoaBase58.encode [9] := rfl
  rw [Prefs.salt, htext, if_neg (encode58_ne [9])]
  exact plain_sound.decode58 [9]

/-- On the device of the wallet the reset keeps it. -/
theorem generateBackUp_updateWallet_same : ∃ restoreMsg, BuiltMessage plain plainKeys (plainPsw 1) [9] restoreMsg ∧
    ∃ msg d', passwordReset plain plainOutcomes
        ⟨"id", "1", plainEncryptedPsw, restoreMsg, byteArrayToHexString (plainPsw 2)⟩ sameDevice = (some msg, d') ∧
      KeepsWallet plain plainOutcomes d' plainKeys (byteArrayToHexString (plainPsw 2)) := by
  obtain ⟨restoreMsg, hmsg⟩ := exists_builtMessage plain_sound plainOutcomes_works plainKeys
    (show (plainPsw 1).length = 14 by decide) (show ([9] : List UInt8) ≠ [] by decide)
  refine ⟨restoreMsg, hmsg, ?_⟩
  exact (generateBackUp_updateWallet plain_sound plainOutcomes_works plainOutcomes_works sameKey_plain plainKeys
    (by decide) (by decide) (by decide) hmsg matchingPsw_plain (d := sameDevice)
    ((initialised_empty.putString rfl _).putString rfl _) (Or.inl fun _ _ => rfl)).1 mainMatches_same

/-- The names differ in length, and so do the texts under the MAC. -/
theorem nameMatters_empty : NameMatters plain "" := by
  intro key rest h
  have hhead : UInt8.ofNat (utf8 ("1" ++ "Linux" ++ rest)).length = UInt8.ofNat (utf8 ("1" ++ "" ++ rest)).length :=
    (List.cons.inj h).1
  have hlong : (utf8 ("1" ++ "Linux" ++ rest)).length = 6 + (utf8 rest).length := by
    rw [utf8_append, List.length_append]
    rfl
  have hshort : (utf8 ("1" ++ "" ++ rest)).length = 1 + (utf8 rest).length := by
    rw [utf8_append, List.length_append]
    rfl
  have hmod := congrArg UInt8.toNat hhead
  rw [hlong, hshort, UInt8.toNat_ofNat', UInt8.toNat_ofNat'] at hmod
  omega

/-- On a device without a wallet the wallet that the reset leaves does not pass the check. -/
theorem generateBackUp_updateWallet_fresh : ∃ restoreMsg,
    BuiltMessage plain plainKeys (plainPsw 1) [9] restoreMsg ∧
    MatchingPsw plain (plainPsw 1) "id" "1" plainEncryptedPsw ∧
    ¬ ∃ msg d', passwordReset plain plainOutcomes
        ⟨"id", "1", plainEncryptedPsw, restoreMsg, byteArrayToHexString (plainPsw 2)⟩ freshDevice = (some msg, d') ∧
      KeepsWallet plain plainOutcomes d' plainKeys (byteArrayToHexString (plainPsw 2)) := by
  obtain ⟨restoreMsg, hmsg⟩ := exists_builtMessage plain_sound plainOutcomes_works plainKeys
    (show (plainPsw 1).length = 14 by decide) (show ([9] : List UInt8) ≠ [] by decide)
  have hdecrypted : getDecryptedHmacPsw plain plainOutcomes "id" "1" plainEncryptedPsw = some (plainPsw 1) := by
    obtain ⟨enc, q, random, henc, hq, hencrypted⟩ := matchingPsw_plain
    exact getDecryptedHmacPsw_encrypted plain_sound henc plainOutcomes_works hq (by decide) hencrypted
  have hprk : symmetricData plain plainOutcomes .ENCRYPT (byteArrayToHexString (plainPsw 1)) [9]
      plainKeys.privateKey ≠ [] := symmetricData_ne plain_sound plainOutcomes_works plainKeys.privateKey_ne
  have hpuk : symmetricData plain plainOutcomes .ENCRYPT (byteArrayToHexString (plainPsw 1)) [9]
      plainKeys.publicKey ≠ [] := symmetricData_ne plain_sound plainOutcomes_works plainKeys.publicKey_ne
  obtain ⟨msg, hrun⟩ : ∃ msg, passwordReset plain plainOutcomes
      ⟨"id", "1", plainEncryptedPsw, restoreMsg, byteArrayToHexString (plainPsw 2)⟩ freshDevice = (some msg, _) :=
    passwordReset_apply plain_sound plainOutcomes_works initialised_empty (Or.inl fun _ _ => rfl) false "" true
      hdecrypted (hmsg.parts plain_sound plainOutcomes_works (by decide)) rfl (by decide) hprk hpuk
      (utf8_hexString_ne (by decide)) (by simp [getRSAData, plainOutcomes])
  refine ⟨restoreMsg, hmsg, matchingPsw_plain, ?_⟩
  rintro ⟨msg', d', hrun', hkeeps⟩
  rw [hrun, Prod.mk.injEq] at hrun'
  obtain ⟨_, rfl⟩ := hrun'
  have hos := osInfo_afterReset plain_sound initialised_empty.salted (Or.inl fun _ _ => rfl) true _ _ _
    nameMatters_empty hkeeps.passes
  exact absurd hos (by decide)

end MoaCrypto.Android
