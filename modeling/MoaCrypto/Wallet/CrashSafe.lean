import MoaCrypto.Lib.Run
import MoaCrypto.Wallet.Reset

/-!
# A reset that may stop anywhere (`MoaBCFCWalletPswReSetTest.java`)

The reset writes the temporary wallet, signs with it and verifies the signature, writes its contents
over the restore wallet and deletes it.  A file that is written is cut off first and then grows; a
crash or a failed write ends the run, and a new one may be started.  As long as no run is started
after the restore wallet was left cut off, one of the two files is a complete wallet of the user
(`reset_crash_safe`); a run that is started then cuts off the other one too.
-/

namespace MoaCrypto.Wallet

open Java Properties

/-- A reset as it is started: the hmac passwords and the salts, and the text that is signed to verify. -/
structure Attempt where
  oldBytes : List UInt8
  oldSalt : List UInt8
  newBytes : List UInt8
  newSalt : List UInt8
  trasctionDataStr : String
  oldSalt_ne : oldSalt ≠ []
  newSalt_nonzero : ∃ b ∈ newSalt, b ≠ 0

def Attempt.oldPsw (a : Attempt) : String := encodeHexString a.oldBytes

def Attempt.newPsw (a : Attempt) : String := encodeHexString a.newBytes

/-- Where a run of the reset stands, with what is still to be written. -/
inductive Phase
  | idle
  | storing (a : Attempt) (rest : List UInt8)
  | stored (a : Attempt)
  | verified (a : Attempt)
  | updating (a : Attempt) (rest : List UInt8)
  | deleting

/-- The files, the run, the passwords that the user has or has had, and whether a run has stopped
with the restore wallet cut off. -/
structure ResetState where
  files : Files
  phase : Phase
  passwords : List String
  interrupted : Bool

inductive ResetStep
  | start (a : Attempt)
  | write (count : Nat)
  | proceed
  | readFailure
  | crash

/-- What is given to `StorageGen` is the text of the temporary wallet, made of the data that the
server has of the keys. -/
def attemptText (p : Provider) (m : Platform) (keys : KeyPair) (a : Attempt) : Option String := do
  let newHmacReSetWPswB64Str := p.toBase64String a.newBytes
  let registData ← BlockchainWalletPswReSetRegistDataGenCoreEngine p m (some (p.toBase64String a.oldBytes))
    (some newHmacReSetWPswB64Str) (some (restoreHmac p m keys a.oldSalt a.oldPsw))
    (some (restoreData p m keys a.oldSalt a.oldPsw)) a.newSalt
  match tokens '%' registData with
  | existSavedWPswVerifySFstr :: orgWPukB64str :: _ :: newData :: _ =>
    if existSavedWPswVerifySFstr = "0x5120" then none
    else resetWalletText p m newHmacReSetWPswB64Str orgWPukB64str newData
  | _ => none

/-- The verdict on the temporary wallet; `none` ends the program. -/
def verifyTemp (p : Provider) (files : Files) (a : Attempt) : Option Bool := do
  let newTransactionSignBytes ← BlockchainTransactionSign p files a.trasctionDataStr a.newPsw "TEMP"
  if ofUtf8 newTransactionSignBytes = "0x5201" then none
  else do
    let newBCPulicKey ← GetBlockchainPulicKey files true
    let newBCPulicKeyBytes ← MoaBase58.decode newBCPulicKey
    some (p.blockchainECDSAVerify (utf8 a.trasctionDataStr) newTransactionSignBytes newBCPulicKeyBytes)

/-- More bytes at the end of a file. -/
def Files.append (files : Files) (name : FileName) (bytes : List UInt8) : Files :=
  files.write name ((files name).getD [] ++ bytes)

namespace ResetState

/-- The next step of the run, where it has nothing left to write. -/
def proceed (p : Provider) (m : Platform) (s : ResetState) : ResetState :=
  match s.phase with
  | .idle => s
  | .storing a rest => if rest = [] then { s with phase := .stored a } else s
  | .stored a =>
    match verifyTemp p s.files a with
    | none => { s with phase := .idle }
    | some true => { s with phase := .verified a }
    | some false => { s with phase := .deleting }
  | .verified a =>
    match s.files .tempRestoreWalletFileName with
    | none => { s with phase := .deleting }
    | some tempBytes =>
      match updateText m tempBytes with
      | none => { s with phase := .idle }
      | some text =>
        -- opening the restore wallet for writing cuts it off
        { s with files := s.files.write .restoreWalletFileName [], phase := .updating a (utf8 text) }
  | .updating _ rest => if rest = [] then { s with phase := .deleting } else s
  | .deleting =>
    { s with
      files := BlockchainWalletFileDelete s.files .tempRestoreWalletFileName "0x5096"
      phase := .idle }

/-- The run stops; the files stay as they are. -/
def crash (s : ResetState) : ResetState :=
  match s.phase with
  | .updating _ rest => { s with phase := .idle, interrupted := s.interrupted || decide (rest ≠ []) }
  | _ => { s with phase := .idle }

def step (p : Provider) (m : Platform) (keys : KeyPair) (s : ResetState) : ResetStep → ResetState
  | .start a =>
    match s.phase, attemptText p m keys a with
    | .idle, some text =>
      { s with
        files := s.files.write .tempRestoreWalletFileName []
        phase := .storing a (utf8 text)
        passwords := a.newPsw :: s.passwords }
    | _, _ => s
  | .write count =>
    match s.phase with
    | .storing a rest =>
      { s with
        files := s.files.append .tempRestoreWalletFileName (rest.take count)
        phase := .storing a (rest.drop count) }
    | .updating a rest =>
      { s with
        files := s.files.append .restoreWalletFileName (rest.take count)
        phase := .updating a (rest.drop count) }
    | _ => s
  | .proceed => s.proceed p m
  | .readFailure =>
    -- the update passes over an `IOException` of its reads, and the temporary wallet is deleted
    match s.phase with
    | .verified _ => { s with phase := .deleting }
    | _ => s.crash
  | .crash => s.crash

/-- Before any reset, with the restore wallet of the user under a password. -/
def init (files : Files) (psw : String) : ResetState := ⟨files, .idle, [psw], false⟩

end ResetState

/-- A complete wallet that signs with the private key under one of the passwords. -/
def Complete (p : Provider) (keys : KeyPair) (passwords : List String) (file : Option (List UInt8)) : Prop :=
  ∃ bytes w psw, file = some bytes ∧ loadWallet bytes = some w ∧ psw ∈ passwords ∧
    w.signing p psw = some (.signedWith keys.privateKey)

/-- One of the two files is a complete wallet. -/
def ResetState.Safe (p : Provider) (keys : KeyPair) (s : ResetState) : Prop :=
  Complete p keys s.passwords (s.files .restoreWalletFileName) ∨
    Complete p keys s.passwords (s.files .tempRestoreWalletFileName)

/-- No reset is started where the restore wallet was left cut off. -/
def NotAfterInterruption (s : ResetState) : ResetStep → Prop
  | .start _ => s.interrupted = false
  | _ => True

/-! ## The temporary wallet -/

theorem attemptText_eq {p : Provider} (hp : p.Sound) (m : Platform) (keys : KeyPair) (a : Attempt) :
    ∃ text, attemptText p m keys a = some text ∧ utf8 text = issuedFile p m "R" keys a.newSalt a.newPsw := by
  obtain ⟨text, htext, hbytes⟩ :=
    Option.map_eq_some_iff.mp (resetWalletText_restoreData hp m keys a.newSalt_nonzero a.newBytes)
  refine ⟨text, ?_, hbytes⟩
  simp only [attemptText, Attempt.oldPsw,
    registDataGen_restoreData hp m keys a.oldSalt_ne a.oldBytes a.newBytes, Option.bind_eq_bind,
    Option.bind_some, tokens_registData hp m keys, htext, show ¬ ("0x5119" : String) = "0x5120" by decide,
    if_false]

theorem Complete.mono {p : Provider} {keys : KeyPair} {passwords : List String} {file : Option (List UInt8)}
    (h : Complete p keys passwords file) (psw : String) : Complete p keys (psw :: passwords) file := by
  obtain ⟨bytes, w, psw', hfile, hload, hmem, hsigning⟩ := h
  exact ⟨bytes, w, psw', hfile, hload, List.mem_cons_of_mem psw hmem, hsigning⟩

/-- A wallet that signs at all signs with the key that it was issued for. -/
theorem signing_readWallet_key {p : Provider} (hp : p.Sound) {m : Platform} (keys : KeyPair)
    {salt : List UInt8} (hsalt : ∃ b ∈ salt, b ≠ 0) (psw : String) {key : List UInt8}
    (h : (readWallet p m "R" keys salt psw).signing p psw = some (.signedWith key)) :
    (readWallet p m "R" keys salt psw).signing p psw = some (.signedWith keys.privateKey) := by
  by_cases hmac : (issuedInfo p m "R" keys salt psw).macDataBytes p (hmacKey p salt psw) =
      (readInfo p m "R" keys salt psw).macDataBytes p (hmacKey p salt psw)
  · by_cases hcipher : ∃ b ∈ encryptedTwice p m keys salt psw, b ≠ 0
    · exact signing_readWallet hp keys hsalt psw hmac hcipher
    · rw [signing_zeros keys hsalt psw hmac hcipher] at h
      cases h
  · rw [signing_integrityFail keys hsalt psw hmac] at h
    cases h

theorem transactionSigning_temp {p : Provider} {m : Platform} {keys : KeyPair} {salt : List UInt8}
    {psw : String} {files : Files}
    (htemp : files .tempRestoreWalletFileName = some (issuedFile p m "R" keys salt psw)) (other : String) :
    transactionSigning p files other "TEMP" = (readWallet p m "R" keys salt psw).signing p other := by
  simp only [transactionSigning, show walletFile "TEMP" = some .tempRestoreWalletFileName by rfl,
    Option.bind_eq_bind, Option.bind_some, htemp, loadWallet_issued plainText_R keys psw]

/-- A temporary wallet that passes the verification is complete. -/
theorem complete_of_verifyTemp {p : Provider} (hp : p.Sound) {m : Platform} {keys : KeyPair} {files : Files}
    {a : Attempt} {passwords : List String} (hmem : a.newPsw ∈ passwords)
    (htemp : files .tempRestoreWalletFileName = some (issuedFile p m "R" keys a.newSalt a.newPsw))
    {verdict : Bool} (h : verifyTemp p files a = some verdict) :
    Complete p keys passwords (some (issuedFile p m "R" keys a.newSalt a.newPsw)) := by
  have hload : loadWallet (issuedFile p m "R" keys a.newSalt a.newPsw) = _ :=
    loadWallet_issued plainText_R keys a.newPsw
  obtain ⟨sign, hsign, hrest⟩ := Option.bind_eq_some_iff.mp h
  rw [BlockchainTransactionSign, transactionSigning_temp htemp] at hsign
  obtain ⟨signing, hsome, hbytes⟩ := Option.map_eq_some_iff.mp hsign
  cases signing with
  | integrityFail =>
    -- the code of the failed check ends the program
    rw [← hbytes, if_pos (ofUtf8_utf8 "0x5201")] at hrest
    cases hrest
  | signedWith key =>
    exact ⟨_, _, a.newPsw, rfl, hload, hmem,
      signing_readWallet_key hp keys a.newSalt_nonzero a.newPsw hsome⟩

/-! ## One step, and a run -/

section Steps

variable (p : Provider) (m : Platform) (keys : KeyPair)

/-- The wallet that the attempt issues. -/
def Attempt.file (a : Attempt) : List UInt8 := issuedFile p m "R" keys a.newSalt a.newPsw

/-- The restore wallet is complete up to the moment in which it is written over, and then the temporary
wallet is, which is copied; after an interruption the temporary wallet is left. -/
def ResetState.Inv (s : ResetState) : Prop :=
  match s.phase with
  | .idle =>
    Complete p keys s.passwords
      (s.files (if s.interrupted then .tempRestoreWalletFileName else .restoreWalletFileName))
  | .storing a rest =>
    s.interrupted = false ∧ Complete p keys s.passwords (s.files .restoreWalletFileName) ∧
      a.newPsw ∈ s.passwords ∧
      ∃ done, s.files .tempRestoreWalletFileName = some done ∧ done ++ rest = a.file p m keys
  | .stored a =>
    s.interrupted = false ∧ Complete p keys s.passwords (s.files .restoreWalletFileName) ∧
      a.newPsw ∈ s.passwords ∧ s.files .tempRestoreWalletFileName = some (a.file p m keys)
  | .verified a =>
    s.interrupted = false ∧ Complete p keys s.passwords (s.files .restoreWalletFileName) ∧
      s.files .tempRestoreWalletFileName = some (a.file p m keys) ∧
      Complete p keys s.passwords (some (a.file p m keys))
  | .updating a rest =>
    s.interrupted = false ∧ s.files .tempRestoreWalletFileName = some (a.file p m keys) ∧
      Complete p keys s.passwords (some (a.file p m keys)) ∧
      ∃ done, s.files .restoreWalletFileName = some done ∧ done ++ rest = a.file p m keys
  | .deleting =>
    s.interrupted = false ∧ Complete p keys s.passwords (s.files .restoreWalletFileName)

variable {p m keys}

theorem ResetState.Inv.safe {s : ResetState} (h : s.Inv p m keys) : s.Safe p keys := by
  unfold Inv at h
  unfold Safe
  split at h
  · cases hi : s.interrupted with
    | false =>
      rw [hi] at h
      exact Or.inl h
    | true =>
      rw [hi] at h
      exact Or.inr h
  · exact Or.inl h.2.1
  · exact Or.inl h.2.1
  · exact Or.inl h.2.1
  · obtain ⟨_, htemp, hcomplete, _⟩ := h
    exact Or.inr (htemp ▸ hcomplete)
  · exact Or.inl h.2

/-- Writing more of a file keeps what is done and what is left together. -/
theorem append_rest {files : Files} {name : FileName} {done rest whole : List UInt8}
    (hdone : files name = some done) (hwhole : done ++ rest = whole) (count : Nat) :
    ∃ done', files.append name (rest.take count) name = some done' ∧ done' ++ rest.drop count = whole := by
  refine ⟨done ++ rest.take count, ?_, ?_⟩
  · rw [Files.append, Files.write_self, hdone, Option.getD_some]
  · rw [List.append_assoc, List.take_append_drop, hwhole]

theorem append_of_ne {files : Files} {name other : FileName} (h : other ≠ name) (bytes : List UInt8) :
    files.append name bytes other = files other := Files.write_of_ne files h _

theorem inv_start (hp : p.Sound) {s : ResetState} (h : s.Inv p m keys) {a : Attempt}
    (hD : s.interrupted = false) : (s.step p m keys (.start a)).Inv p m keys := by
  obtain ⟨text, htext, hbytes⟩ := attemptText_eq hp m keys a
  obtain ⟨files, phase, passwords, interrupted⟩ := s
  cases phase with
  | idle =>
    simp only at hD
    subst hD
    have hrestore : Complete p keys passwords (files .restoreWalletFileName) := h
    simp only [ResetState.step, htext, ResetState.Inv]
    refine ⟨trivial, ?_, List.mem_cons_self, [], Files.write_self _ _ _, hbytes⟩
    rw [Files.write_of_ne _ (by decide)]
    exact hrestore.mono a.newPsw
  | _ => exact h

theorem inv_write {s : ResetState} (h : s.Inv p m keys) (count : Nat) :
    (s.step p m keys (.write count)).Inv p m keys := by
  obtain ⟨files, phase, passwords, interrupted⟩ := s
  cases phase with
  | storing a rest =>
    obtain ⟨hi, hrestore, hmem, done, hdone, hwhole⟩ := h
    obtain ⟨done', hdone', hwhole'⟩ := append_rest hdone hwhole count
    refine ⟨hi, ?_, hmem, done', hdone', hwhole'⟩
    show Complete p keys passwords
      (files.append .tempRestoreWalletFileName (rest.take count) .restoreWalletFileName)
    rw [append_of_ne (by decide)]
    exact hrestore
  | updating a rest =>
    obtain ⟨hi, htemp, hcomplete, done, hdone, hwhole⟩ := h
    obtain ⟨done', hdone', hwhole'⟩ := append_rest hdone hwhole count
    refine ⟨hi, ?_, hcomplete, done', hdone', hwhole'⟩
    show files.append .restoreWalletFileName (rest.take count) .tempRestoreWalletFileName = _
    rw [append_of_ne (by decide)]
    exact htemp
  | _ => exact h

theorem inv_proceed (hp : p.Sound) {s : ResetState} (h : s.Inv p m keys) : (s.proceed p m).Inv p m keys := by
  obtain ⟨files, phase, passwords, interrupted⟩ := s
  cases phase with
  | idle => exact h
  | storing a rest =>
    obtain ⟨hi, hrestore, hmem, done, hdone, hwhole⟩ := h
    simp only [ResetState.proceed]
    split
    · rename_i hrest
      rw [hrest, List.append_nil] at hwhole
      exact ⟨hi, hrestore, hmem, hwhole ▸ hdone⟩
    · exact ⟨hi, hrestore, hmem, done, hdone, hwhole⟩
  | stored a =>
    obtain ⟨hi, hrestore, hmem, htemp⟩ := h
    simp only at hi
    subst hi
    simp only [ResetState.proceed]
    cases hverdict : verifyTemp p files a with
    | none => exact hrestore
    | some verdict =>
      cases verdict with
      | true => exact ⟨rfl, hrestore, htemp, complete_of_verifyTemp hp hmem htemp hverdict⟩
      | false => exact ⟨rfl, hrestore⟩
  | verified a =>
    obtain ⟨hi, hrestore, htemp, hcomplete⟩ := h
    obtain ⟨text, htext, hbytes⟩ := Option.map_eq_some_iff.mp (updateText_issued p m keys a.newSalt a.newPsw)
    simp only at htemp
    simp only [Attempt.file] at htemp
    simp only [ResetState.proceed, htemp, htext, ResetState.Inv]
    refine ⟨hi, ?_, hcomplete, [], Files.write_self _ _ _, hbytes⟩
    rw [Files.write_of_ne _ (by decide)]
    exact htemp
  | updating a rest =>
    obtain ⟨hi, htemp, hcomplete, done, hdone, hwhole⟩ := h
    simp only [ResetState.proceed]
    split
    · rename_i hrest
      rw [hrest, List.append_nil] at hwhole
      refine ⟨hi, ?_⟩
      show Complete p keys passwords (files .restoreWalletFileName)
      simp only at hdone
      rw [hdone, hwhole]
      exact hcomplete
    · exact ⟨hi, htemp, hcomplete, done, hdone, hwhole⟩
  | deleting =>
    obtain ⟨hi, hrestore⟩ := h
    simp only at hi
    subst hi
    exact hrestore

theorem inv_crash {s : ResetState} (h : s.Inv p m keys) : s.crash.Inv p m keys := by
  obtain ⟨files, phase, passwords, interrupted⟩ := s
  cases phase with
  | idle => exact h
  | updating a rest =>
    obtain ⟨hi, htemp, hcomplete, done, hdone, hwhole⟩ := h
    simp only at hi htemp hdone
    subst hi
    by_cases hrest : rest = []
    · -- the restore wallet is written already
      rw [hrest, List.append_nil] at hwhole
      have hflag : (false || decide (rest ≠ [])) = false := by simp [hrest]
      simp only [ResetState.crash, ResetState.Inv, hflag, Bool.false_eq_true, if_false, hdone, hwhole]
      exact hcomplete
    · simp only [ResetState.crash, ResetState.Inv, hrest, ne_eq, not_false_eq_true, decide_true,
        Bool.or_true, if_true, htemp]
      exact hcomplete
  | _ =>
    obtain ⟨hi, hrest⟩ := h
    simp only at hi
    subst hi
    first
      | exact hrest
      | exact hrest.1

theorem inv_step (hp : p.Sound) (s : ResetState) (l : ResetStep) (h : s.Inv p m keys)
    (hD : NotAfterInterruption s l) : (s.step p m keys l).Inv p m keys := by
  cases l with
  | start a => exact inv_start hp h hD
  | write count => exact inv_write h count
  | proceed => exact inv_proceed hp h
  | readFailure =>
    obtain ⟨files, phase, passwords, interrupted⟩ := s
    cases phase with
    | verified a => exact ⟨h.1, h.2.1⟩
    | _ => exact inv_crash h
  | crash => exact inv_crash h

/-- **Crash safety.**  In a run in which no reset is started after one that left the restore wallet
cut off, one of the files is always a complete wallet of the user. -/
theorem reset_crash_safe (hp : p.Sound) (m : Platform) (keys : KeyPair) {files : Files} {psw : String}
    (hold : Complete p keys [psw] (files .restoreWalletFileName)) {steps : List ResetStep}
    (hD : StepRun.Along (ResetState.step p m keys) NotAfterInterruption (.init files psw) steps) :
    (StepRun.run (ResetState.step p m keys) (.init files psw) steps).Safe p keys := by
  have hinit : (ResetState.init files psw).Inv p m keys := hold
  exact (StepRun.invariant_run _ (inv_step hp) hinit hD).safe

end Steps

/-! ## The loss -/

theorem complete_issued {p : Provider} (hp : p.Sound) {m : Platform} {keys : KeyPair} {salt : List UInt8}
    (hsalt : ∃ b ∈ salt, b ≠ 0) {psw : String} (h : Readable p m keys salt psw) {passwords : List String}
    (hmem : psw ∈ passwords) : Complete p keys passwords (some (issuedFile p m "R" keys salt psw)) := by
  have hinfo : readInfo p m "R" keys salt psw = _ := readInfo_eq keys psw h.osName
  exact ⟨_, _, psw, rfl, loadWallet_issued plainText_R keys psw, hmem,
    signing_readWallet hp keys hsalt psw (by rw [hinfo]) h.ciphered⟩

theorem not_complete_empty (p : Provider) (keys : KeyPair) (passwords : List String) :
    ¬ Complete p keys passwords (some []) := by
  rintro ⟨bytes, w, psw, hbytes, hload, _⟩
  rw [← Option.some.inj hbytes] at hload
  cases hload

/-- The files of a user of the provider in the clear. -/
def plainFiles : Files
  | .restoreWalletFileName => some (issuedFile .plain linux "R" plainKeys [1] "654321")
  | _ => none

def plainAttempt : Attempt := ⟨[3], [1], [4], [2], "x", by decide, by decide⟩

theorem complete_plain : Complete .plain plainKeys ["654321"] (plainFiles .restoreWalletFileName) :=
  complete_issued Provider.plain_sound (by decide) (readable_plain (by decide) _ _ _) List.mem_cons_self

/-- A reset whose first write is broken off. -/
theorem reset_crash_safe_linux :
    (StepRun.run (ResetState.step .plain linux plainKeys) (.init plainFiles "654321")
      [.start plainAttempt, .write 10, .crash]).Safe .plain plainKeys :=
  reset_crash_safe Provider.plain_sound linux plainKeys complete_plain (by
    simp [StepRun.Along, NotAfterInterruption, ResetState.init])

/-- The verdict on a temporary wallet that can be read is that of the signature scheme. -/
theorem verifyTemp_issued {p : Provider} (hp : p.Sound) {m : Platform} {keys : KeyPair} {files : Files}
    {a : Attempt} {salt : List UInt8} {psw : String}
    (hrestore : files .restoreWalletFileName = some (issuedFile p m "R" keys salt psw))
    (htemp : files .tempRestoreWalletFileName = some (issuedFile p m "R" keys a.newSalt a.newPsw))
    (h : Readable p m keys a.newSalt a.newPsw) (hkey : ∃ b ∈ keys.publicKey, b ≠ 0) {signature : List UInt8}
    (hsignature : p.blockchainECDSASign (utf8 a.trasctionDataStr) keys.privateKey = signature)
    (hcode : ofUtf8 signature ≠ "0x5201") :
    verifyTemp p files a = some (p.blockchainECDSAVerify (utf8 a.trasctionDataStr) signature keys.publicKey) := by
  have hinfo : readInfo p m "R" keys a.newSalt a.newPsw = _ := readInfo_eq keys a.newPsw h.osName
  have hsign : BlockchainTransactionSign p files a.trasctionDataStr a.newPsw "TEMP" = some signature := by
    rw [BlockchainTransactionSign, transactionSigning_temp htemp,
      signing_readWallet hp keys a.newSalt_nonzero a.newPsw (by rw [hinfo]) h.ciphered, ← hsignature]
    rfl
  simp only [verifyTemp, hsign, Option.bind_eq_bind, Option.bind_some, hcode, if_false,
    publicKey_issued hrestore, MoaBase58.decode_encode hkey]

theorem sign_plain :
    Provider.plain.blockchainECDSASign (utf8 plainAttempt.trasctionDataStr) plainKeys.privateKey =
      utf8 "\x07x" := by rfl

theorem verify_plain : Provider.plain.blockchainECDSAVerify (utf8 plainAttempt.trasctionDataStr) (utf8 "\x07x")
    plainKeys.publicKey = true := by rfl

/-- The files after the temporary wallet is written. -/
def storedFiles (p : Provider) (m : Platform) (keys : KeyPair) (files : Files) (a : Attempt) : Files :=
  (files.write .tempRestoreWalletFileName []).append .tempRestoreWalletFileName (a.file p m keys)

theorem storedFiles_temp (p : Provider) (m : Platform) (keys : KeyPair) (files : Files) (a : Attempt) :
    storedFiles p m keys files a .tempRestoreWalletFileName = some (a.file p m keys) := by
  rw [storedFiles, Files.append, Files.write_self, Files.write_self, Option.getD_some, List.nil_append]

theorem storedFiles_restore (p : Provider) (m : Platform) (keys : KeyPair) (files : Files) (a : Attempt) :
    storedFiles p m keys files a .restoreWalletFileName = files .restoreWalletFileName := by
  rw [storedFiles, append_of_ne (by decide), Files.write_of_ne _ (by decide)]

/-- A crash right after the restore wallet is cut off, and a new reset. -/
def interruption (p : Provider) (m : Platform) (keys : KeyPair) (a next : Attempt) : List ResetStep :=
  [.start a, .write (a.file p m keys).length, .proceed, .proceed, .proceed, .crash, .start next]

/-- Both files are cut off. -/
theorem files_interruption {p : Provider} (hp : p.Sound) (m : Platform) (keys : KeyPair) (files : Files)
    (psw : String) (a next : Attempt) (hverdict : verifyTemp p (storedFiles p m keys files a) a = some true) :
    (StepRun.run (ResetState.step p m keys) (.init files psw) (interruption p m keys a next)).files =
      ((storedFiles p m keys files a).write .restoreWalletFileName []).write .tempRestoreWalletFileName [] := by
  obtain ⟨text, htext, hbytes⟩ := attemptText_eq hp m keys a
  obtain ⟨nextText, hnext, _⟩ := attemptText_eq hp m keys next
  obtain ⟨update, hupdate, _⟩ := Option.map_eq_some_iff.mp (updateText_issued p m keys a.newSalt a.newPsw)
  have hstored : (files.write .tempRestoreWalletFileName []).append .tempRestoreWalletFileName
      (issuedFile p m "R" keys a.newSalt a.newPsw) = storedFiles p m keys files a := rfl
  have htemp : storedFiles p m keys files a .tempRestoreWalletFileName =
      some (issuedFile p m "R" keys a.newSalt a.newPsw) := storedFiles_temp p m keys files a
  simp only [interruption, StepRun.run_cons, StepRun.run_nil, ResetState.init, ResetState.step, htext, hnext,
    hbytes, Attempt.file, List.take_length, List.drop_length, ResetState.proceed, if_true, hstored, hverdict,
    htemp, hupdate, ResetState.crash]

/-- Both wallets of the user are lost. -/
theorem reset_loses_both :
    ¬ (StepRun.run (ResetState.step .plain linux plainKeys) (.init plainFiles "654321")
      (interruption .plain linux plainKeys plainAttempt plainAttempt)).Safe .plain plainKeys := by
  have htemp := storedFiles_temp .plain linux plainKeys plainFiles plainAttempt
  have hrestore := storedFiles_restore .plain linux plainKeys plainFiles plainAttempt
  have hverdict := (verifyTemp_issued Provider.plain_sound hrestore htemp (readable_plain (by decide) _ _ _)
    (by decide) sign_plain (by rw [ofUtf8_utf8]; decide)).trans (congrArg some verify_plain)
  have hfiles := files_interruption Provider.plain_sound linux plainKeys plainFiles "654321" plainAttempt
    plainAttempt hverdict
  rintro (h | h)
  · rw [hfiles, Files.write_of_ne _ (by decide), Files.write_self] at h
    exact not_complete_empty _ _ _ h
  · rw [hfiles, Files.write_self] at h
    exact not_complete_empty _ _ _ h

end MoaCrypto.Wallet
