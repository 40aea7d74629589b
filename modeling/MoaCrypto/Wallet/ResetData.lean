import MoaCrypto.Wallet.Reset

/-!
# The data of a password reset and its caller (`MoaBCFCWalletPswReSetTest.java`)

The caller reads four tokens before it looks at the first one, the status.  A failed check of the old password
makes three (`readRegistData_failed`), and so does an empty public key: the caller gets four exactly where the
check passes for a public key that is not empty (`resetData_handled_iff`).
-/

namespace MoaCrypto.Wallet

open Java

/-- What the caller does with the data; `exception` is that of a token that is not there. -/
inductive RegistStep
  | exception
  | refused
  | stores (orgWPukB64str newHmacEwPukB64str newData : String)
  deriving DecidableEq

def readRegistData (registData : String) : RegistStep :=
  match tokens '%' registData with
  | existSavedWPswVerifySFstr :: orgWPukB64str :: newHmacEwPukB64str :: newData :: _ =>
    if existSavedWPswVerifySFstr = "0x5120" then .refused
    else .stores orgWPukB64str newHmacEwPukB64str newData
  | _ => .exception

/-- The reset stores a wallet where the caller gets that far. -/
theorem passwordReset_step (p : Provider) (m : Platform) (files : Files)
    (existHmacWPswB64Str newHmacReSetWPswB64Str existHmacEwPuk existData : String) (newWSaltBytes : List UInt8) :
    passwordReset p m files existHmacWPswB64Str newHmacReSetWPswB64Str existHmacEwPuk existData newWSaltBytes =
      (BlockchainWalletPswReSetRegistDataGenCoreEngine p m (some existHmacWPswB64Str)
        (some newHmacReSetWPswB64Str) (some existHmacEwPuk) (some existData) newWSaltBytes).bind fun registData =>
        match readRegistData registData with
        | .stores orgWPukB64str newHmacEwPukB64str newData =>
          (BlockchainWalletPswReSetStorageGenCoreEngine p m files newHmacReSetWPswB64Str orgWPukB64str newData).bind
            fun files => (BlockchainWalletFileUpdate m files).bind fun files => some (files, newHmacEwPukB64str, newData)
        | _ => none := by
  unfold passwordReset readRegistData
  refine congrArg _ (funext fun registData => ?_)
  match tokens '%' registData with
  | [] => rfl
  | [_] => rfl
  | [_, _] => rfl
  | [_, _, _] => rfl
  | status :: _ :: _ :: _ :: _ =>
    by_cases hstatus : status = "0x5120"
    · simp only [if_pos hstatus]
    · simp only [if_neg hstatus]
      rfl

/-! ## A request -/

/-- The arguments, with the salt that is drawn. -/
structure ResetRequest where
  existHmacWPswB64Str : String
  newHmacReSetWPswB64Str : String
  existHmacWPukB64Str : String
  existData : String
  newWSaltBytes : List UInt8

def ResetRequest.registData (p : Provider) (m : Platform) (r : ResetRequest) : Option String :=
  BlockchainWalletPswReSetRegistDataGenCoreEngine p m (some r.existHmacWPswB64Str) (some r.newHmacReSetWPswB64Str)
    (some r.existHmacWPukB64Str) (some r.existData) r.newWSaltBytes

/-- The check of the old password passes, for a public key that is not empty. -/
def ResetRequest.Verified (p : Provider) (r : ResetRequest) : Prop :=
  ∃ psw encPrk encPuk salt, hmacWPsw28Str p r.existHmacWPswB64Str = some psw ∧
    parseRestoreData p r.existData = some (encPrk, encPuk, salt) ∧
    p.decodeBase64 r.existHmacWPukB64Str = some (p.HmacDigest encPuk (utf8 psw)) ∧ encPuk ≠ []

/-- The four tokens, and the branch on the first of them. -/
def Handled (registData : String) : Prop :=
  ∃ status orgWPuk newHmac encPrk encPuk salt,
    tokens '%' registData = [status, orgWPuk, newHmac, encPrk ++ "$" ++ encPuk ++ "$" ++ salt] ∧
      (status = "0x5119" ∧ readRegistData registData = .stores orgWPuk newHmac (encPrk ++ "$" ++ encPuk ++ "$" ++ salt) ∨
        status = "0x5120" ∧ readRegistData registData = .refused)

/-! ## The data -/

def failedData : String := "0x5120" ++ "%" ++ "null" ++ " %" ++ "null" ++ "$" ++ "null" ++ "$" ++ "null"

theorem tokens_failedData : tokens '%' failedData = ["0x5120", "null ", "null$null$null"] := by decide

/-- After a failed check nothing is stored, but the branch for it is not reached. -/
theorem readRegistData_failed : readRegistData failedData = .exception := by decide

theorem not_handled_failed : ¬ Handled failedData := by
  rintro ⟨status, orgWPuk, newHmac, encPrk, encPuk, salt, htokens, -⟩
  rw [tokens_failedData] at htokens
  cases htokens

section Data

variable {p : Provider} (hp : p.Sound) (hbase64 : p.toBase64String = Base64.encode)

/-- The data of a passed check. -/
def passedData (p : Provider) (puk hmac encPrk encPuk salt : List UInt8) : String :=
  "0x5119" ++ "%" ++ p.toBase64String puk ++ "%" ++ p.toBase64String hmac ++ "%" ++ p.toBase64String encPrk ++ "$" ++
    p.toBase64String encPuk ++ "$" ++ p.toBase64String salt

include hp in
theorem tokens_passedData (puk : List UInt8) {hmac : List UInt8} (hhmac : hmac ≠ []) (encPrk encPuk salt : List UInt8) :
    tokens '%' (passedData p puk hmac encPrk encPuk salt) =
      "0x5119" :: (tokens '%' (p.toBase64String puk) ++ [p.toBase64String hmac,
        p.toBase64String encPrk ++ "$" ++ p.toBase64String encPuk ++ "$" ++ p.toBase64String salt]) := by
  have hsplit : passedData p puk hmac encPrk encPuk salt =
      "0x5119" ++ "%" ++ (p.toBase64String puk ++ "%" ++ (p.toBase64String hmac ++ "%" ++
        (p.toBase64String encPrk ++ "$" ++ p.toBase64String encPuk ++ "$" ++ p.toBase64String salt))) := by
    unfold passedData
    simp only [String.append_assoc]
  have hpart : ∀ x y : String, tokens '%' (x ++ "%" ++ y) = tokens '%' x ++ tokens '%' y := tokens_append '%'
  rw [hsplit, hpart, hpart, hpart, hp.tokens_joined, (hp.tokens_base64 hhmac).2]
  rfl

include hp in
theorem handled_passedData {puk hmac : List UInt8} (hpuk : puk ≠ []) (hhmac : hmac ≠ [])
    (encPrk encPuk salt : List UInt8) : Handled (passedData p puk hmac encPrk encPuk salt) := by
  have htokens := tokens_passedData hp puk hhmac encPrk encPuk salt
  rw [(hp.tokens_base64 hpuk).2] at htokens
  refine ⟨_, _, _, _, _, _, htokens, Or.inl ⟨rfl, ?_⟩⟩
  rw [readRegistData, htokens]
  rfl

include hp hbase64 in
/-- Without a public key there are three tokens. -/
theorem not_handled_empty {hmac : List UInt8} (hhmac : hmac ≠ []) (encPrk encPuk salt : List UInt8) :
    ¬ Handled (passedData p [] hmac encPrk encPuk salt) := by
  rintro ⟨status, orgWPuk, newHmac, x, y, z, htokens, -⟩
  have hempty : tokens '%' (p.toBase64String []) = [] := by
    rw [hbase64]
    decide
  rw [tokens_passedData hp [] hhmac, hempty] at htokens
  cases htokens

/-! ## The requests -/

/-- What the engine returns: the data of a failed check, or that of a passed one. -/
theorem registData_cases {m : Platform} {r : ResetRequest} {registData : String}
    (h : r.registData p m = some registData) :
    ∃ psw encPrk encPuk salt existHmac, hmacWPsw28Str p r.existHmacWPswB64Str = some psw ∧
      parseRestoreData p r.existData = some (encPrk, encPuk, salt) ∧
      p.decodeBase64 r.existHmacWPukB64Str = some existHmac ∧
      (existHmac ≠ p.HmacDigest encPuk (utf8 psw) ∧ registData = failedData ∨
        existHmac = p.HmacDigest encPuk (utf8 psw) ∧ ∃ newPsw x y, registData = passedData p
          (p.PBKDF2baseEncrptAndDecrypt encPuk .DECRYPT psw salt m.iterationCount (48 * 8))
          (p.HmacDigest y (utf8 newPsw)) x y r.newWSaltBytes) := by
  simp only [ResetRequest.registData, BlockchainWalletPswReSetRegistDataGenCoreEngine, Option.bind_eq_bind,
    Option.bind_some] at h
  simp only [Option.bind_eq_some_iff] at h
  obtain ⟨psw, hpsw, ⟨encPrk, encPuk, salt⟩, hdata, existHmac, hhmac, hreturned⟩ := h
  refine ⟨psw, encPrk, encPuk, salt, existHmac, hpsw, hdata, hhmac, ?_⟩
  split at hreturned
  · rename_i hfails
    exact Or.inl ⟨hfails, (Option.some.inj hreturned).symm⟩
  · rename_i hpasses
    obtain ⟨newPsw, -, hreturned⟩ := Option.bind_eq_some_iff.mp hreturned
    exact Or.inr ⟨not_not.mp hpasses, newPsw, _, _, (Option.some.inj hreturned).symm⟩

include hp hbase64 in
/-- **The data is handled** exactly if the check passes for a public key that is not empty. -/
theorem resetData_handled_iff
    (hlength : ∀ iv key data, (p.SymmetricDecryptData iv key data).length = data.length) {m : Platform}
    {r : ResetRequest} {registData : String} (h : r.registData p m = some registData) :
    Handled registData ↔ r.Verified p := by
  obtain ⟨psw, encPrk, encPuk, salt, existHmac, hpsw, hdata, hhmac, hreturned⟩ := registData_cases h
  have hverified : r.Verified p ↔ existHmac = p.HmacDigest encPuk (utf8 psw) ∧ encPuk ≠ [] := by
    constructor
    · rintro ⟨psw', encPrk', encPuk', salt', hpsw', hdata', hhmac', hne⟩
      rw [hpsw, Option.some.injEq] at hpsw'
      rw [hdata, Option.some.injEq, Prod.mk.injEq, Prod.mk.injEq] at hdata'
      obtain ⟨rfl, rfl, rfl⟩ := hdata'
      rw [hhmac, Option.some.injEq, ← hpsw'] at hhmac'
      exact ⟨hhmac', hne⟩
    · rintro ⟨rfl, hne⟩
      exact ⟨psw, encPrk, encPuk, salt, hpsw, hdata, hhmac, hne⟩
  rw [hverified]
  rcases hreturned with ⟨hfails, rfl⟩ | ⟨hpasses, newPsw, x, y, rfl⟩
  · exact ⟨fun hhandled => absurd hhandled not_handled_failed, fun hand => absurd hand.1 hfails⟩
  · have hdecrypt : (p.PBKDF2baseEncrptAndDecrypt encPuk .DECRYPT psw salt m.iterationCount (48 * 8)).length =
        encPuk.length := by
      rw [hp.pbkdf2Decrypt]
      exact hlength _ _ _
    constructor
    · intro hhandled
      refine ⟨hpasses, ?_⟩
      rintro rfl
      rw [List.length_eq_zero_iff.mp hdecrypt] at hhandled
      exact not_handled_empty hp hbase64 (hp.hmac_ne _ _) _ _ _ hhandled
    · rintro ⟨-, hne⟩
      refine handled_passedData hp (fun he => hne ?_) (hp.hmac_ne _ _) _ _ _
      rw [he] at hdecrypt
      exact List.length_eq_zero_iff.mp hdecrypt.symm

end Data

/-! ## Two requests -/

/-- The old password `[3]` for the data of `[1]` and `[2]`, with the HMAC of the public key or another one. -/
def request (existHmac : List UInt8) : ResetRequest where
  existHmacWPswB64Str := Base64.encode [3]
  newHmacReSetWPswB64Str := Base64.encode [4]
  existHmacWPukB64Str := Base64.encode existHmac
  existData := Base64.encode [1] ++ "$" ++ Base64.encode [2] ++ "$" ++ Base64.encode [5]
  newWSaltBytes := [6]

def requestHmac : List UInt8 := Provider.plain.HmacDigest [2] (utf8 "03")

theorem resetData_handled_request :
    Handled (passedData .plain [2] (Provider.plain.HmacDigest [2] (utf8 "04")) [1] [2] [6]) ↔
      (request requestHmac).Verified .plain :=
  resetData_handled_iff Provider.plain_sound rfl (fun _ _ _ => List.length_reverse)
    (show (request requestHmac).registData .plain linux = _ by decide +kernel)

/-- With another HMAC the data has three tokens. -/
theorem resetData_not_handled :
    ∃ registData, (request [0]).registData .plain linux = some registData ∧ ¬ Handled registData :=
  ⟨failedData, by decide +kernel, not_handled_failed⟩

end MoaCrypto.Wallet
