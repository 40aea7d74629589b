import MoaCrypto.CoreAuth.Client

/-!
# Wallets at the core-auth server (`MoaServerCoreAuthLib.java`)

A franchise stores the encrypted keys of its wallet in its record and asks for them again.  The repository
of the records is outside: `AuthService` has its calls, with the text of the message where one throws.
-/

namespace MoaCrypto.CoreAuth

open Java

def moaCORE_BCWalletRegistReq_STR : String := "4D4F414003"
def moaCORE_BCWalletRegistRes_STR : String := "4D4F414004"
def moaCORE_BCWalletRestoreReq_STR : String := "4D4F414007"
def moaCORE_BCWalletRestoreRes_STR : String := "4D4F414008"
def moaCore_WalletRegistSuccess : String := "6080"
def moaCore_WalletRegistFail : String := "6081"
def moaCore_WalletRestoreSuccess : String := "6084"
def moaCore_WalletRestoreFail : String := "6085"
def mParserTokenizer : String := "$"

/-- The fields of a record that the wallet requests read and write; `none` is `null`. -/
structure FranchiseAuthDTO where
  id : String
  cipheredWalletPrk : Option String
  cipheredWalletPuk : Option String

/-- The record with the two tokens of a wallet. -/
def FranchiseAuthDTO.setWallet (authDto : FranchiseAuthDTO) (prk puk : String) : FranchiseAuthDTO :=
  { authDto with cipheredWalletPrk := some prk, cipheredWalletPuk := some puk }

/-- The calls of the repository on its state; an id without a record has `none`. -/
structure AuthService (σ : Type) where
  AuthRepository : σ → Except String Unit
  selectOne : σ → String → Except String (Option FranchiseAuthDTO)
  updateEntity : σ → FranchiseAuthDTO → Except String σ

/-- A repository that can be reached, and that keeps the tokens of a wallet. -/
structure AuthService.Stores {σ : Type} (service : AuthService σ) : Prop where
  opens : ∀ s, service.AuthRepository s = .ok ()
  update : ∀ s id authDto, service.selectOne s id = .ok (some authDto) → ∀ prk puk, ∃ s',
    service.updateEntity s (authDto.setWallet prk puk) = .ok s' ∧
      service.selectOne s' id = .ok (some (authDto.setWallet prk puk))

section Handler

variable (cr : Crypto) {σ : Type} (service : AuthService σ)

/-- The `try` of `registFranchWallet`; a missing token has no message. -/
def storeWallet (s : σ) (msgBodyId : String) (walletReq : List String) : Except String σ := do
  service.AuthRepository s
  let authDto ← service.selectOne s msgBodyId
  match authDto with
  | none => .error ("E001001 There is no wallet to save with ID " ++ msgBodyId)
  | some authDto =>
    match walletReq with
    | _msgBodyPsw :: msgBodyPrk :: msgBodyPuk :: _ =>
      service.updateEntity s (authDto.setWallet msgBodyPrk msgBodyPuk)
    | _ => .error "null"

/-- The id of a request; `none` is an exception. -/
def requestId (walletReq : List String) : Option (String × List String) :=
  match walletReq with
  | [] => none
  | token :: walletReq => (cr.decode token).map fun idBytes => (cr.newString idBytes, walletReq)

def registFranchWallet (s : σ) (walletReq : List String) : Option (σ × String) :=
  (requestId cr walletReq).map fun (msgBodyId, walletReq) =>
    match storeWallet service s msgBodyId walletReq with
    | .ok s' => (s', moaCORE_BCWalletRegistRes_STR ++ mParserTokenizer ++ moaCore_WalletRegistSuccess)
    | .error message => (s, moaCORE_BCWalletRegistRes_STR ++ mParserTokenizer ++ moaCore_WalletRegistFail ++
        mParserTokenizer ++ message)

/-- A text that is `null` in a concatenation. -/
def concatenated (text : Option String) : String := text.getD "null"

def SelectFranchWallet (s : σ) (walletReq : List String) : Option String := do
  let (msgBodyId, _) ← requestId cr walletReq
  let () ← (service.AuthRepository s).toOption
  match service.selectOne s msgBodyId with
  | .ok (some authDto) => some (moaCORE_BCWalletRestoreRes_STR ++ mParserTokenizer ++ moaCore_WalletRestoreSuccess ++
      mParserTokenizer ++ (concatenated authDto.cipheredWalletPrk ++ mParserTokenizer ++
        concatenated authDto.cipheredWalletPuk))
  | _ => some (moaCORE_BCWalletRestoreRes_STR ++ mParserTokenizer ++ moaCore_WalletRestoreFail)

/-- The new state of the repository and the answer. -/
def handleWalletReq (s : σ) (message : String) : σ × String :=
  match tokens '$' message with
  | [] => (s, "Request not allowed (E0001)")
  | msgHeaderIDStr :: walletReq =>
    if msgHeaderIDStr = moaCORE_BCWalletRegistReq_STR then
      (registFranchWallet cr service s walletReq).getD (s, "Request not allowed (E0001)")
    else if msgHeaderIDStr = moaCORE_BCWalletRestoreReq_STR then
      (s, (SelectFranchWallet cr service s walletReq).getD "Request not allowed (E0001)")
    else (s, "Request not allowed (E0001)")

end Handler

section Requests

variable {cr : Crypto} {σ : Type} {service : AuthService σ}

/-- A registration of a known id stores its tokens. -/
theorem handleWalletReq_regist (hservice : service.Stores) {s : σ} {message idBase64 psw prk puk : String}
    {idBytes : List UInt8} (htokens : tokens '$' message = [moaCORE_BCWalletRegistReq_STR, idBase64, psw, prk, puk])
    (hdecode : cr.decode idBase64 = some idBytes) {authDto : FranchiseAuthDTO}
    (hregistered : service.selectOne s (cr.newString idBytes) = .ok (some authDto)) :
    ∃ s', handleWalletReq cr service s message =
        (s', moaCORE_BCWalletRegistRes_STR ++ mParserTokenizer ++ moaCore_WalletRegistSuccess) ∧
      service.selectOne s' (cr.newString idBytes) = .ok (some (authDto.setWallet prk puk)) := by
  obtain ⟨s', hupdate, hselect⟩ := hservice.update s _ authDto hregistered prk puk
  have hstore : storeWallet service s (cr.newString idBytes) [psw, prk, puk] = .ok s' := by
    unfold storeWallet
    rw [hservice.opens, hregistered]
    exact hupdate
  refine ⟨s', ?_, hselect⟩
  unfold handleWalletReq
  rw [htokens]
  simp only [if_true, registFranchWallet, requestId, hdecode, Option.map_some, hstore, Option.getD_some]

/-- The tokens of a stored wallet are in the answer. -/
theorem handleWalletReq_restore (hservice : service.Stores) {s : σ} {message idBase64 prk puk : String}
    {idBytes : List UInt8} (htokens : tokens '$' message = [moaCORE_BCWalletRestoreReq_STR, idBase64])
    (hdecode : cr.decode idBase64 = some idBytes) {authDto : FranchiseAuthDTO}
    (hstored : service.selectOne s (cr.newString idBytes) = .ok (some (authDto.setWallet prk puk))) :
    handleWalletReq cr service s message = (s, moaCORE_BCWalletRestoreRes_STR ++ mParserTokenizer ++
      moaCore_WalletRestoreSuccess ++ mParserTokenizer ++ (prk ++ mParserTokenizer ++ puk)) := by
  have hheader : moaCORE_BCWalletRestoreReq_STR ≠ moaCORE_BCWalletRegistReq_STR := by decide
  unfold handleWalletReq
  rw [htokens]
  simp only [if_neg hheader, if_true, SelectFranchWallet, requestId, hdecode, Option.map_some, Option.bind_eq_bind,
    Option.bind_some, hservice.opens, Except.toOption, hstored, FranchiseAuthDTO.setWallet, concatenated,
    Option.getD_some]

/-- A request that is not answered with success changes nothing. -/
theorem handleWalletReq_failed {s : σ} {message : String}
    (h : (handleWalletReq cr service s message).2 ≠
      moaCORE_BCWalletRegistRes_STR ++ mParserTokenizer ++ moaCore_WalletRegistSuccess) :
    (handleWalletReq cr service s message).1 = s := by
  unfold handleWalletReq at h ⊢
  split
  · rfl
  · rename_i header walletReq htokens
    rw [htokens] at h
    by_cases hregist : header = moaCORE_BCWalletRegistReq_STR
    · simp only [if_pos hregist] at h ⊢
      unfold registFranchWallet at h ⊢
      cases hid : requestId cr walletReq with
      | none => rfl
      | some request =>
        obtain ⟨msgBodyId, rest⟩ := request
        rw [hid] at h
        simp only [Option.map_some, Option.getD_some] at h ⊢
        cases hstore : storeWallet service s msgBodyId rest with
        | error message => rfl
        | ok s' =>
          rw [hstore] at h
          exact absurd rfl h
    · simp only [if_neg hregist] at h ⊢
      split
      · rfl
      · rfl

end Requests

/-! ## A table of records -/

/-- The record of an id, in a table. -/
def findRecord (records : List FranchiseAuthDTO) (id : String) : Option FranchiseAuthDTO :=
  records.find? fun record => record.id = id

def replaceRecord (records : List FranchiseAuthDTO) (authDto : FranchiseAuthDTO) : List FranchiseAuthDTO :=
  records.map fun record => if record.id = authDto.id then authDto else record

theorem findRecord_replaceRecord {records : List FranchiseAuthDTO} {id : String} {found authDto : FranchiseAuthDTO}
    (hfound : findRecord records id = some found) (hid : authDto.id = id) :
    findRecord (replaceRecord records authDto) id = some authDto := by
  unfold findRecord replaceRecord at *
  induction records with
  | nil => cases hfound
  | cons record records ih =>
    rw [List.map_cons]
    by_cases hrecord : record.id = id
    · rw [if_pos (hrecord.trans hid.symm), List.find?_cons_of_pos (by simpa using hid)]
    · rw [List.find?_cons_of_neg (by simpa using hrecord)] at hfound
      rw [if_neg (fun he => hrecord (he.trans hid)), List.find?_cons_of_neg (by simpa using hrecord)]
      exact ih hfound

/-- A repository in memory. -/
def tableService : AuthService (List FranchiseAuthDTO) where
  AuthRepository _ := .ok ()
  selectOne records id := .ok (findRecord records id)
  updateEntity records authDto := .ok (replaceRecord records authDto)

theorem tableService_stores : tableService.Stores where
  opens _ := rfl
  update records id authDto h prk puk := by
    have hfound : findRecord records id = some authDto := Except.ok.inj h
    have hid : authDto.id = id := by
      unfold findRecord at hfound
      simpa using List.find?_some hfound
    exact ⟨_, rfl, congrArg Except.ok (findRecord_replaceRecord hfound hid)⟩

end MoaCrypto.CoreAuth
