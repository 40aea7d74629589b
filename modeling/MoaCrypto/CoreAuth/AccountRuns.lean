import MoaCrypto.CoreAuth.Accounts

/-!
# The flows over a run

The flows are to keep a password for each id (`Flow.spec`): a registration sets that of a new id, a
login is good with it, a removal takes it away.  Every run over a database file refines this, as long
as the record of a registration gets a line of its own (`accounts_refine`).  A password change is no
change, also where it reports success: its specification keeps the old password.
-/

namespace MoaCrypto.AuthDB

open Java CoreAuth StepRun

/-! ## What the flows are for -/

abbrev Accounts := String → Option String

/-- The passwords after a pass, and how the pass ends. -/
def Flow.spec (m : Accounts) : Flow → Accounts × Ended
  | .regist idStr passwordStr _ _ =>
    if (m idStr).isSome then (m, .failure) else (Function.update m idStr (some passwordStr), .success)
  | .logIn idStr passwordStr _ => (m, if m idStr = some passwordStr then .success else .failure)
  | .changePsw idStr currentPswStr _ _ =>
    (m, match m idStr with
      | none => .thrown
      | some passwordStr => if currentPswStr = passwordStr then .success else .failure)
  | .unRegist idStr _ =>
    if idStr = "" then (m, .failure)
    else (Function.update m idStr none, if (m idStr).isSome then .success else .failure)

def Flow.accounts (m : Accounts) (flow : Flow) : Accounts := (flow.spec m).1

def Flow.answer (m : Accounts) (flow : Flow) : Ended := (flow.spec m).2

/-- The pass is given texts that its messages and records can carry, and a record that it adds gets a
line of its own. -/
def Flow.Regular (kind : Kind) (os : OS) (file : Option String) : Flow → Prop
  | .regist idStr _ salt date => IsField idStr ∧ salt ≠ [] ∧ IsField date ∧
    (search kind file idStr = some (some "0x6011") → ∀ text, file = some text → os.place text = .ownLine)
  | .logIn idStr _ nonce => idStr ≠ "" ∧ nonce ≠ []
  | .changePsw idStr _ _ randomBytes => idStr ≠ "" ∧ randomBytes ≠ []
  | .unRegist _ randomBytes => randomBytes ≠ []

variable {cr : Crypto} {kind : Kind}

/-- The entry has been made of the password, under some salt. -/
def Stores (cr : Crypto) (e : Entry kind) (password : String) : Prop :=
  ∃ salt : List UInt8, salt ≠ [] ∧ e.saltBase64.text = cr.toBase64String salt ∧
    coreIdPswRegistAuthInfoGen cr (cr.toBase64String salt)
      (ClientMessage.hashBase64 cr e.id.text password) (ClientMessage.hmacBase64 cr e.id.text password) =
      some e.cipheredPswBase64.text

/-- The entries have the passwords. -/
def Match (cr : Crypto) (es : List (Entry kind)) (m : Accounts) : Prop :=
  ∀ idStr, (lookup es idStr = none ∧ m idStr = none) ∨
    ∃ e password, lookup es idStr = some e ∧ m idStr = some password ∧ Stores cr e password

/-- The lines of the file are records with the passwords. -/
def Holds (cr : Crypto) (kind : Kind) (file : Option String) (m : Accounts) : Prop :=
  ∃ (text : String) (es : List (Entry kind)), file = some text ∧
    readLines text = es.map Entry.record ∧ Match cr es m

theorem Match.isSome_eq {es : List (Entry kind)} {m : Accounts} (h : Match cr es m) (idStr : String) :
    (lookup es idStr).isSome = (m idStr).isSome := by
  rcases h idStr with ⟨hlookup, hnone⟩ | ⟨e, password, hlookup, hsome, -⟩
  · rw [hlookup, hnone]
    rfl
  · rw [hlookup, hsome]
    rfl

/-! ## Files of records -/

section

variable {text : String} {es : List (Entry kind)} (hlines : readLines text = es.map Entry.record)
include hlines

theorem search_lines (idStr : String) : search kind (some text) idStr =
    some (some (if (lookup es idStr).isSome then "0x6010" else "0x6011")) := by
  cases kind <;> simp [search, franchiseAuthDBSearchProcess, ManagerAuthDBSearchProcess, searchProcess,
    hlines, findRow_records]

theorem get_lines (codec : Codec cr) (idStr : String) :
    get cr kind (some text) (ClientMessage.idBase64 cr idStr) =
      some ((lookup es idStr).map Entry.stored) := by
  -- a lookup sees the lines only, and these are those of the records printed one after the other
  have hprinted : readLines (printLines "\n" (es.map Entry.record)) = readLines text := by
    rw [readLines_printed (Or.inl rfl) (records_isLine es), hlines]
  have hrecords : Represents .other .atLineStart (some (printLines "\n" (es.map Entry.record))) es := rfl
  rw [← (agrees_of_represents codec hrecords).get idStr, ClientMessage.idBase64]
  cases kind <;> simp only [get, franchiseAuthDBGetProcess, ManagerAuthDBGetProcess, getProcess, hprinted]

theorem remove_lines (os : OS) (idStr : String) : ∃ after, readLines after =
      (es.filter fun e => e.id.text ≠ idStr).map Entry.record ∧
    remove kind os (some text) idStr =
      (some after, some (if (lookup es idStr).isSome then "0x6050" else "0x6051")) := by
  have hloop : removeLoop kind idStr (es.map Entry.record) =
      some ((es.filter fun e => e.id.text ≠ idStr).map Entry.record, (lookup es idStr).isSome) := by
    clear hlines
    induction es with
    | nil => rfl
    | cons e es ih =>
      rw [List.map_cons, removeLoop, e.nextTokens_record, ih]
      by_cases h : e.id.text = idStr
      · simp [Entry.row, lookup, h]
      · simp [Entry.row, lookup, h]
  refine ⟨printLines os.lineSeparator ((es.filter fun e => e.id.text ≠ idStr).map Entry.record), ?_, ?_⟩
  · exact readLines_printed (lineSeparator_eq os) (records_isLine _)
  · rw [remove_id]
    simp only [removeRecordProcess, hlines, hloop]

end

/-! ## A record of a registration -/

/-- The level of the flow, as a field of its messages. -/
def levelField : Kind → Option MsgField
  | .franchise => none
  | .manager => some ⟨moaGeneralManager, by decide, by decide⟩

theorem levelField_text (kind : Kind) : (levelField kind).map MsgField.text = managerLevelInfoStr kind := by
  cases kind <;> rfl

theorem IsField.ne {s : String} (h : IsField s) : s ≠ "" := h.1

theorem IsField.separator {s : String} (h : IsField s) : '$' ∉ s.toList := h.2.1

theorem IsField.line {s : String} (h : IsField s) : IsLine s := h.2.2

def levelOfRecord : Kind → Option Field
  | .franchise => none
  | .manager => some ⟨moaGeneralManager, by decide, by decide, by decide⟩

theorem levelOfRecord_isSome (kind : Kind) : (levelOfRecord kind).isSome = (kind == .manager) := by
  cases kind <;> rfl

def accountEntry (kind : Kind) {idStr salt ciphered date : String} (hid : IsField idStr)
    (hsalt : IsField salt) (hciphered : IsField ciphered) (hdate : IsField date) : Entry kind where
  level := levelOfRecord kind
  id := ⟨idStr, hid.ne, hid.separator, hid.line⟩
  saltBase64 := ⟨salt, hsalt.ne, hsalt.separator, hsalt.line⟩
  cipheredPswBase64 := ⟨ciphered, hciphered.ne, hciphered.separator, hciphered.line⟩
  authFailCount := 0
  lastModifiedDatetime := ⟨date, hdate.ne, hdate.separator, hdate.line⟩
  level_isSome := levelOfRecord_isSome kind

theorem accountEntry_record {idStr salt ciphered date : String} (hid : IsField idStr)
    (hsalt : IsField salt) (hciphered : IsField ciphered) (hdate : IsField date) :
    (accountEntry kind hid hsalt hciphered hdate).record = match kind with
      | .franchise => franchiseAuthDBAddProcess idStr salt ciphered 0 date
      | .manager => ManagerAuthDBAddProcess moaGeneralManager idStr salt ciphered 0 date := by
  cases kind <;> rfl

/-- What a lookup gives is taken apart into the fields of the entry. -/
theorem saltAndCiphered_stored (e : Entry kind) : saltAndCiphered kind e.stored =
    some (e.level.map Field.text, e.saltBase64.text, e.cipheredPswBase64.text) := by
  have hlevel := e.level_isSome
  unfold saltAndCiphered Entry.stored
  cases hl : e.level with
  | none =>
    rw [hl] at hlevel
    cases kind with
    | franchise => simp [tokens_join, Field.tokens]
    | manager => cases hlevel
  | some level =>
    rw [hl] at hlevel
    cases kind with
    | franchise => cases hlevel
    | manager => simp [tokens_join, Field.tokens]

/-! ## One pass of each flow -/

section

variable (codec : Codec cr) (ideal : IdealDigests cr)
include codec ideal

theorem idExist_holds {file : Option String} {m : Accounts} (hholds : Holds cr kind file m) {idStr : String}
    (hid : idStr ≠ "") {randomBytes : List UInt8} (hrandom : randomBytes ≠ []) :
    idExist cr kind randomBytes file idStr = some (m idStr).isSome := by
  obtain ⟨text, es, rfl, hlines, hmatch⟩ := hholds
  have hparsed : coreAuthServerMsgPacketParser cr randomBytes
      (coreIdExistRegistRequestMsgGenProcess cr idStr) none = some (some idStr) := by
    obtain ⟨values, hvalues, hparsed⟩ :=
      ClientMessage.parsed codec ideal (.idExist idStr) hid hrandom none
    obtain rfl := Option.some.inj hvalues
    exact hparsed
  have hack : coreAuthClientMsgPacketParser (coreIdExistAckMsgGenProcess "0x6011") =
      some (some "0x6011") :=
    (ServerMessage.idExistAck ⟨"0x6011", by decide, by decide⟩).parsed
  unfold idExist
  simp only [hparsed, Option.join_some, Option.bind_eq_bind, Option.bind_some, search_lines hlines]
  rw [hmatch.isSome_eq]
  cases hm : (m idStr).isSome with
  | true => simp
  | false => simp [hack]

/-- The record of a registration is an entry of the id and its password. -/
theorem registRecord_eq (hbase64 : ∀ bytes, IsLine (cr.toBase64String bytes)) {idStr date : String}
    (hid : IsField idStr) (hdate : IsField date) {salt : List UInt8} (hsalt : salt ≠ [])
    (passwordStr : String) : ∃ e : Entry kind, e.id.text = idStr ∧ Stores cr e passwordStr ∧
      registRecord cr kind salt date idStr passwordStr = some e.record := by
  obtain ⟨ciphered, hciphered, htoken⟩ := ClientMessage.exists_ciphered codec ideal hsalt idStr passwordStr
  obtain ⟨_, _, _, _, _, _, _, _, digest, rfl, _⟩ := authInfoGen_eq_some hciphered
  have hfield (bytes : List UInt8) (hne : cr.toBase64String bytes ≠ "") :
      IsField (cr.toBase64String bytes) := ⟨hne, codec.base64 bytes, hbase64 bytes⟩
  have hcipheredField : IsField (cr.toBase64String digest) := by
    apply hfield
    intro hempty
    rw [hempty] at htoken
    cases htoken
  have hsaltField := hfield salt (codec.base64_ne salt hsalt)
  have hnamed : (ClientMessage.regist (levelField kind) idStr passwordStr).Named := hid.1
  obtain ⟨values, hvalues, hparsed⟩ := ClientMessage.parsed codec ideal _ hnamed hsalt none
  have hread := ClientMessage.read_joined codec ideal _ hnamed hsalt hvalues
  rw [ClientMessage.values, hciphered, Option.map_some] at hvalues
  obtain rfl := Option.some.inj hvalues
  rw [ClientMessage.read, levelField_text] at hread
  rw [ClientMessage.text, levelField_text] at hparsed
  refine ⟨accountEntry kind hid hsaltField hcipheredField hdate, rfl, ⟨salt, hsalt, rfl, hciphered⟩, ?_⟩
  unfold registRecord
  simp only [hparsed, Option.join_some, Option.bind_eq_bind, Option.bind_some, hread]
  cases kind with
  | franchise =>
    simp [managerLevelInfoStr, ClientMessage.idBase64, codec.decode, codec.newString, accountEntry_record]
  | manager =>
    simp [managerLevelInfoStr, ClientMessage.idBase64, codec.decode, codec.newString, accountEntry_record]

/-- A registration adds an id that is not there, and no other. -/
theorem regist_holds (hbase64 : ∀ bytes, IsLine (cr.toBase64String bytes)) {os : OS}
    {file : Option String} {m : Accounts} (hholds : Holds cr kind file m) {idStr date : String}
    {salt : List UInt8} {passwordStr : String}
    (hregular : (Flow.regist idStr passwordStr salt date).Regular kind os file) :
    (regist cr kind os salt date idStr passwordStr file).2 =
        Flow.answer m (.regist idStr passwordStr salt date) ∧
      Holds cr kind (regist cr kind os salt date idStr passwordStr file).1
        (Flow.accounts m (.regist idStr passwordStr salt date)) := by
  obtain ⟨hid, hsalt, hdate, hplace⟩ := hregular
  have hexist := idExist_holds codec ideal hholds hid.1 hsalt
  cases hm : m idStr with
  | some password =>
    rw [hm, Option.isSome_some] at hexist
    unfold regist
    simp only [hexist, Flow.answer, Flow.accounts, Flow.spec, hm, Option.isSome_some, if_true]
    exact ⟨trivial, hholds⟩
  | none =>
    obtain ⟨e, rfl, hstores, hrecord⟩ : ∃ e : Entry kind, e.id.text = idStr ∧ Stores cr e passwordStr ∧
        registRecord cr kind salt date idStr passwordStr = some e.record :=
      registRecord_eq codec ideal hbase64 hid hdate hsalt passwordStr
    rw [hm, Option.isSome_none] at hexist
    obtain ⟨text, es, rfl, hlines, hmatch⟩ := hholds
    have habsent : lookup es e.id.text = none := by
      rw [← Option.isNone_iff_eq_none, ← Option.not_isSome, hmatch.isSome_eq, hm]
      rfl
    have hown : os.place text = .ownLine := by
      refine hplace ?_ text rfl
      rw [search_lines hlines, habsent]
      rfl
    have hresponse : coreAuthClientMsgPacketParser
        (coreIdPswRegistResponseMsgGenProcess "0x6020" (kind = .manager)) = some (some "0x6020") :=
      (ServerMessage.registResponse ⟨"0x6020", by decide, by decide⟩ (kind = .manager)).parsed
    have hpass : regist cr kind os salt date e.id.text passwordStr (some text) =
        (some (text ++ os.recordStart ++ e.record), .success) := by
      unfold regist
      simp only [hexist, hrecord, storage_record, fileStorageProcess]
      simp [hresponse]
    rw [hpass]
    simp only [Flow.answer, Flow.accounts, Flow.spec, hm, Option.isSome_none, Bool.false_eq_true, if_false]
    refine ⟨trivial, _, es ++ [e], rfl, ?_, ?_⟩
    · rw [place_ownLine e.record_isLine e.record_ne hown, hlines, List.map_append]
      rfl
    · intro idStr
      rw [lookup_add habsent]
      by_cases hother : idStr = e.id.text
      · subst hother
        exact Or.inr ⟨e, passwordStr, by simp, by simp, hstores⟩
      · rw [Function.update_of_ne hother, Function.update_of_ne hother]
        exact hmatch idStr

/-- A stored value is met by the password that it has been made of, and is computed for any other. -/
theorem authInfoGen_stores {e : Entry kind} {password : String} (hstores : Stores cr e password)
    (password' : String) : ∃ ciphered, coreIdPswLogInAuthInfoGen cr e.saltBase64.text
        (ClientMessage.hashBase64 cr e.id.text password') (ClientMessage.hmacBase64 cr e.id.text password') =
        some ciphered ∧ (ciphered = e.cipheredPswBase64.text ↔ password' = password) := by
  obtain ⟨salt, hsalt, hsaltText, hciphered⟩ := hstores
  obtain ⟨ciphered, hciphered', -⟩ := ClientMessage.exists_ciphered codec ideal hsalt e.id.text password'
  rw [hsaltText]
  refine ⟨ciphered, hciphered', ?_⟩
  have hiff := authInfoGen_request_iff codec ideal hciphered e.id.text password'
  rw [show coreIdPswLogInAuthInfoGen cr (cr.toBase64String salt) _ _ = some ciphered from hciphered',
    Option.some.injEq] at hiff
  simpa using hiff

omit codec ideal in
/-- The response to a good login is read as a success. -/
theorem logInResponse_eq (e : Entry kind) :
    logInResponse kind "0x6030" (e.level.map Field.text) = some .success := by
  have hlevel := e.level_isSome
  unfold logInResponse
  cases hl : e.level with
  | none =>
    rw [hl] at hlevel
    cases kind with
    | franchise => rfl
    | manager => cases hlevel
  | some level =>
    rw [hl] at hlevel
    cases kind with
    | franchise => cases hlevel
    | manager =>
      have hparsed := (ServerMessage.logInResponse ⟨"0x6030", by decide, by decide⟩
        ⟨"0x6040", by decide, by decide⟩ (some ⟨level.text, level.ne, level.separator⟩)).parsed
      have hread := (ServerMessage.logInResponse ⟨"0x6030", by decide, by decide⟩
        ⟨"0x6040", by decide, by decide⟩ (some ⟨level.text, level.ne, level.separator⟩)).read_joined
      simp only [ServerMessage.text, Option.map_some] at hparsed
      simp only [ServerMessage.read] at hread
      simp only [Option.map_some, hparsed, Option.join_some, Option.bind_eq_bind, Option.bind_some, hread]
      simp [ServerMessage.values]

theorem logIn_holds {file : Option String} {m : Accounts} (hholds : Holds cr kind file m)
    {idStr passwordStr : String} {nonce : List UInt8} (hid : idStr ≠ "") (hnonce : nonce ≠ []) :
    logIn cr kind nonce file idStr passwordStr = Flow.answer m (.logIn idStr passwordStr nonce) := by
  obtain ⟨text, es, rfl, hlines, hmatch⟩ := hholds
  have hstart : coreAuthServerMsgPacketParser cr nonce coreIdPswLogInStartRequestMsgGenProcess none =
      some (some (cr.toBase64String nonce)) := by
    obtain ⟨values, hvalues, hparsed⟩ :=
      ClientMessage.parsed codec ideal .logInStart trivial hnonce none
    obtain rfl := Option.some.inj hvalues
    exact hparsed
  have hresponse : coreAuthClientMsgPacketParser
      (coreIdPswLoginStartResponseMsgGenProcess (cr.toBase64String nonce)) =
      some (some (cr.toBase64String nonce)) :=
    (ServerMessage.logInStartResponse
      ⟨cr.toBase64String nonce, codec.base64_ne nonce hnonce, codec.base64 nonce⟩).parsed
  have hnamed : (ClientMessage.logIn idStr passwordStr ⟨cr.toBase64String nonce,
      codec.base64_ne nonce hnonce, codec.base64 nonce⟩ (kind = .manager)).Named := hid
  obtain ⟨values, hvalues, hparsed⟩ :=
    ClientMessage.parsed codec ideal _ hnamed hnonce (some (cr.toBase64String nonce))
  have hread := ClientMessage.read_joined codec ideal _ hnamed hnonce hvalues
  rw [ClientMessage.values, if_pos rfl] at hvalues
  obtain rfl := Option.some.inj hvalues
  rw [ClientMessage.read] at hread
  rw [ClientMessage.text] at hparsed
  unfold logIn logInPass
  simp only [hstart, hresponse, hparsed, hread, Option.join_some, Option.bind_eq_bind, Option.bind_some,
    get_lines hlines codec]
  rcases hmatch idStr with ⟨hlookup, hnone⟩ | ⟨e, password, hlookup, hsome, hstores⟩
  · simp [hlookup, Flow.answer, Flow.spec, hnone]
  · obtain rfl := id_of_lookup hlookup
    obtain ⟨ciphered, hciphered, hiff⟩ := authInfoGen_stores codec ideal hstores passwordStr
    simp only [hlookup, Option.map_some, saltAndCiphered_stored, Option.bind_some, hciphered,
      Flow.answer, Flow.spec, hsome, Option.some.injEq]
    by_cases hsame : passwordStr = password
    · have hmet : ciphered = e.cipheredPswBase64.text := hiff.mpr hsame
      simp [hmet, hsame, logInResponse_eq]
    · have hmissed : ¬ ciphered = e.cipheredPswBase64.text := fun he => hsame (hiff.mp he)
      simp [hmissed, Ne.symm hsame]

/-- A change reports what it has checked, and changes nothing. -/
theorem changePsw_holds {file : Option String} {m : Accounts} (hholds : Holds cr kind file m)
    {idStr currentPswStr changePswStr : String} {randomBytes : List UInt8} (hid : idStr ≠ "")
    (hrandom : randomBytes ≠ []) :
    changePsw cr kind randomBytes file idStr currentPswStr changePswStr =
      Flow.answer m (.changePsw idStr currentPswStr changePswStr randomBytes) := by
  obtain ⟨text, es, rfl, hlines, hmatch⟩ := hholds
  have hnamed : (ClientMessage.changePsw idStr currentPswStr changePswStr).Named := hid
  obtain ⟨values, hvalues, hparsed⟩ := ClientMessage.parsed codec ideal _ hnamed hrandom none
  have hread := ClientMessage.read_joined codec ideal _ hnamed hrandom hvalues
  obtain rfl := Option.some.inj hvalues
  rw [ClientMessage.read] at hread
  rw [ClientMessage.text] at hparsed
  have hgood : coreAuthClientMsgPacketParser (coreIdPswChangePswResponseMsgGenProcess "0x6060" "0x06070") =
      some (some "0x6060$0x06070") := by decide
  have hgoodTokens : tokens '$' "0x6060$0x06070" = ["0x6060", "0x06070"] := by decide
  have hbad : coreAuthClientMsgPacketParser (coreIdPswChangePswResponseMsgGenProcess "0x6061" "0x06071") =
      some (some "0x6061$0x06071") := by decide
  have hbadTokens : tokens '$' "0x6061$0x06071" = ["0x6061", "0x06071"] := by decide
  unfold changePsw changePswPass
  simp only [hparsed, hread, Option.join_some, Option.bind_eq_bind, Option.bind_some,
    get_lines hlines codec]
  rcases hmatch idStr with ⟨hlookup, hnone⟩ | ⟨e, password, hlookup, hsome, hstores⟩
  · simp [hlookup, Flow.answer, Flow.spec, hnone]
  · obtain rfl := id_of_lookup hlookup
    obtain ⟨ciphered, hciphered, hiff⟩ := authInfoGen_stores codec ideal hstores currentPswStr
    obtain ⟨newCiphered, hnewCiphered, -⟩ := authInfoGen_stores codec ideal hstores changePswStr
    simp only [hlookup, Option.map_some, saltAndCiphered_stored, Option.bind_some, hciphered,
      hnewCiphered, Flow.answer, Flow.spec, hsome]
    by_cases hsame : currentPswStr = password
    · have hmet : ciphered = e.cipheredPswBase64.text := hiff.mpr hsame
      simp [hmet, hsame, hgood, hgoodTokens]
    · have hmissed : ¬ ciphered = e.cipheredPswBase64.text := fun he => hsame (hiff.mp he)
      simp [hmissed, hsame, hbad, hbadTokens]

theorem unRegist_holds {os : OS} {file : Option String} {m : Accounts} (hholds : Holds cr kind file m)
    {idStr : String} {randomBytes : List UInt8} (hrandom : randomBytes ≠ []) :
    (unRegist cr kind os randomBytes idStr file).2 = Flow.answer m (.unRegist idStr randomBytes) ∧
      Holds cr kind (unRegist cr kind os randomBytes idStr file).1 (Flow.accounts m (.unRegist idStr randomBytes)) := by
  by_cases hid : idStr = ""
  · simp only [unRegist, Flow.answer, Flow.accounts, Flow.spec, hid, if_true]
    exact ⟨trivial, hholds⟩
  · obtain ⟨text, es, rfl, hlines, hmatch⟩ := hholds
    have hparsed : coreAuthServerMsgPacketParser cr randomBytes
        (coreIdPswUnRegistRequestMsgGenProcess cr idStr) none = some (some idStr) := by
      obtain ⟨values, hvalues, hparsed⟩ :=
        ClientMessage.parsed codec ideal (.unRegist idStr) hid hrandom none
      obtain rfl := Option.some.inj hvalues
      exact hparsed
    obtain ⟨after, hafter, hremove⟩ := remove_lines hlines os idStr
    have hpass : unRegist cr kind os randomBytes idStr (some text) =
        (some after, if (lookup es idStr).isSome then .success else .failure) := by
      unfold unRegist
      simp only [hid, if_false, hparsed, Option.join_some, hremove]
      cases (lookup es idStr).isSome
      · rfl
      · rfl
    rw [hpass]
    simp only [Flow.answer, Flow.accounts, Flow.spec, hid, if_false, hmatch.isSome_eq]
    refine ⟨trivial, after, _, rfl, hafter, fun other => ?_⟩
    rw [lookup_remove]
    by_cases hother : other = idStr
    · subst hother
      exact Or.inl ⟨by simp, by simp⟩
    · rw [Function.update_of_ne hother, Function.update_of_ne hother]
      exact hmatch other

/-- **Step.**  A pass ends as it is to, and the file holds the passwords after it. -/
theorem flow_holds (hbase64 : ∀ bytes, IsLine (cr.toBase64String bytes)) {os : OS} {file : Option String}
    {m : Accounts} (hholds : Holds cr kind file m) {flow : Flow} (hregular : flow.Regular kind os file) :
    flow.ended cr kind os file = flow.answer m ∧
      Holds cr kind (flow.file cr kind os file) (flow.accounts m) := by
  simp only [Flow.ended, Flow.file]
  cases flow with
  | regist idStr passwordStr salt date =>
    simp only [Flow.pass]
    exact regist_holds codec ideal hbase64 hholds hregular
  | logIn idStr passwordStr nonce =>
    simp only [Flow.pass]
    exact ⟨logIn_holds codec ideal hholds hregular.1 hregular.2, hholds⟩
  | changePsw idStr currentPswStr changePswStr randomBytes =>
    simp only [Flow.pass]
    exact ⟨changePsw_holds codec ideal hholds hregular.1 hregular.2, hholds⟩
  | unRegist idStr randomBytes =>
    simp only [Flow.pass]
    exact unRegist_holds codec ideal hholds hregular

end

/-! ## Runs -/

/-- A franchise's day, with a password change that reports success. -/
def annsFlows : List Flow :=
  [.logIn "ann" "pw" [7], .regist "ann" "pw" [2] "2019-06-19", .logIn "ann" "pw" [8],
    .changePsw "ann" "pw" "new" [1], .logIn "ann" "new" [9], .logIn "ann" "pw" [10],
    .unRegist "ann" [1], .logIn "ann" "pw" [11]]

theorem holds_empty (cr : Crypto) (kind : Kind) : Holds cr kind (some "") fun _ => none :=
  ⟨"", [], rfl, readLines_empty, fun _ => Or.inl ⟨rfl, rfl⟩⟩

theorem wireCrypto_isLine (bytes : List UInt8) : IsLine (wireCrypto.toBase64String bytes) :=
  ⟨Java.Base64.not_mem_encode (by decide) bytes, Java.Base64.not_mem_encode (by decide) bytes⟩

theorem annsRegist_regular : (Flow.regist "ann" "pw" [2] "2019-06-19").Regular .franchise .other (some "") := by
  refine ⟨by decide, by decide, by decide, fun _ => ?_⟩
  rintro text ⟨rfl⟩
  decide

/-- A password stays until its id is removed. -/
theorem accounts_kept {m : Accounts} {idStr password : String} (hm : m idStr = some password)
    {flows : List Flow} (hkept : ∀ randomBytes, Flow.unRegist idStr randomBytes ∉ flows) :
    run Flow.accounts m flows idStr = some password := by
  induction flows generalizing m with
  | nil => exact hm
  | cons flow flows ih =>
    refine ih ?_ fun randomBytes hmem => hkept randomBytes (List.mem_cons_of_mem _ hmem)
    cases flow with
    | regist other passwordStr salt date =>
      rw [Flow.accounts, Flow.spec]
      by_cases hpresent : (m other).isSome
      · rwa [if_pos hpresent]
      · rw [if_neg hpresent]
        have hne : idStr ≠ other := by
          rintro rfl
          rw [hm] at hpresent
          exact hpresent rfl
        exact (Function.update_of_ne hne _ _).trans hm
    | logIn other passwordStr nonce => exact hm
    | changePsw other currentPswStr changePswStr randomBytes => exact hm
    | unRegist other randomBytes =>
      rw [Flow.accounts, Flow.spec]
      by_cases hempty : other = ""
      · rwa [if_pos hempty]
      · rw [if_neg hempty]
        have hne : idStr ≠ other := by
          rintro rfl
          exact hkept randomBytes List.mem_cons_self
        exact (Function.update_of_ne hne _ _).trans hm

/-- **The old password stays.**  Once a password change has reported success, the id logs in with the
password that it was to replace, and with no other, until it is removed. -/
theorem old_password_stays (cr : Crypto) (codec : Codec cr) (ideal : IdealDigests cr)
    (hbase64 : ∀ bytes, IsLine (cr.toBase64String bytes)) (kind : Kind) (os : OS) (file : Option String)
    (m : Accounts) (hholds : Holds cr kind file m) (before after : List Flow)
    (idStr currentPswStr changePswStr passwordStr : String) (randomBytes nonce : List UInt8)
    (hregular : Along (Flow.file cr kind os) (Flow.Regular kind os) file
      (before ++ .changePsw idStr currentPswStr changePswStr randomBytes ::
        (after ++ [.logIn idStr passwordStr nonce])))
    (hchanged : (Flow.changePsw idStr currentPswStr changePswStr randomBytes).ended cr kind os
      (run (Flow.file cr kind os) file before) = .success)
    (hkept : ∀ randomBytes, Flow.unRegist idStr randomBytes ∉ after) :
    (Flow.logIn idStr passwordStr nonce).ended cr kind os
        (run (Flow.file cr kind os) file
          (before ++ .changePsw idStr currentPswStr changePswStr randomBytes :: after)) =
      if passwordStr = currentPswStr then .success else .failure := by
  have hstep (file : Option String) (m : Accounts) (flow : Flow) (hholds : Holds cr kind file m)
      (hregular : flow.Regular kind os file) := flow_holds codec ideal hbase64 hholds hregular
  obtain ⟨hbefore, hrest⟩ := (along_append _ _ _ before _).mp hregular
  obtain ⟨hchange, hrest⟩ := hrest
  obtain ⟨hafter, hlogin, -⟩ := (along_append _ _ _ after _).mp hrest
  have hmid := (simulation hstep hholds hbefore).2
  obtain ⟨hanswer, hnext⟩ := hstep _ _ _ hmid hchange
  have hend := (simulation hstep hnext hafter).2
  -- the change was good, so the password was the current one
  have hcurrent : run Flow.accounts m before idStr = some currentPswStr := by
    rw [hchanged, Flow.answer, Flow.spec] at hanswer
    cases hm : run Flow.accounts m before idStr with
    | none =>
      simp only [hm] at hanswer
      cases hanswer
    | some password =>
      simp only [hm] at hanswer
      split at hanswer
      next hsame => rw [hsame]
      next => cases hanswer
  have hstays := accounts_kept hcurrent hkept
  rw [run_append, run_cons, (hstep _ _ _ hend hlogin).1, Flow.answer, Flow.spec]
  show (if run Flow.accounts (run Flow.accounts m before) after idStr = some passwordStr then _ else _) = _
  rw [hstays]
  simp only [Option.some.injEq, eq_comm]

theorem old_password_stays_ann :
    (Flow.logIn "ann" "pw" [10]).ended wireCrypto .franchise .other
        (run (Flow.file wireCrypto .franchise .other) (some "")
          ([.regist "ann" "pw" [2] "2019-06-19"] ++ .changePsw "ann" "pw" "new" [1] :: [])) =
      .success := by
  have hregistered := (flow_holds wireCrypto_codec wireCrypto_ideal wireCrypto_isLine
    (holds_empty wireCrypto .franchise) annsRegist_regular).2
  have hchange : (Flow.changePsw "ann" "pw" "new" [1]).Regular .franchise .other
      ((Flow.regist "ann" "pw" [2] "2019-06-19").file wireCrypto .franchise .other (some "")) :=
    ⟨by decide, by decide⟩
  have hchanged := (flow_holds wireCrypto_codec wireCrypto_ideal wireCrypto_isLine hregistered hchange).1
  have hanswer : (Flow.changePsw "ann" "pw" "new" [1]).answer
      ((Flow.regist "ann" "pw" [2] "2019-06-19").accounts fun _ => none) = .success := by decide +kernel
  have hstays := old_password_stays wireCrypto wireCrypto_codec wireCrypto_ideal wireCrypto_isLine
    .franchise .other (some "") (fun _ => none) (holds_empty _ _) [.regist "ann" "pw" [2] "2019-06-19"] []
    "ann" "pw" "new" "pw" [1] [10]
    ⟨annsRegist_regular, hchange, ⟨by decide, by decide⟩, trivial⟩ (hchanged.trans hanswer)
    fun _ hmem => absurd hmem List.not_mem_nil
  exact hstays.trans (if_pos rfl)

end MoaCrypto.AuthDB
