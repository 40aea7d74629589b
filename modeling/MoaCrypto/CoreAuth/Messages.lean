import MoaCrypto.CoreAuth.Network

/-!
# Agreement of client and server on the messages

Every message is generated on one side and parsed on the other.  `ClientMessage` and
`ServerMessage` list the kinds with what their generators are given; `values` is what the receiving
flow is to read, in its order, and `read` how the flow takes it from the parser's text.  A value
stored at registration is met by the requests of the same id and password only
(`message_agreement`).
-/

namespace MoaCrypto.CoreAuth

open Java

/-- A text that can stand between separators. -/
structure MsgField where
  text : String
  ne : text ≠ ""
  separator : '$' ∉ text.toList

theorem MsgField.tokens (f : MsgField) : tokens '$' f.text = [f.text] := by
  rw [tokens_of_not_mem f.separator, if_neg f.ne]

/-- Fields with a separator in between. -/
def joined : List String → String
  | [] => ""
  | [field] => field
  | field :: fields => field ++ "$" ++ joined fields

theorem tokens_joined {fields : List String} (h : ∀ field ∈ fields, tokens '$' field = [field]) :
    tokens '$' (joined fields) = fields := by
  induction fields with
  | nil => rfl
  | cons field fields ih =>
    have hfield := h field List.mem_cons_self
    have hfields := ih fun f hf => h f (List.mem_cons_of_mem _ hf)
    cases fields with
    | nil => exact hfield
    | cons next rest =>
      rw [joined, tokens_join, hfield, hfields]
      · rfl
      · exact List.cons_ne_nil _ _

/-! ## The kinds of messages -/

inductive ClientMessage
  | idExist (id : String)
  | regist (managerLevel : Option MsgField) (id password : String)
  | logInStart
  | logIn (id password : String) (nonce : MsgField) (manager : Bool)
  | changePsw (id existPsw newPsw : String)
  | unRegist (id : String)

namespace ClientMessage

variable (cr : Crypto)

def text : ClientMessage → String
  | idExist id => coreIdExistRegistRequestMsgGenProcess cr id
  | regist level id password =>
    coreIdPswRegistRequestMsgGenProcess cr (level.map MsgField.text) id password
  | logInStart => coreIdPswLogInStartRequestMsgGenProcess
  | logIn id password nonce manager =>
    coreIdPswLogInRequestMsgGenProcess cr id password nonce.text manager
  | changePsw id existPsw newPsw => coreIdPswChangePswRequestMsgGenProcess cr id existPsw newPsw
  | unRegist id => coreIdPswUnRegistRequestMsgGenProcess cr id

/-- The id of the message is not empty. -/
def Named : ClientMessage → Prop
  | idExist id | regist _ id _ | logIn id _ _ _ | changePsw id _ _ | unRegist id => id ≠ ""
  | logInStart => True

def idBase64 (id : String) : String := cr.toBase64String (utf8 id)
def hashBase64 (id password : String) : String := cr.toBase64String (hashPswBytes cr id password)
def hmacBase64 (id password : String) : String := cr.toBase64String (hmacPswBytes cr id password)

/-- What the server's flow is to read, where `randomBytes` is its next salt or nonce and `nonce` the
one it has issued. -/
def values (randomBytes : List UInt8) (nonce : Option String) : ClientMessage → Option (List String)
  | idExist id | unRegist id => some [id]
  | regist level id password =>
    let salt := cr.toBase64String randomBytes
    (coreIdPswRegistAuthInfoGen cr salt (hashBase64 cr id password) (hmacBase64 cr id password)).map
      fun ciphered => (level.map MsgField.text).toList ++ [idBase64 cr id, salt, ciphered]
  | logInStart => some [cr.toBase64String randomBytes]
  | logIn id password sent _ =>
    if some sent.text = nonce then
      some ["0x6030", idBase64 cr id, hashBase64 cr id password, hmacBase64 cr id password]
    else some ["0x6031", "0000", "0000", "0000"]
  | changePsw id existPsw newPsw =>
    some [idBase64 cr id, hashBase64 cr id existPsw, hmacBase64 cr id existPsw,
      hashBase64 cr id newPsw, hmacBase64 cr id newPsw]

/-- The parser's text as the flow takes it: whole, or token by token. -/
def read (result : String) : ClientMessage → List String
  | idExist _ | unRegist _ | logInStart => [result]
  | regist _ _ _ | logIn _ _ _ _ | changePsw _ _ _ => tokens '$' result

end ClientMessage

inductive ServerMessage
  | idExistAck (code : MsgField)
  | registResponse (code : MsgField) (manager : Bool)
  | logInStartResponse (nonce : MsgField)
  | logInResponse (nonceVerify auth : MsgField) (managerLevel : Option MsgField)
  | changePswResponse (existPswVerify cipheredPswUpdate : MsgField)
  | unRegistResponse (code : MsgField)

namespace ServerMessage

def text : ServerMessage → String
  | idExistAck code => coreIdExistAckMsgGenProcess code.text
  | registResponse code manager => coreIdPswRegistResponseMsgGenProcess code.text manager
  | logInStartResponse nonce => coreIdPswLoginStartResponseMsgGenProcess nonce.text
  | logInResponse nonceVerify auth level =>
    coreIdPswLogInResponseMsgGenProcess nonceVerify.text auth.text (level.map MsgField.text)
  | changePswResponse verify update =>
    coreIdPswChangePswResponseMsgGenProcess verify.text update.text
  | unRegistResponse code => coreIdPswUnRegistResponseMsgGenProcess code.text

/-- What the client's flow is to read. -/
def values : ServerMessage → List String
  | idExistAck code | registResponse code _ | unRegistResponse code => [code.text]
  | logInStartResponse nonce => [nonce.text]
  | logInResponse nonceVerify auth level =>
    [nonceVerify.text, auth.text] ++ (level.map MsgField.text).toList
  | changePswResponse verify update => [verify.text, update.text]

def read (result : String) : ServerMessage → List String
  | idExistAck _ | registResponse _ _ | unRegistResponse _ | logInStartResponse _ => [result]
  | logInResponse _ _ _ | changePswResponse _ _ => tokens '$' result

end ServerMessage

/-! ## The comparison of the server's flows -/

/-- The login flow, with the salt and the value stored for the id. -/
def logInCompares (cr : Crypto) (randomBytes : List UInt8)
    (nonceBase64Str authDBSaltBase64Str authDBCipheredPswBase64Str message : String) : Bool :=
  match coreAuthServerMsgPacketParser cr randomBytes message (some nonceBase64Str) with
  | some (some result) =>
    match tokens '$' result with
    | nonceVerifySFStr :: _ :: hashPsw :: hmacPsw :: _ => nonceVerifySFStr ≠ "0x6031" ∧
      coreIdPswLogInAuthInfoGen cr authDBSaltBase64Str hashPsw hmacPsw = some authDBCipheredPswBase64Str
    | _ => false
  | _ => false

/-- The password-change flow. -/
def changePswCompares (cr : Crypto) (randomBytes : List UInt8)
    (authDBSaltBase64Str authDBCipheredPswBase64Str message : String) : Bool :=
  match coreAuthServerMsgPacketParser cr randomBytes message none with
  | some (some result) =>
    match tokens '$' result with
    | _ :: hashPsw :: hmacPsw :: _ :: _ :: _ =>
      coreIdPswLogInAuthInfoGen cr authDBSaltBase64Str hashPsw hmacPsw = some authDBCipheredPswBase64Str
    | _ => false
  | _ => false

/-- Digests determine what they are made of and are not empty, and the cipher can be inverted. -/
structure IdealDigests (cr : Crypto) : Prop where
  hash : ∀ x y, cr.HashDigest x = cr.HashDigest y → x = y
  cipher : ∀ k x y, cr.SymmetricEncryptData k x = cr.SymmetricEncryptData k y → x = y
  hmac : ∀ x k x' k', cr.HmacDigest x k = cr.HmacDigest x' k' → x = x' ∧ k = k'
  hmac_ne : ∀ x k, cr.HmacDigest x k ≠ []
  strong_ne : ∀ x k, cr.strongHmacDigest x k ≠ []
  strong : StrongInjective cr

/-! ## Tokens -/

/-- The headers of all messages. -/
def headers : List String :=
  [moaCORE_IDExist_STR, moaCORE_IDExistAck_STR, moaCORE_IdPswRegReq_STR, moaCORE_IdPswRegRes_STR,
    moaMANAGER_IdPswRegReq_STR, moaMANAGER_IdPswRegRes_STR, moaCORE_IdPswLogInStartReq_STR,
    moaCORE_IdPswLogInSTartRes_STR, moaCORE_IdPswLogInReq_STR, moaCORE_IdPswLogInRes_STR,
    moaMANAGER_IdPswLogInReq_STR, moaMANAGER_IdPswLogInRes_STR, moaCORE_ChangePswReq_STR,
    moaCORE_ChangePswRes_STR, moaCORE_UnRegistReq_STR, moaCORE_UnRegistRes_STR]

theorem tokens_header {header : String} (h : header ∈ headers) : tokens '$' header = [header] := by
  have hall : ∀ header ∈ headers, tokens '$' header = [header] := by decide
  exact hall header h

theorem toUpperCase_header {header : String} (h : header ∈ headers) : toUpperCase header = header := by
  have hall : ∀ header ∈ headers, toUpperCase header = header := by decide
  exact hall header h

/-- A message is its header and its fields. -/
theorem tokens_message {header : String} (hheader : header ∈ headers) {fields : List String}
    (hfields : ∀ field ∈ fields, tokens '$' field = [field]) :
    tokens '$' (joined (header :: fields)) = header :: fields := by
  refine tokens_joined fun field hmem => ?_
  rcases List.mem_cons.mp hmem with rfl | hmem
  · exact tokens_header hheader
  · exact hfields field hmem

section

variable {cr : Crypto} (codec : Codec cr) (ideal : IdealDigests cr)

include codec in
theorem tokens_base64 {bytes : List UInt8} (h : bytes ≠ []) :
    tokens '$' (cr.toBase64String bytes) = [cr.toBase64String bytes] := by
  rw [tokens_of_not_mem (codec.base64 bytes), if_neg (codec.base64_ne bytes h)]

theorem utf8_ne {s : String} (h : s ≠ "") : utf8 s ≠ [] := by
  intro hnil
  exact h (utf8_injective (hnil.trans rfl))

theorem hashPswBytes_ne (id password : String) : hashPswBytes cr id password ≠ [] := by
  intro h
  have hlen := cr.length_HashDigest
    (cr.SymmetricEncryptData ((cr.HashDigest (utf8 id)).take 16) (utf8 password))
  rw [show cr.HashDigest _ = [] from h, List.length_nil] at hlen
  omega

/-! ## The client's messages at the server -/

namespace ClientMessage

def header : ClientMessage → String
  | idExist _ => moaCORE_IDExist_STR
  | regist level _ _ => if level.isSome then moaMANAGER_IdPswRegReq_STR else moaCORE_IdPswRegReq_STR
  | logInStart => moaCORE_IdPswLogInStartReq_STR
  | logIn _ _ _ manager => if manager then moaMANAGER_IdPswLogInReq_STR else moaCORE_IdPswLogInReq_STR
  | changePsw _ _ _ => moaCORE_ChangePswReq_STR
  | unRegist _ => moaCORE_UnRegistReq_STR

def fields (cr : Crypto) : ClientMessage → List String
  | idExist id | unRegist id => [idBase64 cr id]
  | regist level id password => (level.map MsgField.text).toList ++
      [idBase64 cr id, hashBase64 cr id password, hmacBase64 cr id password]
  | logInStart => []
  | logIn id password nonce _ =>
    [idBase64 cr id, hashBase64 cr id password, hmacBase64 cr id password, nonce.text]
  | changePsw id existPsw newPsw =>
    [idBase64 cr id, hashBase64 cr id existPsw, hmacBase64 cr id existPsw,
      hashBase64 cr id newPsw, hmacBase64 cr id newPsw]

theorem text_eq (m : ClientMessage) : m.text cr = joined (m.header :: m.fields cr) := by
  cases m with
  | idExist id => rfl
  | regist level id password =>
    cases level <;> simp [text, header, fields, joined, coreIdPswRegistRequestMsgGenProcess, idBase64,
      hashBase64, hmacBase64, String.append_assoc]
  | logInStart => rfl
  | logIn id password nonce manager =>
    simp [text, header, fields, joined, coreIdPswLogInRequestMsgGenProcess, idBase64, hashBase64,
      hmacBase64, String.append_assoc]
  | changePsw id existPsw newPsw =>
    simp [text, header, fields, joined, coreIdPswChangePswRequestMsgGenProcess,
      coreIdPswHashPswAndHamcPswGen, idBase64, hashBase64, hmacBase64, String.append_assoc]
  | unRegist id => rfl

theorem header_mem (m : ClientMessage) : m.header ∈ headers := by
  cases m with
  | regist level id password => cases level <;> simp [header, headers]
  | logIn id password nonce manager => cases manager <;> simp [header, headers]
  | _ => simp [header, headers]

include codec ideal in
/-- The digests of a request, and its id, are tokens. -/
theorem tokens_request {id : String} (hid : id ≠ "") (password : String) :
    tokens '$' (idBase64 cr id) = [idBase64 cr id] ∧
      tokens '$' (hashBase64 cr id password) = [hashBase64 cr id password] ∧
      tokens '$' (hmacBase64 cr id password) = [hmacBase64 cr id password] :=
  ⟨tokens_base64 codec (utf8_ne hid), tokens_base64 codec (hashPswBytes_ne id password),
    tokens_base64 codec (ideal.hmac_ne _ _)⟩

include codec ideal in
theorem tokens_fields (m : ClientMessage) (hm : m.Named) :
    ∀ field ∈ m.fields cr, tokens '$' field = [field] := by
  cases m with
  | idExist id => simpa [fields] using (tokens_request codec ideal hm "").1
  | regist level id password =>
    obtain ⟨hid, hhash, hhmac⟩ := tokens_request codec ideal hm password
    cases level with
    | none => simp [fields, hid, hhash, hhmac]
    | some level => simp [fields, hid, hhash, hhmac, level.tokens]
  | logInStart => simp [fields]
  | logIn id password nonce manager =>
    obtain ⟨hid, hhash, hhmac⟩ := tokens_request codec ideal hm password
    simp [fields, hid, hhash, hhmac, nonce.tokens]
  | changePsw id existPsw newPsw =>
    obtain ⟨hid, hhash, hhmac⟩ := tokens_request codec ideal hm existPsw
    obtain ⟨-, hnewHash, hnewHmac⟩ := tokens_request codec ideal hm newPsw
    simp [fields, hid, hhash, hhmac, hnewHash, hnewHmac]
  | unRegist id => simpa [fields] using (tokens_request codec ideal hm "").1

include codec ideal in
theorem tokens_text (m : ClientMessage) (hm : m.Named) :
    tokens '$' (m.text cr) = m.header :: m.fields cr := by
  rw [text_eq]
  exact tokens_message m.header_mem (tokens_fields codec ideal m hm)

include codec ideal in
/-- The stored value exists for every salt, and is a token. -/
theorem exists_ciphered {salt : List UInt8} (hsalt : salt ≠ []) (id password : String) :
    ∃ ciphered, coreIdPswRegistAuthInfoGen cr (cr.toBase64String salt) (hashBase64 cr id password)
      (hmacBase64 cr id password) = some ciphered ∧ tokens '$' ciphered = [ciphered] := by
  obtain ⟨first, rest, rfl⟩ := List.exists_cons_of_ne_nil hsalt
  have hhash : hashPswBytes cr id password ≠ [] := hashPswBytes_ne id password
  have hhmac : hmacPswBytes cr id password ≠ [] := ideal.hmac_ne _ _
  unfold coreIdPswRegistAuthInfoGen authInfoGen hashBase64 hmacBase64
  simp only [codec.decode, Option.bind_eq_bind, Option.bind_some, List.head?_cons]
  split
  · rw [strongHmac, if_neg hhmac]
    exact ⟨_, rfl, tokens_base64 codec (ideal.strong_ne _ _)⟩
  · rw [strongHmac, if_neg hhash]
    exact ⟨_, rfl, tokens_base64 codec (ideal.strong_ne _ _)⟩

include codec ideal in
/-- **Requests.**  The server's parser gives the values of the message, joined. -/
theorem parsed (m : ClientMessage) (hm : m.Named) {randomBytes : List UInt8} (hrandom : randomBytes ≠ [])
    (nonce : Option String) :
    ∃ values, m.values cr randomBytes nonce = some values ∧
      coreAuthServerMsgPacketParser cr randomBytes (m.text cr) nonce = some (some (joined values)) := by
  have htokens := tokens_text codec ideal m hm
  have hupper := toUpperCase_header m.header_mem
  unfold coreAuthServerMsgPacketParser
  rw [htokens]
  simp only [hupper]
  cases m with
  | idExist id =>
    refine ⟨[id], rfl, ?_⟩
    simp [header, fields, parseId, idBase64, codec.decode, codec.newStringUTF8, joined]
  | regist level id password =>
    obtain ⟨ciphered, hciphered, -⟩ := exists_ciphered codec ideal hrandom id password
    refine ⟨_, by rw [values, hciphered, Option.map_some], ?_⟩
    cases level with
    | none =>
      simp [header, fields, parseRegist, hciphered, joined, String.append_assoc, moaCORE_IDExist_STR,
        moaCORE_IdPswRegReq_STR]
    | some level =>
      simp [header, fields, parseRegist, hciphered, joined, String.append_assoc, moaCORE_IDExist_STR,
        moaCORE_IdPswRegReq_STR, moaMANAGER_IdPswRegReq_STR]
  | logInStart =>
    refine ⟨_, rfl, ?_⟩
    simp [header, joined, moaCORE_IDExist_STR, moaCORE_IdPswRegReq_STR,
      moaMANAGER_IdPswRegReq_STR, moaCORE_IdPswLogInStartReq_STR]
  | logIn id password sent manager =>
    have hpasses : parseLogIn (fields cr (logIn id password sent manager)) nonce =
        (values cr randomBytes nonce (logIn id password sent manager)).map fun vs => some (joined vs) := by
      unfold parseLogIn fields values
      by_cases hnonce : some sent.text = nonce
      · simp [hnonce, joined, String.append_assoc]
      · simp [hnonce, joined]
    obtain ⟨vs, hvs⟩ : ∃ vs, values cr randomBytes nonce (logIn id password sent manager) = some vs := by
      rw [values]
      split
      · exact ⟨_, rfl⟩
      · exact ⟨_, rfl⟩
    refine ⟨vs, hvs, ?_⟩
    rw [hpasses, hvs]
    cases manager <;>
      simp [header, moaCORE_IDExist_STR, moaCORE_IdPswRegReq_STR, moaMANAGER_IdPswRegReq_STR,
        moaCORE_IdPswLogInStartReq_STR, moaCORE_IdPswLogInReq_STR, moaMANAGER_IdPswLogInReq_STR]
  | changePsw id existPsw newPsw =>
    refine ⟨_, rfl, ?_⟩
    simp [header, fields, joined, String.append_assoc, moaCORE_IDExist_STR, moaCORE_IdPswRegReq_STR,
      moaMANAGER_IdPswRegReq_STR, moaCORE_IdPswLogInStartReq_STR, moaCORE_IdPswLogInReq_STR,
      moaMANAGER_IdPswLogInReq_STR, moaCORE_ChangePswReq_STR]
  | unRegist id =>
    refine ⟨[id], rfl, ?_⟩
    simp [header, fields, parseId, idBase64, codec.decode, codec.newStringUTF8, joined,
      moaCORE_IDExist_STR, moaCORE_IdPswRegReq_STR,
      moaMANAGER_IdPswRegReq_STR, moaCORE_IdPswLogInStartReq_STR, moaCORE_IdPswLogInReq_STR,
      moaMANAGER_IdPswLogInReq_STR, moaCORE_ChangePswReq_STR, moaCORE_UnRegistReq_STR]

include codec ideal in
/-- The flow reads the values. -/
theorem read_joined (m : ClientMessage) (hm : m.Named) {randomBytes : List UInt8}
    (hrandom : randomBytes ≠ []) {nonce : Option String} {values : List String}
    (h : m.values cr randomBytes nonce = some values) : m.read (joined values) = values := by
  cases m with
  | idExist id =>
    obtain rfl := Option.some.inj h
    rfl
  | regist level id password =>
    obtain ⟨hid, -, -⟩ := tokens_request codec ideal hm password
    obtain ⟨ciphered, hciphered, htoken⟩ := exists_ciphered codec ideal hrandom id password
    have hsalt := tokens_base64 codec hrandom
    rw [ClientMessage.values, hciphered] at h
    obtain rfl := Option.some.inj h
    refine tokens_joined ?_
    cases level with
    | none => simp [hid, hsalt, htoken]
    | some level => simp [hid, hsalt, htoken, level.tokens]
  | logInStart =>
    obtain rfl := Option.some.inj h
    rfl
  | logIn id password sent manager =>
    obtain ⟨hid, hhash, hhmac⟩ := tokens_request codec ideal hm password
    have hcodes : ∀ code ∈ ["0x6030", "0x6031", "0000"], tokens '$' code = [code] := by decide
    simp only [List.mem_cons, List.not_mem_nil, or_false, forall_eq_or_imp, forall_eq] at hcodes
    rw [ClientMessage.values] at h
    split at h
    · obtain rfl := Option.some.inj h
      refine tokens_joined ?_
      simp [hid, hhash, hhmac, hcodes]
    · obtain rfl := Option.some.inj h
      refine tokens_joined ?_
      simp [hcodes]
  | changePsw id existPsw newPsw =>
    obtain ⟨hid, hhash, hhmac⟩ := tokens_request codec ideal hm existPsw
    obtain ⟨-, hnewHash, hnewHmac⟩ := tokens_request codec ideal hm newPsw
    obtain rfl := Option.some.inj h
    refine tokens_joined ?_
    simp [hid, hhash, hhmac, hnewHash, hnewHmac]
  | unRegist id =>
    obtain rfl := Option.some.inj h
    rfl

end ClientMessage

end

/-! ## The server's messages at the client -/

namespace ServerMessage

def header : ServerMessage → String
  | idExistAck _ => moaCORE_IDExistAck_STR
  | registResponse _ manager => if manager then moaMANAGER_IdPswRegRes_STR else moaCORE_IdPswRegRes_STR
  | logInStartResponse _ => moaCORE_IdPswLogInSTartRes_STR
  | logInResponse _ _ level =>
    if level.isSome then moaMANAGER_IdPswLogInRes_STR else moaCORE_IdPswLogInRes_STR
  | changePswResponse _ _ => moaCORE_ChangePswRes_STR
  | unRegistResponse _ => moaCORE_UnRegistRes_STR

theorem text_eq (m : ServerMessage) : m.text = joined (m.header :: m.values) := by
  cases m with
  | logInResponse nonceVerify auth level =>
    cases level <;>
      simp [text, header, values, joined, coreIdPswLogInResponseMsgGenProcess, String.append_assoc]
  | changePswResponse verify update =>
    simp [text, header, values, joined, coreIdPswChangePswResponseMsgGenProcess, String.append_assoc]
  | _ => rfl

theorem header_mem (m : ServerMessage) : m.header ∈ headers := by
  cases m with
  | registResponse code manager => cases manager <;> simp [header, headers]
  | logInResponse nonceVerify auth level => cases level <;> simp [header, headers]
  | _ => simp [header, headers]

theorem tokens_values (m : ServerMessage) : ∀ value ∈ m.values, tokens '$' value = [value] := by
  cases m with
  | logInResponse nonceVerify auth level =>
    cases level with
    | none => simp [values, nonceVerify.tokens, auth.tokens]
    | some level => simp [values, nonceVerify.tokens, auth.tokens, level.tokens]
  | changePswResponse verify update => simp [values, verify.tokens, update.tokens]
  | idExistAck code | registResponse code _ | unRegistResponse code | logInStartResponse code =>
    simp [values, code.tokens]

/-- **Responses.**  The client's parser gives the values of the message, joined. -/
theorem parsed (m : ServerMessage) :
    coreAuthClientMsgPacketParser m.text = some (some (joined m.values)) := by
  have htokens := tokens_message m.header_mem m.tokens_values
  have hupper := toUpperCase_header m.header_mem
  rw [← text_eq] at htokens
  unfold coreAuthClientMsgPacketParser
  rw [htokens]
  simp only [hupper]
  cases m with
  | registResponse code manager =>
    cases manager <;> simp [header, values, joined]
  | logInResponse nonceVerify auth level =>
    cases level with
    | none => simp [header, values, joined, moaCORE_IDExistAck_STR, moaCORE_IdPswRegRes_STR,
        moaMANAGER_IdPswRegRes_STR, moaCORE_IdPswLogInSTartRes_STR, moaCORE_UnRegistRes_STR,
        moaCORE_IdPswLogInRes_STR]
    | some level => simp [header, values, joined, moaCORE_IDExistAck_STR, moaCORE_IdPswRegRes_STR,
        moaMANAGER_IdPswRegRes_STR, moaCORE_IdPswLogInSTartRes_STR, moaCORE_UnRegistRes_STR,
        moaCORE_IdPswLogInRes_STR, moaCORE_ChangePswRes_STR, moaMANAGER_IdPswLogInRes_STR,
        String.append_assoc]
  | changePswResponse verify update =>
    simp [header, values, joined, moaCORE_IDExistAck_STR, moaCORE_IdPswRegRes_STR,
      moaMANAGER_IdPswRegRes_STR, moaCORE_IdPswLogInSTartRes_STR, moaCORE_UnRegistRes_STR,
      moaCORE_ChangePswRes_STR]
  | idExistAck code | unRegistResponse code | logInStartResponse code => simp [header, values, joined]

theorem read_joined (m : ServerMessage) : m.read (joined m.values) = m.values := by
  cases m with
  | logInResponse nonceVerify auth level => exact tokens_joined (tokens_values _)
  | changePswResponse verify update => exact tokens_joined (tokens_values _)
  | _ => rfl

end ServerMessage

/-! ## Acceptance -/

section

variable {cr : Crypto} (codec : Codec cr) (ideal : IdealDigests cr)

include codec ideal

/-- Under any salt the digests of another id or password give another value. -/
theorem authInfoGen_request_iff {salt ciphered id password : String}
    (h : coreIdPswRegistAuthInfoGen cr salt (ClientMessage.hashBase64 cr id password)
      (ClientMessage.hmacBase64 cr id password) = some ciphered) (id' password' : String) :
    coreIdPswLogInAuthInfoGen cr salt (ClientMessage.hashBase64 cr id' password')
      (ClientMessage.hmacBase64 cr id' password') = some ciphered ↔ id' = id ∧ password' = password := by
  constructor
  · intro h'
    have base64 : Function.Injective cr.toBase64String := by
      intro x y hxy
      have hsome : some x = some y := by rw [← codec.decode, ← codec.decode, hxy]
      exact Option.some.inj hsome
    obtain ⟨-, hhmac⟩ := authInfoGen_inj ideal.strong base64 h' h
    rw [ClientMessage.hmacBase64, ClientMessage.hmacBase64, codec.decode, codec.decode] at hhmac
    -- the HMAC is made of the id and the hash, the hash of the password under the key of the id
    obtain ⟨hid, hhash⟩ := ideal.hmac _ _ _ _ (Option.some.inj hhmac)
    obtain rfl := utf8_injective hid
    exact ⟨rfl, utf8_injective (ideal.cipher _ _ _ (ideal.hash _ _ hhash))⟩
  · rintro ⟨rfl, rfl⟩
    exact h

theorem logInCompares_iff {randomBytes : List UInt8} (hrandom : randomBytes ≠ []) {id' : String}
    (hid : id' ≠ "") (password' salt ciphered : String) (nonce : MsgField) (manager : Bool) :
    logInCompares cr randomBytes nonce.text salt ciphered
        ((ClientMessage.logIn id' password' nonce manager).text cr) = true ↔
      coreIdPswLogInAuthInfoGen cr salt (ClientMessage.hashBase64 cr id' password')
        (ClientMessage.hmacBase64 cr id' password') = some ciphered := by
  have hnamed : (ClientMessage.logIn id' password' nonce manager).Named := hid
  obtain ⟨values, hvalues, hparsed⟩ :=
    ClientMessage.parsed codec ideal _ hnamed hrandom (some nonce.text)
  have hread := ClientMessage.read_joined codec ideal _ hnamed hrandom hvalues
  rw [ClientMessage.values, if_pos rfl] at hvalues
  obtain rfl := Option.some.inj hvalues
  rw [ClientMessage.read] at hread
  simp [logInCompares, hparsed, hread]

theorem changePswCompares_iff {randomBytes : List UInt8} (hrandom : randomBytes ≠ []) {id' : String}
    (hid : id' ≠ "") (password' newPsw salt ciphered : String) :
    changePswCompares cr randomBytes salt ciphered
        ((ClientMessage.changePsw id' password' newPsw).text cr) = true ↔
      coreIdPswLogInAuthInfoGen cr salt (ClientMessage.hashBase64 cr id' password')
        (ClientMessage.hmacBase64 cr id' password') = some ciphered := by
  have hnamed : (ClientMessage.changePsw id' password' newPsw).Named := hid
  obtain ⟨values, hvalues, hparsed⟩ := ClientMessage.parsed codec ideal _ hnamed hrandom none
  have hread := ClientMessage.read_joined codec ideal _ hnamed hrandom hvalues
  obtain rfl := Option.some.inj hvalues
  rw [ClientMessage.read] at hread
  simp [changePswCompares, hparsed, hread]

end

/-- **Agreement.**  Each side reads what the other has put into a message; and the value that a
registration stores is met by a login or a password change exactly if it is of the same id and
password. -/
theorem message_agreement (cr : Crypto) (codec : Codec cr) (ideal : IdealDigests cr) :
    (∀ (m : ClientMessage) (randomBytes : List UInt8) (nonce : Option String), m.Named →
      randomBytes ≠ [] → ∃ values result, m.values cr randomBytes nonce = some values ∧
        coreAuthServerMsgPacketParser cr randomBytes (m.text cr) nonce = some (some result) ∧
        m.read result = values) ∧
    (∀ m : ServerMessage, ∃ result,
      coreAuthClientMsgPacketParser m.text = some (some result) ∧ m.read result = m.values) ∧
    (∀ (level : Option MsgField) (id password : String) (salt : List UInt8), id ≠ "" → salt ≠ [] →
      ∃ idBase64 saltBase64 ciphered result,
        coreAuthServerMsgPacketParser cr salt ((ClientMessage.regist level id password).text cr) none =
          some (some result) ∧
        tokens '$' result =
          (level.map MsgField.text).toList ++ [idBase64, saltBase64, ciphered] ∧
        cr.decode idBase64 = some (utf8 id) ∧
        ∀ (id' password' : String) (randomBytes : List UInt8), id' ≠ "" → randomBytes ≠ [] →
          (∀ (nonce : MsgField) (manager : Bool),
            logInCompares cr randomBytes nonce.text saltBase64 ciphered
              ((ClientMessage.logIn id' password' nonce manager).text cr) = true ↔
            id' = id ∧ password' = password) ∧
          ∀ newPsw : String, changePswCompares cr randomBytes saltBase64 ciphered
              ((ClientMessage.changePsw id' password' newPsw).text cr) = true ↔
            id' = id ∧ password' = password) := by
  refine ⟨fun m randomBytes nonce hm hrandom => ?_, fun m => ⟨_, m.parsed, m.read_joined⟩,
    fun level id password salt hid hsalt => ?_⟩
  · obtain ⟨values, hvalues, hparsed⟩ := ClientMessage.parsed codec ideal m hm hrandom nonce
    exact ⟨values, _, hvalues, hparsed, ClientMessage.read_joined codec ideal m hm hrandom hvalues⟩
  · have hnamed : (ClientMessage.regist level id password).Named := hid
    obtain ⟨values, hvalues, hparsed⟩ := ClientMessage.parsed codec ideal _ hnamed hsalt none
    have hread := ClientMessage.read_joined codec ideal _ hnamed hsalt hvalues
    obtain ⟨ciphered, hciphered, -⟩ := ClientMessage.exists_ciphered codec ideal hsalt id password
    rw [ClientMessage.values, hciphered] at hvalues
    obtain rfl := Option.some.inj hvalues
    refine ⟨_, _, ciphered, _, hparsed, hread, codec.decode _, ?_⟩
    intro id' password' randomBytes hid' hrandom
    have hsame := authInfoGen_request_iff codec ideal hciphered id' password'
    constructor
    · intro nonce manager
      rw [logInCompares_iff codec ideal hrandom hid', hsame]
    · intro newPsw
      rw [changePswCompares_iff codec ideal hrandom hid', hsame]

/-- The provider of terms, with the texts of UTF-8. -/
def wireCrypto : Crypto := { termCrypto with newString := ofUtf8, newStringUTF8 := ofUtf8 }

theorem wireCrypto_codec : Codec wireCrypto where
  decode := Java.Base64.decode_encode
  base64 := Java.Base64.not_mem_encode (by decide)
  base64_ne := Java.Base64.encode_ne
  newString := ofUtf8_utf8
  newStringUTF8 := ofUtf8_utf8

theorem wireCrypto_ideal : IdealDigests wireCrypto where
  hash _ _ h := (tagged_injective (List.cons.inj h).2).1
  cipher _ _ _ h := (tagged_injective h).1
  hmac _ _ _ _ h := tagged_injective (List.cons.inj h).2
  hmac_ne _ _ := List.cons_ne_nil _ _
  strong_ne x k h := by
    have hhead := head_lengthBytes x.length (x ++ k)
    rw [show lengthBytes x.length ++ (x ++ k) = [] from h] at hhead
    cases hhead
  strong _ _ _ _ h := tagged_injective h

theorem message_agreement_ann :
    ∃ idBase64 saltBase64 ciphered result,
      coreAuthServerMsgPacketParser wireCrypto [2] ((ClientMessage.regist none "ann" "pw").text wireCrypto)
        none = some (some result) ∧
      tokens '$' result = [idBase64, saltBase64, ciphered] ∧
      ∀ newPsw, changePswCompares wireCrypto [7] saltBase64 ciphered
        ((ClientMessage.changePsw "ann" "pw" newPsw).text wireCrypto) = true := by
  obtain ⟨idBase64, saltBase64, ciphered, result, hparsed, htokens, -, haccepts⟩ :=
    (message_agreement wireCrypto wireCrypto_codec wireCrypto_ideal).2.2 none "ann" "pw" [2]
      (by decide) (by decide)
  exact ⟨idBase64, saltBase64, ciphered, result, hparsed, htokens, fun newPsw =>
    ((haccepts "ann" "pw" [7] (by decide) (by decide)).2 newPsw).mpr ⟨rfl, rfl⟩⟩

end MoaCrypto.CoreAuth
