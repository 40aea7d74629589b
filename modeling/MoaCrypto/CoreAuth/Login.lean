import MoaCrypto.CoreAuth.Server

/-!
# The decision on a login (`FranchiseLoginTest.java`)

`franchiseLogin` runs the server's parser and compares the stored value.  Hash, HMAC and cipher
are ideal (`Ideal`).  An accepted message that is not passed on without a nonce carries the nonce
of the session and the id, hash and HMAC of a registered user (`accepted_fields`).
-/

namespace MoaCrypto.CoreAuth

open Java

/-! ## The server's side of a login -/

structure AuthRecord where
  id : String
  salt : String
  cipheredPsw : String

/-- `franchiseAuthDBGetProcess`: the first record of the decoded id. -/
def franchiseAuthDBGetProcess (cr : Crypto) (db : List AuthRecord) (receivedIdBase64Str : String) :
    Option AuthRecord :=
  (cr.decode receivedIdBase64Str).bind fun idBytes =>
    db.find? fun record => record.id = cr.newString idBytes

/-- What the server makes of a message under its nonce: the id and the nonce check that it
reports, if the login succeeds. -/
def franchiseLogin (cr : Crypto) (db : List AuthRecord) (randomBytes : List UInt8)
    (nonceBase64Str idPswLogInReqMsgStr : String) : Option (String × String) := do
  let resultStr ← coreAuthServerMsgPacketParser cr randomBytes idPswLogInReqMsgStr
    (some nonceBase64Str)
  let resultStr ← resultStr
  match tokens '$' resultStr with
  | nonceVerifySFStr :: idBase64Str :: hashPswBase64Str :: hmacPswBase64Str :: _ =>
    if nonceVerifySFStr = "0x6031" then none
    else do
      let record ← franchiseAuthDBGetProcess cr db idBase64Str
      let cipheredPswBase64Str ←
        coreIdPswLogInAuthInfoGen cr record.salt hashPswBase64Str hmacPswBase64Str
      if cipheredPswBase64Str = record.cipheredPsw then some (record.id, nonceVerifySFStr) else none
  | _ => none

/-- A registered user with its password and the salt of the registration. -/
structure User where
  id : String
  password : String
  salt : String

/-- The record that the registration of the user has stored. -/
def User.record (cr : Crypto) (user : User) : Option AuthRecord :=
  (coreIdPswRegistAuthInfoGen cr user.salt (cr.toBase64String (hashPswBytes cr user.id user.password))
    (cr.toBase64String (hmacPswBytes cr user.id user.password))).map fun cipheredPsw =>
      ⟨user.id, user.salt, cipheredPsw⟩

/-- A login request that a client has generated. -/
structure Request where
  id : String
  password : String
  nonce : String
  deriving DecidableEq

/-- The fields decode to the id, the hash and the HMAC of the request. -/
def Request.Carried (cr : Crypto) (r : Request) (id hashPsw hmacPsw : String) : Prop :=
  (cr.decode id).map cr.newString = some r.id ∧
    cr.decode hashPsw = some (hashPswBytes cr r.id r.password) ∧
    cr.decode hmacPsw = some (hmacPswBytes cr r.id r.password)

/-- The parties' common world: the registered users, and what the secure generator gives for nonces
and for salts. -/
structure World where
  cr : Crypto
  users : List User
  nonceOTP : Nat → List UInt8
  saltGen : Nat → List UInt8

def World.db (w : World) : List AuthRecord := w.users.filterMap (User.record w.cr)

/-- The headers of the messages that the parser passes on without a look at a nonce, with fields
or a text of the sender's choice. -/
def unverified : List String :=
  [moaCORE_IDExist_STR, moaCORE_ChangePswReq_STR, moaCORE_UnRegistReq_STR]

instance (cr : Crypto) (r : Request) (id hashPsw hmacPsw : String) :
    Decidable (r.Carried cr id hashPsw hmacPsw) := inferInstanceAs (Decidable (_ ∧ _))

/-! ## Ideal cryptography -/

/-- The texts that every message may contain. -/
def constants : List String :=
  [moaCORE_IdPswLogInStartReq_STR, moaCORE_IdPswLogInSTartRes_STR, moaCORE_IdPswLogInReq_STR,
    moaMANAGER_IdPswLogInReq_STR, moaCORE_IdPswLogInRes_STR, "0x6030", "0x6040", "null"]

theorem tokens_constant {c : String} (hc : c ∈ constants) : tokens '$' c = [c] := by
  have hall : ∀ c ∈ constants, tokens '$' c = [c] := by decide
  exact hall c hc

/-- Digests and ciphertexts determine what they are made of, no other id has the key of a
registered one, nothing but a hash is a hash, nonces are fresh, and Base64 is a code
without the separator. -/
structure Ideal (w : World) : Prop where
  hash : ∀ x y, w.cr.HashDigest x = w.cr.HashDigest y → x = y
  key : ∀ user ∈ w.users, ∀ id, (w.cr.HashDigest (utf8 id)).take 16 =
    (w.cr.HashDigest (utf8 user.id)).take 16 → id = user.id
  cipher : ∀ k x k' x', w.cr.SymmetricEncryptData k x = w.cr.SymmetricEncryptData k' x' →
    k = k' ∧ x = x'
  strongHmac : ∀ x k x' k', w.cr.strongHmacDigest x k = w.cr.strongHmacDigest x' k' →
    x = x' ∧ k = k'
  hmac_ne : ∀ x k y, w.cr.HmacDigest x k ≠ w.cr.HashDigest y
  text_ne : ∀ s y, utf8 s ≠ w.cr.HashDigest y
  nonce_ne : ∀ n y, w.nonceOTP n ≠ w.cr.HashDigest y
  salt_ne : ∀ n y, w.saltGen n ≠ w.cr.HashDigest y
  constant_ne : ∀ c ∈ constants, ∀ y, w.cr.decode c ≠ some (w.cr.HashDigest y)
  fresh : ∀ m n, w.nonceOTP m = w.nonceOTP n → m = n
  decode : ∀ bytes, w.cr.decode (w.cr.toBase64String bytes) = some bytes
  base64 : ∀ bytes, '$' ∉ (w.cr.toBase64String bytes).toList

variable {w : World}

/-- The password hash of a registered user is that of no other id and password. -/
theorem Ideal.hashPsw (ideal : Ideal w) {user : User} (huser : user ∈ w.users) {id password : String}
    (h : hashPswBytes w.cr id password = hashPswBytes w.cr user.id user.password) :
    id = user.id ∧ password = user.password := by
  obtain ⟨hkey, hpsw⟩ := ideal.cipher _ _ _ _ (ideal.hash _ _ h)
  exact ⟨ideal.key user huser id hkey, utf8_injective hpsw⟩

theorem Ideal.tokens_base64 (ideal : Ideal w) (bytes : List UInt8) :
    tokens '$' (w.cr.toBase64String bytes) = if w.cr.toBase64String bytes = "" then []
      else [w.cr.toBase64String bytes] := tokens_of_not_mem (ideal.base64 bytes)

theorem Ideal.decode_token (ideal : Ideal w) {bytes : List UInt8} {token : String}
    (h : token ∈ tokens '$' (w.cr.toBase64String bytes)) : w.cr.decode token = some bytes := by
  rw [ideal.tokens_base64] at h
  split at h
  · exact absurd h List.not_mem_nil
  · rw [List.mem_singleton.mp h, ideal.decode]

theorem Ideal.base64_injective (ideal : Ideal w) : Function.Injective w.cr.toBase64String := by
  intro x y h
  have hsome : some x = some y := by rw [← ideal.decode, ← ideal.decode, h]
  exact Option.some.inj hsome

/-! ## What an accepted message carries -/

/-- Digests of the server's HMAC determine the data and the key. -/
def StrongInjective (cr : Crypto) : Prop :=
  ∀ x k x' k', cr.strongHmacDigest x k = cr.strongHmacDigest x' k' → x = x' ∧ k = k'

theorem strongHmac_inj {cr : Crypto} (strong : StrongInjective cr) {x k x' k' digest : List UInt8}
    (h : strongHmac cr x k = some digest) (h' : strongHmac cr x' k' = some digest) :
    x = x' ∧ k = k' := by
  unfold strongHmac at h h'
  split at h
  · cases h
  · split at h'
    · cases h'
    · exact strong _ _ _ _ ((Option.some.inj h).trans (Option.some.inj h').symm)

/-- A stored value is the text of a digest, which side signs depending on the salt. -/
theorem authInfoGen_eq_some {cr : Crypto} {salt hashPsw hmacPsw value : String}
    (h : authInfoGen cr salt hashPsw hmacPsw = some value) :
    ∃ saltBytes hash hmac first, cr.decode salt = some saltBytes ∧
      cr.decode hashPsw = some hash ∧ cr.decode hmacPsw = some hmac ∧
      saltBytes.head? = some first ∧ ∃ digest, cr.toBase64String digest = value ∧
        if first.toNat % 2 = 0 then strongHmac cr (saltBytes ++ hash) hmac = some digest
        else strongHmac cr (saltBytes ++ hmac) hash = some digest := by
  unfold authInfoGen at h
  simp only [Option.bind_eq_bind, Option.bind_eq_some_iff] at h
  obtain ⟨saltBytes, hsalt, hash, hhash, hmac, hhmac, first, hfirst, h⟩ := h
  refine ⟨saltBytes, hash, hmac, first, hsalt, hhash, hhmac, hfirst, ?_⟩
  by_cases heven : first.toNat % 2 = 0
  · simp only [heven, if_true, Option.bind_eq_some_iff, Option.some.injEq] at h ⊢
    obtain ⟨digest, hdigest, hvalue⟩ := h
    exact ⟨digest, hvalue, hdigest⟩
  · simp only [heven, if_false, Option.bind_eq_some_iff, Option.some.injEq] at h ⊢
    obtain ⟨digest, hdigest, hvalue⟩ := h
    exact ⟨digest, hvalue, hdigest⟩

/-- Under one salt, equal stored values come from equal hashes and HMACs. -/
theorem authInfoGen_inj {cr : Crypto} (strong : StrongInjective cr)
    (base64 : Function.Injective cr.toBase64String)
    {salt hashPsw hmacPsw hashPsw' hmacPsw' value : String}
    (h : authInfoGen cr salt hashPsw hmacPsw = some value)
    (h' : authInfoGen cr salt hashPsw' hmacPsw' = some value) :
    cr.decode hashPsw = cr.decode hashPsw' ∧ cr.decode hmacPsw = cr.decode hmacPsw' := by
  obtain ⟨saltBytes, hash, hmac, first, hsalt, hhash, hhmac, hfirst, digest, hvalue, hdigest⟩ :=
    authInfoGen_eq_some h
  obtain ⟨saltBytes', hash', hmac', first', hsalt', hhash', hhmac', hfirst', digest', hvalue',
    hdigest'⟩ := authInfoGen_eq_some h'
  obtain rfl : saltBytes = saltBytes' := Option.some.inj (hsalt.symm.trans hsalt')
  obtain rfl : first = first' := Option.some.inj (hfirst.symm.trans hfirst')
  obtain rfl : digest = digest' := base64 (hvalue.trans hvalue'.symm)
  rw [hhash, hhash', hhmac, hhmac']
  split at hdigest
  next heven =>
    rw [if_pos heven] at hdigest'
    obtain ⟨hdata, hkey⟩ := strongHmac_inj strong hdigest hdigest'
    exact ⟨by rw [List.append_cancel_left hdata], by rw [hkey]⟩
  next hodd =>
    rw [if_neg hodd] at hdigest'
    obtain ⟨hdata, hkey⟩ := strongHmac_inj strong hdigest hdigest'
    exact ⟨by rw [hkey], by rw [List.append_cancel_left hdata]⟩

/-- What a login that succeeds has passed: the record of a registered user, and the fields after the
nonce check of the parser's text. -/
theorem franchiseLogin_accepted (ideal : Ideal w) {saltBytes : List UInt8} {nonce message : String}
    {login : String × String} (h : franchiseLogin w.cr w.db saltBytes nonce message = some login) :
    ∃ resultStr id hashPsw hmacPsw rest,
      coreAuthServerMsgPacketParser w.cr saltBytes message (some nonce) = some (some resultStr) ∧
      tokens '$' resultStr = login.2 :: id :: hashPsw :: hmacPsw :: rest ∧ login.2 ≠ "0x6031" ∧
      ∃ user ∈ w.users, user.id = login.1 ∧
        Request.Carried w.cr ⟨user.id, user.password, nonce⟩ id hashPsw hmacPsw := by
  unfold franchiseLogin at h
  simp only [Option.bind_eq_bind, Option.bind_eq_some_iff] at h
  obtain ⟨_, hparsed, resultStr, rfl, h⟩ := h
  split at h
  next sf id hashPsw hmacPsw rest htokens =>
    split at h
    · cases h
    · rename_i hsf
      simp only [Option.bind_eq_some_iff] at h
      obtain ⟨record, hrecord, value, hvalue, h⟩ := h
      split at h
      · rename_i heq
        obtain rfl := Option.some.inj h
        obtain ⟨idBytes, hid, hfind⟩ := Option.bind_eq_some_iff.mp hrecord
        obtain ⟨user, huser, hmade⟩ := List.mem_filterMap.mp (List.mem_of_find?_eq_some hfind)
        obtain ⟨stored, hstored, rfl⟩ := Option.map_eq_some_iff.mp hmade
        have hname : user.id = w.cr.newString idBytes := by simpa using List.find?_some hfind
        subst heq
        obtain ⟨hhash, hhmac⟩ := authInfoGen_inj ideal.strongHmac ideal.base64_injective hvalue hstored
        refine ⟨resultStr, id, hashPsw, hmacPsw, rest, hparsed, htokens, hsf, user, huser, rfl,
          ?_, ?_, ?_⟩
        · rw [hid, Option.map_some, hname]
        · rw [hhash, ideal.decode]
        · rw [hhmac, ideal.decode]
      · cases h
  · cases h

/-- The fields of a message, one token each. -/
theorem tokens_field {message header : String} {fields : List String}
    (h : tokens '$' message = header :: fields) {field : String} (hmem : field ∈ fields) :
    tokens '$' field = [field] := by
  refine tokens_token (s := message) ?_
  rw [h]
  exact List.mem_cons_of_mem _ hmem

/-- A login request that passes has the nonce, and its fields are passed on. -/
theorem parseLogIn_passed {fields rest : List String}
    {nonce resultStr nonceVerifySFStr id hashPsw hmacPsw : String}
    (hfields : ∀ field ∈ fields, tokens '$' field = [field])
    (h : parseLogIn fields (some nonce) = some (some resultStr))
    (htokens : tokens '$' resultStr = nonceVerifySFStr :: id :: hashPsw :: hmacPsw :: rest)
    (hsf : nonceVerifySFStr ≠ "0x6031") :
    nonceVerifySFStr = "0x6030" ∧ ∃ more, fields = id :: hashPsw :: hmacPsw :: nonce :: more := by
  unfold parseLogIn at h
  split at h
  next id' hashPsw' hmacPsw' nonce' more =>
    split at h
    · obtain rfl := Option.some.inj (Option.some.inj h)
      rw [tokens_join, tokens_join, tokens_join] at htokens
      exact absurd (List.cons.inj htokens).1.symm hsf
    · rename_i hnonce
      obtain rfl := Option.some.inj (Option.some.inj h)
      rw [tokens_join, tokens_join, tokens_join, hfields id' (by simp), hfields hashPsw' (by simp),
        hfields hmacPsw' (by simp), tokens_constant (show "0x6030" ∈ constants by decide)] at htokens
      simp only [List.cons_append, List.nil_append, List.cons.injEq] at htokens
      obtain ⟨hsf', rfl, rfl, rfl, _⟩ := htokens
      obtain rfl : nonce' = nonce := by simpa using hnonce
      exact ⟨hsf'.symm, more, rfl⟩
  · cases h

/-- A registration is passed on with the server's salt and a digest. -/
theorem parseRegist_passed {cr : Crypto} {saltBytes : List UInt8} {fields : List String}
    {info : String} (h : parseRegist cr saltBytes fields = some info) :
    ∃ id ∈ fields, ∃ digest, info = id ++ "$" ++ cr.toBase64String saltBytes ++ "$" ++
      cr.toBase64String digest := by
  unfold parseRegist at h
  split at h
  next id hashPsw hmacPsw rest =>
    obtain ⟨value, hvalue, rfl⟩ := Option.map_eq_some_iff.mp h
    obtain ⟨_, _, _, _, _, _, _, _, digest, rfl, _⟩ := authInfoGen_eq_some hvalue
    exact ⟨id, List.mem_cons_self, digest, rfl⟩
  · cases h

theorem Ideal.length_tokens_base64 (ideal : Ideal w) (bytes : List UInt8) :
    (tokens '$' (w.cr.toBase64String bytes)).length ≤ 1 := by
  rw [ideal.tokens_base64]
  split
  · exact Nat.zero_le 1
  · exact Nat.le_refl 1

/-- Of the messages that the parser does not pass on unverified, a login request with the nonce is
passed on, and nothing else has four fields but a registration, with the server's salt. -/
theorem parsed_verified (ideal : Ideal w) {saltBytes : List UInt8} {fields rest : List String}
    {nonce message header resultStr nonceVerifySFStr id hashPsw hmacPsw : String}
    (hmessage : tokens '$' message = header :: fields) (hheader : toUpperCase header ∉ unverified)
    (h : coreAuthServerMsgPacketParser w.cr saltBytes message (some nonce) = some (some resultStr))
    (htokens : tokens '$' resultStr = nonceVerifySFStr :: id :: hashPsw :: hmacPsw :: rest)
    (hsf : nonceVerifySFStr ≠ "0x6031") :
    (nonceVerifySFStr = "0x6030" ∧
      ∃ more, fields = id :: hashPsw :: hmacPsw :: nonce :: more) ∨
    w.cr.decode hashPsw = some saltBytes := by
  have hfields : ∀ field ∈ fields, tokens '$' field = [field] := fun field => tokens_field hmessage
  have hlen : 4 ≤ (tokens '$' resultStr).length := by
    rw [htokens]
    simp
  simp only [unverified, List.mem_cons, List.not_mem_nil, or_false, not_or] at hheader
  obtain ⟨hexist, hchange, hunregist⟩ := hheader
  unfold coreAuthServerMsgPacketParser at h
  rw [hmessage] at h
  simp only [if_neg hexist, if_neg hchange, if_neg hunregist] at h
  split at h
  · obtain ⟨info, hinfo, heq⟩ := Option.map_eq_some_iff.mp h
    obtain rfl := Option.some.inj heq
    obtain ⟨id', hid', digest, rfl⟩ := parseRegist_passed hinfo
    rw [tokens_join, tokens_join, hfields id' hid', List.length_append, List.length_append,
      List.length_singleton] at hlen
    have hsalt := ideal.length_tokens_base64 saltBytes
    have hdigest := ideal.length_tokens_base64 digest
    omega
  · split at h
    · split at h
      next level fields =>
        obtain ⟨info, hinfo, heq⟩ := Option.map_eq_some_iff.mp h
        obtain rfl := Option.some.inj heq
        obtain ⟨id', hid', digest, rfl⟩ := parseRegist_passed hinfo
        have hlevel := hfields level List.mem_cons_self
        have hid := hfields id' (List.mem_cons_of_mem _ hid')
        have hsalt := ideal.length_tokens_base64 saltBytes
        have hdigest := ideal.length_tokens_base64 digest
        rw [tokens_join, tokens_join, tokens_join, hlevel, hid] at hlen htokens
        simp only [List.length_append, List.length_singleton] at hlen
        -- both the salt and the digest are texts, so the salt is the third of four fields
        obtain ⟨salt, hsalt⟩ := List.length_eq_one_iff.mp
          (show (tokens '$' (w.cr.toBase64String saltBytes)).length = 1 by omega)
        rw [hsalt] at htokens
        simp only [List.cons_append, List.nil_append, List.cons.injEq] at htokens
        obtain ⟨_, _, rfl, _⟩ := htokens
        exact Or.inr (ideal.decode_token (by rw [hsalt]; exact List.mem_singleton_self _))
      · cases h
    · split at h
      · obtain rfl := Option.some.inj (Option.some.inj h)
        have hnonce := ideal.length_tokens_base64 saltBytes
        omega
      · split at h
        · exact Or.inl (parseLogIn_passed hfields h htokens hsf)
        · split at h
          · exact Or.inl (parseLogIn_passed hfields h htokens hsf)
          · cases h

/-- **What is accepted.**  A message that is not passed on unverified and succeeds has the nonce
and the fields of a user. -/
theorem accepted_fields (ideal : Ideal w) {saltBytes : List UInt8} {n : Nat}
    (hsalt : saltBytes = w.saltGen n) {nonce message header : String} {fields : List String}
    {login : String × String} (hmessage : tokens '$' message = header :: fields)
    (hheader : toUpperCase header ∉ unverified)
    (h : franchiseLogin w.cr w.db saltBytes nonce message = some login) :
    login.2 = "0x6030" ∧ ∃ id hashPsw hmacPsw more,
      fields = id :: hashPsw :: hmacPsw :: nonce :: more ∧
      ∃ user ∈ w.users, user.id = login.1 ∧
        Request.Carried w.cr ⟨user.id, user.password, nonce⟩ id hashPsw hmacPsw := by
  obtain ⟨resultStr, id, hashPsw, hmacPsw, rest, hparsed, htokens, hsf, user, huser, hname,
    hcarried⟩ := franchiseLogin_accepted ideal h
  rcases parsed_verified ideal hmessage hheader hparsed htokens hsf with ⟨hsf, more, hfields⟩ | hhash
  · exact ⟨hsf, id, hashPsw, hmacPsw, more, hfields, user, huser, hname, hcarried⟩
  · have hsaltHash := Option.some.inj (hhash.symm.trans hcarried.2.1)
    exact absurd (hsalt.symm.trans hsaltHash) (ideal.salt_ne n _)

end MoaCrypto.CoreAuth
