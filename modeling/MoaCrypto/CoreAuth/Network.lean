import MoaCrypto.CoreAuth.Login
import MoaCrypto.Java.Base64
import MoaCrypto.Lib.Run

/-!
# Logins on an open network (`FranchiseLoginTest.java`)

A server issues nonces and receives login messages; clients answer the responses they
receive; an attacker reads everything and writes whatever it likes, except a text that
decodes to the password hash of a user while nothing it has seen does (`Writable`).

The HMAC of a request binds the id to the password hash, but the nonce is only appended:

* `generated_of_accepted`: an accepted login request is for a user for whom a client has
  generated a request;
* `login_agreement`: in runs in which no login request pairs the fields of a client with a nonce
  that they were not generated for, every accepted login was generated for its nonce;
* `login_replayed`: the fields of one login with the nonce of another are accepted.
-/

namespace MoaCrypto.CoreAuth

open Java

variable {w : World}

/-! ## Runs -/

/-- What the server has issued, what has been on the network, the requests that the clients have
generated, and the logins accepted, an id under a nonce. -/
structure Net where
  nonces : List String
  seen : List String
  generated : List Request
  accepted : List (String × String)

def Net.start : Net := ⟨[], [], [], []⟩

inductive Step
  | start
  | request (id password response : String) (manager : Bool)
  | login (session : Nat) (message : String)

/-- A nonce is issued and sent; a client answers a response; the server decides on a message in
the session of one of its nonces. -/
def World.step (w : World) (s : Net) : Step → Net
  | .start =>
    let nonce := w.cr.toBase64String (w.nonceOTP s.nonces.length)
    { s with
      nonces := s.nonces ++ [nonce]
      seen := coreIdPswLoginStartResponseMsgGenProcess nonce ::
        coreIdPswLogInStartRequestMsgGenProcess :: s.seen }
  | .request id password response manager =>
    match coreAuthClientMsgPacketParser response with
    | none => s
    | some nonce =>
      { s with
        seen := coreIdPswLogInRequestMsgGenProcess w.cr id password (nonce.getD "null") manager ::
          s.seen
        generated := ⟨id, password, nonce.getD "null"⟩ :: s.generated }
  | .login session message =>
    match s.nonces[session]? with
    | none => s
    | some nonce =>
      match franchiseLogin w.cr w.db (w.saltGen s.seen.length) nonce message with
      | none => s
      | some (id, nonceVerifySFStr) =>
        { s with
          seen := coreIdPswLogInResponseMsgGenProcess nonceVerifySFStr "0x6040" none :: s.seen
          accepted := (id, nonce) :: s.accepted }

/-- A field of a message seen decodes to the bytes. -/
def Shows (cr : Crypto) (seen : List String) (bytes : List UInt8) : Prop :=
  ∃ message ∈ seen, ∃ token ∈ tokens '$' message, cr.decode token = some bytes

/-- The attacker can write the message: none of its fields decodes to the password hash of a user
unless something seen does. -/
def World.Writable (w : World) (s : Net) (message : String) : Prop :=
  ∀ token ∈ tokens '$' message, ∀ user ∈ w.users,
    w.cr.decode token = some (hashPswBytes w.cr user.id user.password) →
      Shows w.cr s.seen (hashPswBytes w.cr user.id user.password)

/-- What a client or the server receives, the attacker can write. -/
def World.Possible (w : World) (s : Net) : Step → Prop
  | .start => True
  | .request _ _ response _ => w.Writable s response
  | .login _ message => w.Writable s message

/-- Every accepted login was generated, by a client with the user's password, for the nonce. -/
def World.Agreed (w : World) (s : Net) : Prop :=
  ∀ login ∈ s.accepted, ∃ user ∈ w.users, user.id = login.1 ∧
    ⟨user.id, user.password, login.2⟩ ∈ s.generated

/-- If the nonce is that of the session and the fields are those of a generated request, then some
request with these fields was generated for the nonce. -/
def World.Matching (w : World) (s : Net) (session : Nat) : List String → Prop
  | id :: hashPsw :: hmacPsw :: nonce :: _ =>
    s.nonces[session]? = some nonce →
      (∃ r ∈ s.generated, r.Carried w.cr id hashPsw hmacPsw) →
      ∃ r ∈ s.generated, r.Carried w.cr id hashPsw hmacPsw ∧ r.nonce = nonce
  | _ => True

/-- The server receives no message without a nonce, and no login request with its own nonce and the
fields of a request that clients have generated for other nonces only. -/
def World.Unmixed (w : World) (s : Net) : Step → Prop
  | .login session message =>
    (∀ header ∈ (tokens '$' message).head?, toUpperCase header ∉ unverified) ∧
      w.Matching s session (tokens '$' message).tail
  | _ => True

instance (cr : Crypto) (seen : List String) (bytes : List UInt8) :
    Decidable (Shows cr seen bytes) := inferInstanceAs (Decidable (∃ message ∈ seen, _))

instance (w : World) (s : Net) (message : String) : Decidable (w.Writable s message) :=
  inferInstanceAs (Decidable (∀ token ∈ tokens '$' message, ∀ user ∈ w.users, _ → _))

instance (w : World) (s : Net) : (l : Step) → Decidable (w.Possible s l)
  | .start => isTrue trivial
  | .request _ _ response _ => inferInstanceAs (Decidable (w.Writable s response))
  | .login _ message => inferInstanceAs (Decidable (w.Writable s message))

instance (w : World) (s : Net) : Decidable (w.Agreed s) :=
  inferInstanceAs (Decidable (∀ login ∈ s.accepted, ∃ user ∈ w.users, _))

instance (w : World) (s : Net) (session : Nat) :
    (fields : List String) → Decidable (w.Matching s session fields)
  | _ :: _ :: _ :: _ :: _ => inferInstanceAs (Decidable (_ → _ → _))
  | [] | [_] | [_, _] | [_, _, _] => isTrue trivial

instance (w : World) (s : Net) : (l : Step) → Decidable (w.Unmixed s l)
  | .start => isTrue trivial
  | .request .. => isTrue trivial
  | .login .. => inferInstanceAs (Decidable (_ ∧ _))

/-! ## What is seen -/

theorem shows_cons {cr : Crypto} {message : String} {seen : List String} {bytes : List UInt8} :
    Shows cr (message :: seen) bytes ↔
      (∃ token ∈ tokens '$' message, cr.decode token = some bytes) ∨ Shows cr seen bytes := by
  simp [Shows]

theorem Ideal.constant (ideal : Ideal w) {c : String} (hc : c ∈ constants) (id password : String) :
    w.cr.decode c ≠ some (hashPswBytes w.cr id password) := ideal.constant_ne c hc _

/-- The response to an accepted request has no other fields than constants. -/
theorem constant_of_loginResponse {token : String}
    (h : token ∈ tokens '$' (coreIdPswLogInResponseMsgGenProcess "0x6030" "0x6040" none)) :
    token ∈ constants := by
  have hall : ∀ token ∈ tokens '$' (coreIdPswLogInResponseMsgGenProcess "0x6030" "0x6040" none),
      token ∈ constants := by decide
  exact hall token h

/-- A client's request shows the id, the hash, the HMAC and the fields of the nonce. -/
theorem mem_tokens_request {cr : Crypto} {id password nonce token : String} {manager : Bool}
    (h : token ∈ tokens '$' (coreIdPswLogInRequestMsgGenProcess cr id password nonce manager)) :
    token = moaCORE_IdPswLogInReq_STR ∨ token = moaMANAGER_IdPswLogInReq_STR ∨
      token ∈ tokens '$' (cr.toBase64String (utf8 id)) ∨
      token ∈ tokens '$' (cr.toBase64String (hashPswBytes cr id password)) ∨
      token ∈ tokens '$' (cr.toBase64String (hmacPswBytes cr id password)) ∨
      token ∈ tokens '$' nonce := by
  have hheader : tokens '$' (if manager then moaMANAGER_IdPswLogInReq_STR
      else moaCORE_IdPswLogInReq_STR) =
        [if manager then moaMANAGER_IdPswLogInReq_STR else moaCORE_IdPswLogInReq_STR] := by
    apply tokens_constant
    cases manager <;> decide
  rw [coreIdPswLogInRequestMsgGenProcess, tokens_join, tokens_join, tokens_join, tokens_join,
    hheader] at h
  simp only [List.mem_append, List.mem_singleton, or_assoc] at h
  rcases h with h | h
  · cases manager
    · exact Or.inl h
    · exact Or.inr (Or.inl h)
  · exact Or.inr (Or.inr h)

/-- What a client takes for the nonce consists of fields of the response. -/
theorem mem_tokens_nonce {response nonce token : String}
    (h : coreAuthClientMsgPacketParser response = some (some nonce))
    (htoken : token ∈ tokens '$' nonce) : token ∈ tokens '$' response := by
  unfold coreAuthClientMsgPacketParser at h
  cases hresponse : tokens '$' response with
  | nil =>
    rw [hresponse] at h
    cases h
  | cons header fields =>
    have hfields : ∀ field ∈ fields, tokens '$' field = [field] :=
      fun field => tokens_field hresponse
    refine List.mem_cons_of_mem _ ?_
    rw [hresponse] at h
    simp only at h
    split at h
    · cases fields with
      | nil => cases h
      | cons result rest =>
        obtain rfl := Option.some.inj (Option.some.inj h)
        rw [hfields result List.mem_cons_self, List.mem_singleton] at htoken
        exact htoken ▸ List.mem_cons_self
    · split at h
      · match fields, hfields, h with
        | first :: second :: rest, hfields, h =>
          obtain rfl := Option.some.inj (Option.some.inj h)
          rw [tokens_join, hfields first (by simp), hfields second (by simp)] at htoken
          exact List.mem_append_left rest htoken
      · split at h
        · match fields, hfields, h with
          | first :: second :: third :: rest, hfields, h =>
            obtain rfl := Option.some.inj (Option.some.inj h)
            rw [tokens_join, tokens_join, hfields first (by simp), hfields second (by simp),
              hfields third (by simp)] at htoken
            exact List.mem_append_left rest htoken
        · cases h

/-! ## Agreement -/

/-- A client has generated a request of the user. -/
def Sent (generated : List Request) (user : User) : Prop :=
  ∃ r ∈ generated, r.id = user.id ∧ r.password = user.password

theorem Sent.cons {generated : List Request} {user : User} (h : Sent generated user)
    (request : Request) : Sent (request :: generated) user := by
  obtain ⟨r, hr, hids⟩ := h
  exact ⟨r, List.mem_cons_of_mem _ hr, hids⟩

/-- **Invariant.**  A password hash is seen only of users that clients have sent; the logins
accepted were generated. -/
structure World.Secure (w : World) (s : Net) : Prop where
  sent : ∀ user ∈ w.users,
    Shows w.cr s.seen (hashPswBytes w.cr user.id user.password) → Sent s.generated user
  agreed : w.Agreed s

theorem secure_start : w.Secure Net.start where
  sent := by
    rintro user _ ⟨message, hmessage, _⟩
    exact absurd hmessage List.not_mem_nil
  agreed := fun login hlogin => absurd hlogin List.not_mem_nil

/-- What a message adds to what is seen. -/
theorem World.Secure.cons {s : Net} {generated : List Request} {message : String}
    (h : w.Secure s) (hsub : ∀ user, Sent s.generated user → Sent generated user)
    (hmessage : ∀ token ∈ tokens '$' message, ∀ user ∈ w.users,
      w.cr.decode token = some (hashPswBytes w.cr user.id user.password) → Sent generated user) :
    ∀ user ∈ w.users, Shows w.cr (message :: s.seen) (hashPswBytes w.cr user.id user.password) →
      Sent generated user := by
  intro user huser hshows
  rcases shows_cons.mp hshows with ⟨token, htoken, hdecode⟩ | hshows
  · exact hmessage token htoken user huser hdecode
  · exact hsub user (h.sent user huser hshows)

/-- A field of a message that the attacker can write gives away a user only if it was sent. -/
theorem World.Secure.writable {s : Net} {message token : String} {user : User} (h : w.Secure s)
    (hmessage : w.Writable s message) (htoken : token ∈ tokens '$' message) (huser : user ∈ w.users)
    (hdecode : w.cr.decode token = some (hashPswBytes w.cr user.id user.password)) :
    Sent s.generated user := h.sent user huser (hmessage token htoken user huser hdecode)

theorem secure_nonce (ideal : Ideal w) {s : Net} (h : w.Secure s) : w.Secure (w.step s .start) where
  sent := by
    refine World.Secure.cons (s := { s with
      seen := coreIdPswLogInStartRequestMsgGenProcess :: s.seen }) ⟨?_, h.agreed⟩ (fun _ h => h) ?_
    · refine h.cons (fun _ h => h) ?_
      intro token htoken user _ hdecode
      obtain rfl : token = moaCORE_IdPswLogInStartReq_STR := by
        rw [coreIdPswLogInStartRequestMsgGenProcess,
          tokens_constant (show moaCORE_IdPswLogInStartReq_STR ∈ constants by decide)] at htoken
        exact List.mem_singleton.mp htoken
      exact absurd hdecode (ideal.constant (by decide) _ _)
    · intro token htoken user _ hdecode
      rw [coreIdPswLoginStartResponseMsgGenProcess, tokens_join, List.mem_append,
        tokens_constant (show moaCORE_IdPswLogInSTartRes_STR ∈ constants by decide),
        List.mem_singleton] at htoken
      rcases htoken with rfl | htoken
      · exact absurd hdecode (ideal.constant (by decide) _ _)
      · rw [ideal.decode_token htoken] at hdecode
        exact absurd (Option.some.inj hdecode) (ideal.nonce_ne _ _)
  agreed := h.agreed

theorem secure_request (ideal : Ideal w) {s : Net} (h : w.Secure s) {id password response : String}
    {manager : Bool} (hresponse : w.Writable s response) :
    w.Secure (w.step s (.request id password response manager)) := by
  cases hnonce : coreAuthClientMsgPacketParser response with
  | none =>
    rw [World.step, hnonce]
    exact h
  | some nonce =>
    rw [World.step, hnonce]
    refine ⟨?_, ?_⟩
    · refine h.cons (fun user hsent => hsent.cons _) ?_
      intro token htoken user huser hdecode
      rcases mem_tokens_request htoken with rfl | rfl | htoken | htoken | htoken | htoken
      · exact absurd hdecode (ideal.constant (by decide) _ _)
      · exact absurd hdecode (ideal.constant (by decide) _ _)
      · rw [ideal.decode_token htoken] at hdecode
        exact absurd (Option.some.inj hdecode) (ideal.text_ne _ _)
      · -- the hash that the client sends
        rw [ideal.decode_token htoken] at hdecode
        exact ⟨_, List.mem_cons_self, ideal.hashPsw huser (Option.some.inj hdecode)⟩
      · rw [ideal.decode_token htoken] at hdecode
        exact absurd (Option.some.inj hdecode) (ideal.hmac_ne _ _ _)
      · cases nonce with
        | none =>
          rw [Option.getD_none, tokens_constant (show "null" ∈ constants by decide),
            List.mem_singleton] at htoken
          exact absurd (htoken ▸ hdecode) (ideal.constant (by decide) _ _)
        | some nonce =>
          exact (h.writable hresponse (mem_tokens_nonce hnonce htoken) huser hdecode).cons _
    · intro login hlogin
      obtain ⟨user, huser, hid, hmem⟩ := h.agreed login hlogin
      exact ⟨user, huser, hid, List.mem_cons_of_mem _ hmem⟩

/-- An accepted login request is for a user for whom a client has generated a request. -/
theorem generated_of_accepted (ideal : Ideal w) {s : Net} (h : w.Secure s) {n : Nat}
    {nonce message header : String} {fields : List String} {login : String × String}
    (hwritable : w.Writable s message) (hmessage : tokens '$' message = header :: fields)
    (hheader : toUpperCase header ∉ unverified)
    (haccepted : franchiseLogin w.cr w.db (w.saltGen n) nonce message = some login) :
    login.2 = "0x6030" ∧ ∃ user ∈ w.users, user.id = login.1 ∧ Sent s.generated user ∧
      ∃ id hashPsw hmacPsw more, fields = id :: hashPsw :: hmacPsw :: nonce :: more ∧
        Request.Carried w.cr ⟨user.id, user.password, nonce⟩ id hashPsw hmacPsw := by
  obtain ⟨hsf, id, hashPsw, hmacPsw, more, rfl, user, huser, hname, hcarried⟩ :=
    accepted_fields ideal rfl hmessage hheader haccepted
  have htoken : hashPsw ∈ tokens '$' message := by
    rw [hmessage]
    simp
  exact ⟨hsf, user, huser, hname, h.writable hwritable htoken huser hcarried.2.1, id, hashPsw,
    hmacPsw, more, rfl, hcarried⟩

/-- A message whose fields are not mixed shows that the user's request was generated for its
nonce. -/
theorem generated_for_nonce (ideal : Ideal w) {s : Net} {session : Nat} {user : User}
    {nonce id hashPsw hmacPsw : String} {more : List String} (huser : user ∈ w.users)
    (hsent : Sent s.generated user) (hnonce : s.nonces[session]? = some nonce)
    (hcarried : Request.Carried w.cr ⟨user.id, user.password, nonce⟩ id hashPsw hmacPsw)
    (hmatching : w.Matching s session (id :: hashPsw :: hmacPsw :: nonce :: more)) :
    ⟨user.id, user.password, nonce⟩ ∈ s.generated := by
  obtain ⟨r, hr, hid, hpassword⟩ := hsent
  have hcarries : r.Carried w.cr id hashPsw hmacPsw := by
    rw [Request.Carried, hid, hpassword]
    exact hcarried
  obtain ⟨r', hr', hcarried', rfl⟩ := hmatching hnonce ⟨r, hr, hcarries⟩
  have hhash := Option.some.inj (hcarried'.2.1.symm.trans hcarried.2.1)
  obtain ⟨hid', hpassword'⟩ := ideal.hashPsw huser hhash
  rw [← hid', ← hpassword']
  exact hr'

theorem secure_login (ideal : Ideal w) {s : Net} (h : w.Secure s) {session : Nat} {message : String}
    (hpossible : w.Writable s message) (hunmixed : w.Unmixed s (.login session message)) :
    w.Secure (w.step s (.login session message)) := by
  unfold World.step
  simp only
  split
  · exact h
  next nonce hnonce =>
    split
    · exact h
    next id sf haccepted =>
      cases hmessage : tokens '$' message with
      | nil =>
        obtain ⟨_, _, _, _, _, hparsed, _⟩ := franchiseLogin_accepted ideal haccepted
        rw [coreAuthServerMsgPacketParser, hmessage] at hparsed
        cases hparsed
      | cons header fields =>
        obtain ⟨hheader, hunmixed⟩ := hunmixed
        rw [hmessage] at hheader hunmixed
        obtain ⟨rfl, user, huser, rfl, hsent, id, hashPsw, hmacPsw, more, rfl, hcarried⟩ :=
          generated_of_accepted ideal h hpossible hmessage (hheader header rfl) haccepted
        have hgenerated : ⟨user.id, user.password, nonce⟩ ∈ s.generated :=
          generated_for_nonce ideal huser hsent hnonce hcarried hunmixed
        refine ⟨?_, ?_⟩
        · refine h.cons (fun _ h => h) ?_
          intro token htoken user _ hdecode
          exact absurd hdecode (ideal.constant (constant_of_loginResponse htoken) _ _)
        · intro login hlogin
          rcases List.mem_cons.mp hlogin with rfl | hlogin
          · exact ⟨user, huser, rfl, hgenerated⟩
          · exact h.agreed login hlogin

theorem secure_step (ideal : Ideal w) (s : Net) (l : Step) (h : w.Secure s)
    (hl : w.Possible s l ∧ w.Unmixed s l) : w.Secure (w.step s l) := by
  cases l with
  | start => exact secure_nonce ideal h
  | request => exact secure_request ideal h hl.1
  | login => exact secure_login ideal h hl.1 hl.2

/-- **Login agreement.** -/
theorem login_agreement (w : World) (ideal : Ideal w) (steps : List Step)
    (h : StepRun.Along w.step (fun s l => w.Possible s l ∧ w.Unmixed s l) Net.start steps) :
    w.Agreed (StepRun.run w.step Net.start steps) :=
  (StepRun.invariant_run w.step (secure_step ideal) secure_start h).agreed

/-! ## A replay -/

/-- A length, below 255 one byte. -/
def lengthBytes (n : Nat) : List UInt8 :=
  List.replicate (n / 255) 255 ++ [UInt8.ofNat (n % 255)]

/-- A concatenation that determines its parts. -/
def tagged (x y : List UInt8) : List UInt8 := lengthBytes x.length ++ (x ++ y)

theorem toNat_lengthByte (n : Nat) : (UInt8.ofNat (n % 255)).toNat = n % 255 := by
  rw [UInt8.toNat_ofNat']
  omega

theorem takeWhile_lengthBytes (n : Nat) (x : List UInt8) :
    (lengthBytes n ++ x).takeWhile (fun b => b = 255) = List.replicate (n / 255) 255 := by
  have hlast : UInt8.ofNat (n % 255) ≠ 255 := by
    intro h
    have hnat : n % 255 = 255 := by rw [← toNat_lengthByte, h]; rfl
    omega
  simp [lengthBytes, hlast]

theorem head_lengthBytes (n : Nat) (x : List UInt8) :
    (lengthBytes n ++ x).head? = some (if n < 255 then UInt8.ofNat n else 255) := by
  unfold lengthBytes
  split
  next h => rw [Nat.div_eq_of_lt h, Nat.mod_eq_of_lt h]; rfl
  next h =>
    obtain ⟨k, hk⟩ : ∃ k, n / 255 = k + 1 := ⟨n / 255 - 1, by omega⟩
    rw [hk]
    rfl

theorem tagged_injective {x y x' y' : List UInt8} (h : tagged x y = tagged x' y') :
    x = x' ∧ y = y' := by
  have hfull : x.length / 255 = x'.length / 255 := by
    have htake := congrArg (List.takeWhile fun b => b = 255) h
    rw [tagged, tagged, takeWhile_lengthBytes, takeWhile_lengthBytes] at htake
    simpa using congrArg List.length htake
  rw [tagged, tagged, lengthBytes, lengthBytes, hfull, List.append_assoc, List.append_assoc] at h
  obtain ⟨hlast, hrest⟩ := List.cons.inj (List.append_cancel_left h)
  have hrem : x.length % 255 = x'.length % 255 := by
    rw [← toNat_lengthByte, hlast, toNat_lengthByte]
  exact List.append_inj hrest (by omega)

/-- Digests and ciphers as terms over their arguments, digests filled up to the length of a key. -/
def termCrypto : Crypto where
  HashDigest x := 255 :: tagged x (List.replicate (14 - x.length) 0)
  HmacDigest x k := 254 :: tagged x k
  strongHmacDigest x k := tagged x k
  SymmetricEncryptData k x := tagged x k
  toBase64String := Java.Base64.encode
  decode := Java.Base64.decode
  newString bytes := String.ofList (bytes.map fun b => Char.ofNat b.toNat)
  newStringUTF8 bytes := String.ofList (bytes.map fun b => Char.ofNat b.toNat)
  length_HashDigest x := by
    simp only [tagged, lengthBytes, List.length_cons, List.length_append, List.length_replicate,
      List.length_nil]
    omega

/-- One user, `ann`. -/
def annsWorld : World where
  cr := termCrypto
  users := [⟨"ann", "pw", "Ag=="⟩]
  nonceOTP n := List.replicate (n + 1) 7
  saltGen n := List.replicate (n + 1) 8

theorem annsWorld_ideal : Ideal annsWorld where
  hash _ _ h := (tagged_injective (List.cons.inj h).2).1
  key := by
    intro user huser id h
    obtain rfl := List.mem_singleton.mp huser
    apply utf8_injective
    have hann : utf8 "ann" = [97, 110, 110] := by decide
    simp only [annsWorld, termCrypto, hann] at h ⊢
    rw [List.take_succ_cons, List.take_succ_cons, tagged, tagged] at h
    have hbytes := (List.cons.inj h).2
    -- the length of the id stands in front
    have hlen : (utf8 id).length = 3 := by
      have hhead := congrArg List.head? hbytes
      simp only [List.head?_take, head_lengthBytes, List.length_cons, List.length_nil] at hhead
      by_cases hshort : (utf8 id).length < 255
      · have hbyte : UInt8.ofNat (utf8 id).length = 3 := by simpa [hshort] using hhead
        have hnat : (utf8 id).length % 2 ^ 8 = 3 := by rw [← UInt8.toNat_ofNat', hbyte]; rfl
        omega
      · simp [hshort] at hhead
    obtain ⟨a, b, c, habc⟩ := List.length_eq_three.mp hlen
    simpa [habc, lengthBytes] using hbytes
  cipher _ _ _ _ h := (tagged_injective h).symm
  strongHmac _ _ _ _ h := tagged_injective h
  hmac_ne _ _ _ h := absurd (List.cons.inj h).1 (by decide)
  text_ne s _ := utf8_ne_cons s _
  nonce_ne _ _ h := absurd (List.cons.inj h).1 (by decide)
  salt_ne _ _ h := absurd (List.cons.inj h).1 (by decide)
  constant_ne c hc y h := by
    have hall : ∀ c ∈ constants, (Java.Base64.decode c).bind List.head? ≠ some 255 := by
      decide +kernel
    apply hall c hc
    rw [show Java.Base64.decode c = some (termCrypto.HashDigest y) from h]
    rfl
  fresh m n h := by simpa [annsWorld] using congrArg List.length h
  decode := Java.Base64.decode_encode
  base64 := Java.Base64.not_mem_encode (by decide)

def annsNonce (n : Nat) : String := Java.Base64.encode (annsWorld.nonceOTP n)

def annsRequest : String :=
  coreIdPswLogInRequestMsgGenProcess termCrypto "ann" "pw" (annsNonce 0) false

/-- The client answers the first nonce. -/
def annsAnswer : List Step :=
  [.start,
    .request "ann" "pw" (coreIdPswLoginStartResponseMsgGenProcess (annsNonce 0)) false]

theorem login_agreement_ann :
    (StepRun.run annsWorld.step Net.start (annsAnswer ++ [.login 0 annsRequest])).accepted =
        [("ann", annsNonce 0)] ∧
      annsWorld.Agreed (StepRun.run annsWorld.step Net.start (annsAnswer ++ [.login 0 annsRequest])) :=
  ⟨by decide +kernel, login_agreement annsWorld annsWorld_ideal _ (by decide +kernel)⟩

/-- The server issues a second nonce, and receives it behind the fields of the client's request. -/
def annsReplay : List Step := annsAnswer ++
  [.start, .login 1 (String.intercalate "$" ((tokens '$' annsRequest).take 4 ++ [annsNonce 1]))]

/-- **Replay.**  An attacker who has seen one request of a user is accepted as that user under a
nonce that no client has answered. -/
theorem login_replayed :
    Ideal annsWorld ∧ StepRun.Along annsWorld.step annsWorld.Possible Net.start annsReplay ∧
      (StepRun.run annsWorld.step Net.start annsReplay).generated =
        [⟨"ann", "pw", annsNonce 0⟩] ∧
      ¬ annsWorld.Agreed (StepRun.run annsWorld.step Net.start annsReplay) :=
  ⟨annsWorld_ideal, by decide +kernel⟩

end MoaCrypto.CoreAuth
