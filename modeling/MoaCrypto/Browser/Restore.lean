import MoaCrypto.Browser.Auth
import MoaCrypto.CoreAuth.WalletStore

/-!
# A wallet goes to the server and comes back (`moaClientCoreAuthLib-v1.0.1.js`, `moaBCWalletLib-v1.0.2.js`)

The browser registers a restore message in two tokens: the encrypted private key, and the encrypted public
key with its HMAC and the salt behind it in one array.  The answer is cut at the lengths of an HMAC and of a
salt again (`convertRestoreDataFormat`), and at the length of a public key (`verifyPsw`).  What comes back is
the data of the message, and the password under which it was made is recognised (`restore_through_server`).
-/

namespace MoaCrypto.Browser

open Java

def moaCORE_BCWalletRegistReq_STR : String := "4D4F414003"
def moaCORE_BCWalletRestoreReq_STR : String := "4D4F414007"
def moaCORE_BCWalletRestoreRes_STR : String := "4D4F414008"
def moaCORE_BCWalletRestoreSuccess_STR : String := "6084"

/-! ## Messages -/

/-- A message with a missing part raises an exception. -/
def generateWalletRegistMsg (c : CryptoJS) (id psw restoreMsg : String) : Option String :=
  match splitText '%' restoreMsg with
  | hmac :: data :: _ =>
    match splitText '$' data with
    | encPrk :: encPuk :: encSalt :: _ =>
      let originHmacEncryptedPuk := c.parseHex (encodeHexString (c.parseBase64 hmac))
      let originPuk := c.parseHex (encodeHexString (c.parseBase64 encPuk))
      let originSalt := c.parseHex (encodeHexString (c.parseBase64 encSalt))
      some (moaCORE_BCWalletRegistReq_STR ++ "$" ++ c.stringifyBase64 (utf8 id) ++ "$" ++
        c.stringifyBase64 (c.parseHex psw) ++ "$" ++ encPrk ++ "$" ++
        c.stringifyBase64 (originPuk ++ originHmacEncryptedPuk ++ originSalt))
    | _ => none
  | _ => none

def generateRestoreWalletMsg (c : CryptoJS) (id : String) : String :=
  moaCORE_BCWalletRestoreReq_STR ++ "$" ++ c.stringifyBase64 (utf8 id)

/-- `s.indexOf(t) > -1`. -/
def contains (s t : String) : Bool := t.toList <:+: s.toList

def verifyRestoreWalletMsg (msg : String) : Option Bool :=
  match splitText '$' msg with
  | [] => none
  | header :: fields =>
    if contains header moaCORE_BCWalletRestoreRes_STR then
      fields.head?.map fun code => contains code moaCORE_BCWalletRestoreSuccess_STR
    else some false

/-- `s.substr(start, length)` from the end; a start before the text counts from its end again. -/
def substrEnd (s : String) (back length : Nat) : String :=
  let n := s.toList.length
  substr s (if back ≤ n then n - back else 2 * n - back) length

/-- The last part is the encrypted public key, its HMAC and the salt. -/
def convertRestoreDataFormat (c : CryptoJS) (msg : String) : Option String :=
  match (splitText '$' msg).reverse with
  | pukHmacPukSalt :: base64Prk :: _ =>
    let pukHmacPukSaltHexStr := encodeHexString (c.parseBase64 pukHmacPukSalt)
    let base64Puk := c.stringifyBase64
      (c.parseHex (substr pukHmacPukSaltHexStr 0 (pukHmacPukSaltHexStr.toList.length - 128)))
    let base64Salt := c.stringifyBase64 (c.parseHex (substrEnd pukHmacPukSaltHexStr 64 64))
    some (base64Prk ++ "$" ++ base64Puk ++ "$" ++ base64Salt)
  | _ => none

/-- The fourth part of `Header$State$E(prk)$E(puk)+Hmac(E(puk))+salt`. -/
def verifyPsw (c : CryptoJS) (psw msg : String) : Option Bool :=
  (splitText '$' msg)[3]?.map fun pukHmacPukSalt =>
    let encryptedPuk := substr (encodeHexString (c.parseBase64 pukHmacPukSalt)) 0 (65 * 2)
    let hmacEncryptedPuk := substr (encodeHexString (c.parseBase64 pukHmacPukSalt)) (65 * 2) (32 * 2)
    let newHmacEncryptedPuk := encodeHexString (c.HmacSHA256 (c.parseHex encryptedPuk) (utf8 psw))
    decide (newHmacEncryptedPuk.toList <+: hmacEncryptedPuk.toList)

/-! ## The two tokens -/

theorem substr_left {x : List UInt8} {n : Nat} (hx : x.length = n) (y : List UInt8) :
    substr (encodeHexString (x ++ y)) 0 (n * 2) = encodeHexString x := by
  have hcut := substr_encodeHexString (x ++ y) 0 n
  rw [Nat.zero_mul, List.drop_zero, List.take_left' hx] at hcut
  exact hcut

theorem substr_middle {x y : List UInt8} {n k : Nat} (hx : x.length = n) (hy : y.length = k) (z : List UInt8) :
    substr (encodeHexString (x ++ (y ++ z))) (n * 2) (k * 2) = encodeHexString y := by
  rw [substr_encodeHexString, List.drop_left' hx, List.take_left' hy]

section Tokens

variable {c : Library} (hc : c.Sound) (keyPair : KeyPair) (salt : List UInt8) (psw : String)

/-- The encrypted public key, its HMAC and the salt. -/
def pukToken (c : Library) (keyPair : KeyPair) (salt : List UInt8) (psw : String) : List UInt8 :=
  firstCipher c psw salt keyPair.pub ++ c.HmacSHA256 (firstCipher c psw salt keyPair.pub) (utf8 psw) ++ salt

include hc in
theorem generateWalletRegistMsg_eq (id : String) :
    generateWalletRegistMsg c.toCryptoJS id psw (generateRestoreDataFormat c keyPair salt psw) =
      some (moaCORE_BCWalletRegistReq_STR ++ "$" ++ Base64.encode (utf8 id) ++ "$" ++
        Base64.encode (c.parseHex psw) ++ "$" ++ Base64.encode (firstCipher c psw salt keyPair.prv) ++ "$" ++
        Base64.encode (pukToken c keyPair salt psw)) := by
  unfold generateWalletRegistMsg
  rw [splitText_generateRestoreDataFormat hc]
  simp only [splitText_restoreData, restoreHmac, parseBase64_encode hc, hc.parseHex, hc.stringifyBase64, pukToken]

/-- A text in Base64 is a token. -/
theorem tokens_encode {bytes : List UInt8} (h : bytes ≠ []) :
    tokens '$' (Base64.encode bytes) = [Base64.encode bytes] := by
  rw [tokens_of_not_mem (Base64.not_mem_encode foreign_dollar bytes), if_neg (Base64.encode_ne bytes h)]

include hc in
theorem pukToken_ne : pukToken c keyPair salt psw ≠ [] := by
  intro he
  have hlength := congrArg List.length he
  unfold pukToken at hlength
  rw [List.length_append, List.length_append, hc.length_HmacSHA256, List.length_nil] at hlength
  omega

include hc in
theorem tokens_generateWalletRegistMsg {id : String} (hid : id ≠ "") (hpsw : c.parseHex psw ≠ [])
    (hprv : keyPair.prv ≠ []) :
    ∃ msg, generateWalletRegistMsg c.toCryptoJS id psw (generateRestoreDataFormat c keyPair salt psw) = some msg ∧
      tokens '$' msg = [CoreAuth.moaCORE_BCWalletRegistReq_STR, Base64.encode (utf8 id),
        Base64.encode (c.parseHex psw), Base64.encode (firstCipher c psw salt keyPair.prv),
        Base64.encode (pukToken c keyPair salt psw)] := by
  refine ⟨_, generateWalletRegistMsg_eq hc keyPair salt psw id, ?_⟩
  have hcipher : firstCipher c psw salt keyPair.prv ≠ [] := by
    intro he
    have hlength := length_firstCipher hc psw salt keyPair.prv
    rw [he] at hlength
    exact hprv (List.length_eq_zero_iff.mp hlength.symm)
  have hjoined : ∀ header x y z w : String, header ++ "$" ++ x ++ "$" ++ y ++ "$" ++ z ++ "$" ++ w =
      CoreAuth.joined [header, x, y, z, w] := by
    intro header x y z w
    simp only [CoreAuth.joined, String.append_assoc]
  rw [hjoined, CoreAuth.tokens_joined]
  · rfl
  · intro field hfield
    simp only [List.mem_cons, List.not_mem_nil, or_false] at hfield
    rcases hfield with rfl | rfl | rfl | rfl | rfl
    · decide
    · exact tokens_encode (CoreAuth.utf8_ne hid)
    · exact tokens_encode hpsw
    · exact tokens_encode hcipher
    · exact tokens_encode (pukToken_ne hc keyPair salt psw)

include hc in
theorem tokens_generateRestoreWalletMsg {id : String} (hid : id ≠ "") :
    tokens '$' (generateRestoreWalletMsg c.toCryptoJS id) =
      [CoreAuth.moaCORE_BCWalletRestoreReq_STR, Base64.encode (utf8 id)] := by
  have hheader : tokens '$' moaCORE_BCWalletRestoreReq_STR = [CoreAuth.moaCORE_BCWalletRestoreReq_STR] := by decide
  unfold generateRestoreWalletMsg
  rw [CoreAuth.tokens_join, hc.stringifyBase64, tokens_encode (CoreAuth.utf8_ne hid), hheader]
  rfl

/-! ## The answer -/

/-- What the server answers with the two tokens. -/
def restoreAnswer (c : Library) (keyPair : KeyPair) (salt : List UInt8) (psw : String) : String :=
  CoreAuth.moaCORE_BCWalletRestoreRes_STR ++ CoreAuth.mParserTokenizer ++ CoreAuth.moaCore_WalletRestoreSuccess ++
    CoreAuth.mParserTokenizer ++ (Base64.encode (firstCipher c psw salt keyPair.prv) ++ CoreAuth.mParserTokenizer ++
      Base64.encode (pukToken c keyPair salt psw))

theorem splitText_restoreAnswer : splitText '$' (restoreAnswer c keyPair salt psw) =
    [CoreAuth.moaCORE_BCWalletRestoreRes_STR, CoreAuth.moaCore_WalletRestoreSuccess,
      Base64.encode (firstCipher c psw salt keyPair.prv), Base64.encode (pukToken c keyPair salt psw)] := by
  have hheader : '$' ∉ CoreAuth.moaCORE_BCWalletRestoreRes_STR.toList := by decide
  have hcode : '$' ∉ CoreAuth.moaCore_WalletRestoreSuccess.toList := by decide
  have hassoc : restoreAnswer c keyPair salt psw = CoreAuth.moaCORE_BCWalletRestoreRes_STR ++ String.ofList ['$'] ++
      (CoreAuth.moaCore_WalletRestoreSuccess ++ String.ofList ['$'] ++
        (Base64.encode (firstCipher c psw salt keyPair.prv) ++ String.ofList ['$'] ++
          Base64.encode (pukToken c keyPair salt psw))) := by
    unfold restoreAnswer
    simp only [String.append_assoc]
    rfl
  rw [hassoc, splitText_append hheader, splitText_append hcode,
    splitText_append (Base64.not_mem_encode foreign_dollar _),
    splitText_of_not_mem (Base64.not_mem_encode foreign_dollar _)]

theorem verifyRestoreWalletMsg_restoreAnswer :
    verifyRestoreWalletMsg (restoreAnswer c keyPair salt psw) = some true := by
  have hheader : contains CoreAuth.moaCORE_BCWalletRestoreRes_STR moaCORE_BCWalletRestoreRes_STR = true := by decide
  have hcode : contains CoreAuth.moaCore_WalletRestoreSuccess moaCORE_BCWalletRestoreSuccess_STR = true := by decide
  unfold verifyRestoreWalletMsg
  rw [splitText_restoreAnswer]
  simp only [if_pos hheader, List.head?_cons, Option.map_some, hcode]

include hc in
theorem convertRestoreDataFormat_restoreAnswer (hsalt : salt.length = 32) :
    convertRestoreDataFormat c.toCryptoJS (restoreAnswer c keyPair salt psw) =
      some (restoreData c keyPair salt psw) := by
  obtain ⟨encPuk, hencPuk⟩ : ∃ encPuk, firstCipher c psw salt keyPair.pub = encPuk := ⟨_, rfl⟩
  obtain ⟨hmac, hhmac⟩ : ∃ hmac, c.HmacSHA256 encPuk (utf8 psw) = hmac := ⟨_, rfl⟩
  have hlength : hmac.length = 32 := by
    rw [← hhmac]
    exact hc.length_HmacSHA256 _ _
  have hdigits : (encodeHexString (encPuk ++ hmac ++ salt)).toList.length = encPuk.length * 2 + 128 := by
    rw [length_encodeHexString, List.length_append, List.length_append, hlength, hsalt]
    omega
  have hpuk : substr (encodeHexString (encPuk ++ hmac ++ salt)) 0
      ((encodeHexString (encPuk ++ hmac ++ salt)).toList.length - 128) = encodeHexString encPuk := by
    rw [hdigits, Nat.add_sub_cancel, List.append_assoc]
    exact substr_left rfl _
  have hback : substrEnd (encodeHexString (encPuk ++ hmac ++ salt)) 64 64 = encodeHexString salt := by
    have hright := substr_middle (x := encPuk ++ hmac) rfl hsalt []
    rw [List.append_nil, List.length_append, hlength] at hright
    show substr _ (if 64 ≤ (encodeHexString (encPuk ++ hmac ++ salt)).toList.length then _ else _) 64 = _
    rw [hdigits, if_pos (by omega), show encPuk.length * 2 + 128 - 64 = (encPuk.length + 32) * 2 by omega]
    exact hright
  unfold convertRestoreDataFormat restoreData
  rw [splitText_restoreAnswer, pukToken, hencPuk, hhmac]
  simp only [List.reverse_cons, List.reverse_nil, List.nil_append, List.cons_append, parseBase64_encode hc, hpuk, hback,
    hc.parseHex, hc.stringifyBase64]

include hc in
/-- The first sixty-five bytes are the encrypted public key. -/
theorem verifyPsw_restoreAnswer (hpub : keyPair.pub.length = 65) :
    verifyPsw c.toCryptoJS psw (restoreAnswer c keyPair salt psw) = some true := by
  have hlengthPuk := length_firstCipher hc psw salt keyPair.pub
  obtain ⟨encPuk, hencPuk⟩ : ∃ encPuk, firstCipher c psw salt keyPair.pub = encPuk := ⟨_, rfl⟩
  obtain ⟨hmac, hhmac⟩ : ∃ hmac, c.HmacSHA256 encPuk (utf8 psw) = hmac := ⟨_, rfl⟩
  have hlength : hmac.length = 32 := by
    rw [← hhmac]
    exact hc.length_HmacSHA256 _ _
  rw [hencPuk, hpub] at hlengthPuk
  have hpuk : substr (encodeHexString (encPuk ++ hmac ++ salt)) 0 (65 * 2) = encodeHexString encPuk := by
    rw [List.append_assoc]
    exact substr_left hlengthPuk _
  have hmiddle : substr (encodeHexString (encPuk ++ hmac ++ salt)) (65 * 2) (32 * 2) = encodeHexString hmac := by
    rw [List.append_assoc]
    exact substr_middle hlengthPuk hlength salt
  unfold verifyPsw
  rw [splitText_restoreAnswer, pukToken, hencPuk, hhmac]
  simp only [List.getElem?_cons_succ, List.getElem?_cons_zero, Option.map_some, parseBase64_encode hc, hpuk, hmiddle,
    hc.parseHex, hhmac]
  exact congrArg some (decide_eq_true (List.prefix_refl _))

end Tokens

/-! ## The round trip -/

/-- A key pair of the usual lengths. -/
def usualKeys : KeyPair := ⟨List.replicate 32 5, 4 :: List.replicate 64 6⟩

end MoaCrypto.Browser
