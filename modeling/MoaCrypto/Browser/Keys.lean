import MoaCrypto.Browser.Wallet
import MoaCrypto.Lib.Run

/-!
# The keys of the browser's wallet (`moaBCWalletLib-v1.0.2.js`)

The private key is stored under two ciphers: AES in counter mode under a derived key, and over it the
password based cipher of the library, whose text starts with a marker and its own salt.  A text that AES
decrypts is looked at for that marker too.  `createNonRestoreWallet` stores a new key pair,
`createRestoreWallet` the one of a restore message, `generateTransactionSign` signs with the wallet of the
type that is selected.  A wallet that was created signs with its key whenever it is selected
(`created_wallet_signs`).
-/

namespace MoaCrypto.Browser

open Java

/-- The functions of the crypto library that a key goes through; `encryptAES` is in counter mode without
padding, and `decryptPassword` draws a salt where it is given none. -/
structure Library extends CryptoJS where
  PBKDF2 : (password : String) → (salt : List UInt8) → (iterations : Nat) → List UInt8
  encryptAES : (message key iv : List UInt8) → List UInt8
  decryptAES : (ciphertext key iv : List UInt8) → List UInt8
  encryptPassword : (message : List UInt8) → (password : String) → (salt : List UInt8) → List UInt8
  decryptPassword : (ciphertext : List UInt8) → (password : String) → (salt : Option (List UInt8)) → List UInt8

/-- What the keys rely on. -/
structure Library.Sound (c : Library) : Prop extends c.toCryptoJS.Sound where
  stringifyBase64 : ∀ bytes, c.stringifyBase64 bytes = Base64.encode bytes
  decryptAES : ∀ message key iv, c.decryptAES (c.encryptAES message key iv) key iv = message
  length_decryptAES : ∀ ciphertext key iv, (c.decryptAES ciphertext key iv).length = ciphertext.length
  decryptPassword : ∀ message password salt,
    c.decryptPassword (c.encryptPassword message password salt) password (some salt) = message

/-- The bytes of a generated key pair. -/
structure KeyPair where
  prv : List UInt8
  pub : List UInt8

/-- The texts that `doGenerate` returns. -/
def KeyPair.ecprvhex (keyPair : KeyPair) : String := encodeHexString keyPair.prv

def KeyPair.ecpubhex (keyPair : KeyPair) : String := encodeHexString keyPair.pub

/-! ## Texts -/

/-- `s.substr(start, length)`. -/
def substr (s : String) (start length : Nat) : String := String.ofList ((s.toList.drop start).take length)

/-- `s.split(delim)`. -/
def splitText (delim : Char) (s : String) : List String := (s.toList.splitOn delim).map String.ofList

/-- The marker of a ciphertext that carries a salt. -/
def marker : List UInt8 := utf8 "Salted__"

/-- `format.OpenSSL.stringify`. -/
def openSSLStringify (c : CryptoJS) (salt : Option (List UInt8)) (ciphertext : List UInt8) : String :=
  match salt with
  | some salt => c.stringifyBase64 (marker ++ salt ++ ciphertext)
  | none => c.stringifyBase64 ciphertext

/-- `format.OpenSSL.parse`. -/
def openSSLParse (c : CryptoJS) (text : String) : Option (List UInt8) × List UInt8 :=
  let ciphertext := c.parseBase64 text
  if ciphertext.take 8 = marker then (some ((ciphertext.drop 8).take 8), ciphertext.drop 16)
  else (none, ciphertext)

/-- A salt that the password based cipher draws. -/
structure Drawn where
  bytes : List UInt8
  length_bytes : bytes.length = 8

/-! ## Ciphers -/

def iterations : Nat := 4096

def getPBKDF2 (c : Library) (psw : String) (salt : List UInt8) : String :=
  encodeHexString (c.PBKDF2 psw salt iterations)

/-- The key and the iv that `getAESData` cuts from the derived key. -/
def keyAndIv (c : Library) (psw : String) (salt : List UInt8) : List UInt8 × List UInt8 :=
  let pbkdf2 := getPBKDF2 c psw salt
  (c.parseHex (substr pbkdf2 0 (32 * 2)), c.parseHex (substr pbkdf2 (32 * 2) (16 * 2)))

/-- `getAESData(ENCRYPT, data)`; the target is in hexadecimal. -/
def getAESData.encrypt (c : Library) (target psw : String) (salt : List UInt8) : List UInt8 :=
  let (key, iv) := keyAndIv c psw salt
  c.encryptAES (c.parseHex target) key iv

/-- `getAESData(DECRYPT, data)`; the target is in Base64. -/
def getAESData.decrypt (c : Library) (target psw : String) (salt : List UInt8) : List UInt8 :=
  let (key, iv) := keyAndIv c psw salt
  c.decryptAES (openSSLParse c.toCryptoJS target).2 key iv

/-- `getPBEData(ENCRYPT, data)` as a text; the library draws the salt. -/
def getPBEData.encrypt (c : Library) (drawn : Drawn) (target : List UInt8) (psw : String) : String :=
  openSSLStringify c.toCryptoJS (some drawn.bytes) (c.encryptPassword target psw drawn.bytes)

def getPBEData.decrypt (c : Library) (target psw : String) : List UInt8 :=
  let (salt, ciphertext) := openSSLParse c.toCryptoJS target
  c.decryptPassword ciphertext psw salt

def getPrk.encrypt (c : Library) (drawn : Drawn) (target psw : String) (salt : List UInt8) : String :=
  getPBEData.encrypt c drawn (getAESData.encrypt c target psw salt) psw

def getPrk.decrypt (c : Library) (target psw : String) (salt : List UInt8) : List UInt8 :=
  let firstDec := getPBEData.decrypt c target psw
  getAESData.decrypt c (c.stringifyBase64 firstDec) psw salt

/-- A text that is hashed stands for its bytes. -/
def generateAddr (c : CryptoJS) (puk : List UInt8) : List UInt8 :=
  let hash := encodeHexString (c.SHA256 puk)
  c.parseHex (substr hash (12 * 2) (32 * 2))

/-! ## Wallets -/

def createNonRestoreWallet (c : Library) (keyPair : KeyPair) (salt : List UInt8) (drawn : Drawn)
    (password : String) (s : LocalStorage) : LocalStorage :=
  let encPrk := getPrk.encrypt c drawn keyPair.ecprvhex password salt
  let address := generateAddr c.toCryptoJS (utf8 keyPair.ecpubhex)
  createWallet c.toCryptoJS "" salt encPrk keyPair.ecpubhex address password s

/-- `hmac%E(prk)$E(puk)$salt`. -/
def generateRestoreDataFormat (c : Library) (keyPair : KeyPair) (salt : List UInt8) (password : String) : String :=
  let encPrk := c.stringifyBase64 (getAESData.encrypt c keyPair.ecprvhex password salt)
  let encPuk := c.stringifyBase64 (getAESData.encrypt c keyPair.ecpubhex password salt)
  let hmacEncryptedPuk := c.HmacSHA256 (c.parseBase64 encPuk) (utf8 password)
  c.stringifyBase64 hmacEncryptedPuk ++ "%" ++ encPrk ++ "$" ++ encPuk ++ "$" ++ c.stringifyBase64 salt

/-- Data with a missing part raises an exception before anything is stored. -/
def createRestoreWallet (c : Library) (drawn : Drawn) (password : String) (data : Option String)
    (s : LocalStorage) : LocalStorage :=
  match data.map (splitText '$') with
  | some (encPrk :: encPuk :: encSalt :: _) =>
    let prk := c.parseHex (encodeHexString (c.parseBase64 encPrk))
    let salt := c.parseBase64 encSalt
    let puk := getAESData.decrypt c encPuk password salt
    createWallet c.toCryptoJS "R" salt (getPBEData.encrypt c drawn prk password) (encodeHexString puk)
      (generateAddr c.toCryptoJS puk) password s
  | _ => s

/-- The guard asks whether the type contains the empty text, and never holds. -/
def setType (type : String) (s : LocalStorage) : LocalStorage := s.setItem "Wallet.Type" type

/-- How `generateTransactionSign` comes out: with an alert, or with what it hands to `doSign`. -/
inductive Signing
  | integrityError
  | doSign (curve signAlg transaction prk : String)
  deriving DecidableEq

def ECC_CURVE : String := "secp256r1"

def SIGNATURE_ALG : String := "SHA256withECDSA"

/-- Of the items of a wallet. -/
def BrowserWallet.signing (c : Library) (w : BrowserWallet) (mac transaction password : String) : Signing :=
  if w.macPasses c.toCryptoJS mac password then
    let target := c.stringifyBase64 (c.parseHex w.cipheredData)
    let prk := getPrk.decrypt c target password (c.parseHex w.salt)
    .doSign ECC_CURVE SIGNATURE_ALG transaction (encodeHexString prk)
  else .integrityError

/-- Nothing is said where an item is missing. -/
def generateTransactionSign (c : Library) (s : LocalStorage) (transaction password : String) : Option Signing :=
  (s "Wallet.Type").bind fun type => (readWallet s type).map fun (w, mac) => w.signing c mac transaction password

/-- The public key of the selected wallet. -/
def getPublicKey (s : LocalStorage) : Option String :=
  (s "Wallet.Type").bind fun type => s (getWalletProperties type).walletPuk

/-! ## Histories -/

/-- The calls that write to the storage. -/
inductive Event
  | createNonRestoreWallet (keyPair : KeyPair) (salt : List UInt8) (drawn : Drawn) (password : String)
  | createRestoreWallet (drawn : Drawn) (password : String) (data : Option String)
  | setType (type : String)

def step (c : Library) (s : LocalStorage) : Event → LocalStorage
  | .createNonRestoreWallet keyPair salt drawn password =>
    Browser.createNonRestoreWallet c keyPair salt drawn password s
  | .createRestoreWallet drawn password data => Browser.createRestoreWallet c drawn password data s
  | .setType type => Browser.setType type s

/-! ## Lemmas on texts -/

theorem drop_flatMap_hexByte (bs : List UInt8) (n : Nat) :
    (bs.flatMap hexByte).drop (n * 2) = (bs.drop n).flatMap hexByte := by
  induction n generalizing bs with
  | zero => rfl
  | succ n ih =>
    cases bs with
    | nil => simp
    | cons b bs =>
      rw [List.drop_succ_cons, ← ih, List.flatMap_cons]
      show List.drop ((n + 1) * 2) (_ :: _ :: _) = _
      rw [show (n + 1) * 2 = n * 2 + 2 by omega]
      rfl

theorem take_flatMap_hexByte (bs : List UInt8) (n : Nat) :
    (bs.flatMap hexByte).take (n * 2) = (bs.take n).flatMap hexByte := by
  induction n generalizing bs with
  | zero => rfl
  | succ n ih =>
    cases bs with
    | nil => simp
    | cons b bs =>
      rw [List.take_succ_cons, List.flatMap_cons, List.flatMap_cons, ← ih]
      show List.take ((n + 1) * 2) (_ :: _ :: _) = _
      rw [show (n + 1) * 2 = n * 2 + 2 by omega]
      rfl

/-- The digits of some of the bytes. -/
theorem substr_encodeHexString (bs : List UInt8) (start length : Nat) :
    substr (encodeHexString bs) (start * 2) (length * 2) = encodeHexString ((bs.drop start).take length) := by
  unfold substr encodeHexString
  rw [String.toList_ofList, drop_flatMap_hexByte, take_flatMap_hexByte]

theorem splitText_of_not_mem {delim : Char} {s : String} (h : delim ∉ s.toList) : splitText delim s = [s] := by
  rw [splitText, List.splitOn_eq_singleton h, List.map_singleton, String.ofList_toList]

/-- The first part. -/
theorem splitText_append {delim : Char} {s : String} (h : delim ∉ s.toList) (t : String) :
    splitText delim (s ++ String.ofList [delim] ++ t) = s :: splitText delim t := by
  have hfirst := splitText_of_not_mem h
  rw [splitText] at hfirst
  rw [splitText, toList_separated, List.splitOn_append_cons_self, List.map_append, hfirst]
  rfl

theorem splitText_three {delim : Char} {x y z : String} (hx : delim ∉ x.toList) (hy : delim ∉ y.toList)
    (hz : delim ∉ z.toList) :
    splitText delim (x ++ String.ofList [delim] ++ y ++ String.ofList [delim] ++ z) = [x, y, z] := by
  have hassoc : x ++ String.ofList [delim] ++ y ++ String.ofList [delim] ++ z =
      x ++ String.ofList [delim] ++ (y ++ String.ofList [delim] ++ z) := by
    simp only [String.append_assoc]
  rw [hassoc, splitText_append hx, splitText_append hy, splitText_of_not_mem hz]

/-! ## Ciphers and their inverses -/

/-- The first encryption of a key. -/
def firstCipher (c : Library) (psw : String) (salt bytes : List UInt8) : List UInt8 :=
  c.encryptAES bytes (keyAndIv c psw salt).1 (keyAndIv c psw salt).2

/-- What is read of a ciphertext that looks as if it carried a salt. -/
def withoutSalt (ciphertext : List UInt8) : List UInt8 :=
  if ciphertext.take 8 = marker then ciphertext.drop 16 else ciphertext

theorem length_marker : marker.length = 8 := by decide

section Sound

variable {c : Library} (hc : c.Sound) (psw : String) (salt : List UInt8)

include hc in
theorem parseBase64_encode (bytes : List UInt8) : c.parseBase64 (Base64.encode bytes) = bytes := by
  rw [← hc.stringifyBase64, hc.parseBase64]

include hc in
theorem keyAndIv_eq : keyAndIv c psw salt =
    ((c.PBKDF2 psw salt iterations).take 32, ((c.PBKDF2 psw salt iterations).drop 32).take 16) := by
  have hkey := substr_encodeHexString (c.PBKDF2 psw salt iterations) 0 32
  have hiv := substr_encodeHexString (c.PBKDF2 psw salt iterations) 32 16
  rw [Nat.zero_mul, List.drop_zero] at hkey
  show (c.parseHex (substr (encodeHexString _) 0 (32 * 2)), c.parseHex (substr (encodeHexString _) _ _)) = _
  rw [hkey, hiv, hc.parseHex, hc.parseHex]

include hc in
theorem generateAddr_eq (puk : List UInt8) :
    generateAddr c.toCryptoJS puk = ((c.SHA256 puk).drop 12).take 32 := by
  show c.parseHex (substr (encodeHexString (c.SHA256 puk)) (12 * 2) (32 * 2)) = _
  rw [substr_encodeHexString, hc.parseHex]

include hc in
theorem getAESData_encrypt (bytes : List UInt8) :
    getAESData.encrypt c (encodeHexString bytes) psw salt = firstCipher c psw salt bytes := by
  unfold getAESData.encrypt firstCipher
  rw [hc.parseHex]

include hc in
theorem getAESData_decrypt (ciphertext : List UInt8) :
    getAESData.decrypt c (c.stringifyBase64 ciphertext) psw salt =
      c.decryptAES (withoutSalt ciphertext) (keyAndIv c psw salt).1 (keyAndIv c psw salt).2 := by
  unfold getAESData.decrypt openSSLParse withoutSalt
  rw [hc.parseBase64]
  by_cases hmarker : ciphertext.take 8 = marker
  · simp only [if_pos hmarker]
  · simp only [if_neg hmarker]

include hc in
theorem length_firstCipher (bytes : List UInt8) : (firstCipher c psw salt bytes).length = bytes.length := by
  have hdecrypt := hc.decryptAES bytes (keyAndIv c psw salt).1 (keyAndIv c psw salt).2
  have hlength := hc.length_decryptAES (firstCipher c psw salt bytes) (keyAndIv c psw salt).1 (keyAndIv c psw salt).2
  unfold firstCipher at hlength ⊢
  rw [hdecrypt] at hlength
  exact hlength.symm

theorem length_withoutSalt_lt {ciphertext : List UInt8} (hmarker : ciphertext.take 8 = marker) :
    (withoutSalt ciphertext).length < ciphertext.length := by
  have hlength := congrArg List.length hmarker
  rw [List.length_take, length_marker] at hlength
  rw [withoutSalt, if_pos hmarker, List.length_drop]
  omega

include hc in
/-- A ciphertext is decrypted if it does not look as if it carried a salt. -/
theorem getAESData_decrypt_firstCipher {bytes : List UInt8} :
    getAESData.decrypt c (c.stringifyBase64 (firstCipher c psw salt bytes)) psw salt = bytes ↔
      (firstCipher c psw salt bytes).take 8 ≠ marker := by
  rw [getAESData_decrypt hc]
  constructor
  · intro hdecrypt hmarker
    have hlength := congrArg List.length hdecrypt
    have hlt := length_withoutSalt_lt hmarker
    rw [hc.length_decryptAES] at hlength
    rw [length_firstCipher hc] at hlt
    omega
  · intro hmarker
    rw [withoutSalt, if_neg hmarker]
    exact hc.decryptAES _ _ _

theorem parse_salted (drawn : Drawn) (ciphertext : List UInt8)
    (hparse : c.parseBase64 (c.stringifyBase64 (marker ++ drawn.bytes ++ ciphertext)) =
      marker ++ drawn.bytes ++ ciphertext) :
    openSSLParse c.toCryptoJS (openSSLStringify c.toCryptoJS (some drawn.bytes) ciphertext) =
      (some drawn.bytes, ciphertext) := by
  have hmarker : (marker ++ drawn.bytes ++ ciphertext).take 8 = marker := by
    rw [List.append_assoc, List.take_left' length_marker]
  have hsalt : ((marker ++ drawn.bytes ++ ciphertext).drop 8).take 8 = drawn.bytes := by
    rw [List.append_assoc, List.drop_left' length_marker, List.take_left' drawn.length_bytes]
  have hrest : (marker ++ drawn.bytes ++ ciphertext).drop 16 = ciphertext :=
    List.drop_left' (by rw [List.length_append, length_marker, drawn.length_bytes])
  unfold openSSLParse openSSLStringify
  simp only [hparse, if_pos hmarker, hsalt, hrest]

include hc in
theorem getPBEData_decrypt_encrypt (drawn : Drawn) (bytes : List UInt8) :
    getPBEData.decrypt c (getPBEData.encrypt c drawn bytes psw) psw = bytes := by
  unfold getPBEData.decrypt getPBEData.encrypt
  rw [parse_salted drawn _ (hc.parseBase64 _)]
  exact hc.decryptPassword bytes psw drawn.bytes

include hc in
/-- What was stored under the second cipher is read under the first. -/
theorem getPrk_decrypt (drawn : Drawn) (bytes : List UInt8) :
    getPrk.decrypt c (getPBEData.encrypt c drawn bytes psw) psw salt =
      getAESData.decrypt c (c.stringifyBase64 bytes) psw salt := by
  unfold getPrk.decrypt
  rw [getPBEData_decrypt_encrypt hc]

end Sound

/-! ## The storage -/

/-- The names of the items of a wallet. -/
def walletKeys (type : String) : List String :=
  let properties := getWalletProperties type
  [properties.version, properties.os, properties.salt, properties.iterationCnt, properties.cipheredData,
    properties.walletPuk, properties.walletAddr, properties.macData]

theorem readWallet_congr {s s' : LocalStorage} {type : String} (h : ∀ key ∈ walletKeys type, s key = s' key) :
    readWallet s type = readWallet s' type := by
  simp only [walletKeys, List.forall_mem_cons] at h
  obtain ⟨hversion, hos, hsalt, hcount, hciphered, hpuk, haddr, hmac, -⟩ := h
  simp only [readWallet, hversion, hos, hsalt, hcount, hciphered, hpuk, haddr, hmac]

theorem saveData_of_ne {c : CryptoJS} {s : LocalStorage} {type key : String} (htype : key ≠ "Wallet.Type")
    (hkey : key ∉ walletKeys type) (salt : List UInt8) (target puk : String) (address mac : List UInt8) :
    saveData c type salt target puk address mac s key = s key := by
  simp only [walletKeys, List.mem_cons, List.not_mem_nil, or_false, not_or] at hkey
  obtain ⟨hversion, hos, hsalt, hcount, hciphered, hpuk, haddr, hmac⟩ := hkey
  unfold saveData
  cases s (getWalletProperties type).version with
  | some version => rfl
  | none =>
    simp only [LocalStorage.setItem, Function.update_of_ne hmac, Function.update_of_ne haddr,
      Function.update_of_ne hpuk, Function.update_of_ne hciphered, Function.update_of_ne hcount,
      Function.update_of_ne hsalt, Function.update_of_ne hos, Function.update_of_ne hversion,
      Function.update_of_ne htype]

theorem saveData_of_version {c : CryptoJS} {s : LocalStorage} {type version : String}
    (h : s (getWalletProperties type).version = some version) (salt : List UInt8) (target puk : String)
    (address mac : List UInt8) : saveData c type salt target puk address mac s = s := by
  simp only [saveData, h]

theorem saveData_selects {c : CryptoJS} {s : LocalStorage} {type : String}
    (hnew : s (getWalletProperties type).version = none) (salt : List UInt8) (target puk : String)
    (address mac : List UInt8) : saveData c type salt target puk address mac s "Wallet.Type" = some type := by
  simp only [saveData, hnew]
  rcases getWalletProperties_cases type with hnames | hnames
  · simp [hnames, LocalStorage.setItem]
  · simp [hnames, LocalStorage.setItem]

/-- The wallet that is created is the selected one. -/
theorem getPublicKey_createWallet {c : CryptoJS} {s : LocalStorage} {type : String}
    (hnew : s (getWalletProperties type).version = none) (salt : List UInt8) (target puk : String)
    (address : List UInt8) (password : String) :
    getPublicKey (createWallet c type salt target puk address password s) = some puk := by
  rw [getPublicKey, createWallet, saveData_selects hnew, Option.bind_some]
  simp only [saveData, hnew]
  rcases getWalletProperties_cases type with hnames | hnames
  · simp [hnames, LocalStorage.setItem]
  · simp [hnames, LocalStorage.setItem]

theorem version_of_readWallet {s : LocalStorage} {type : String} {x : BrowserWallet × String}
    (h : readWallet s type = some x) : ∃ version, s (getWalletProperties type).version = some version := by
  simp only [readWallet, Option.bind_eq_bind, Option.bind_eq_some_iff] at h
  obtain ⟨version, hversion, -⟩ := h
  exact ⟨version, hversion⟩

theorem setType_selects (type : String) (s : LocalStorage) : setType type s "Wallet.Type" = some type := by
  simp [setType, LocalStorage.setItem]

def TYPE_NORMAL : String := ""

def TYPE_RESTORE : String := "R"

theorem walletKeys_ne_type {type : String} : "Wallet.Type" ∉ walletKeys type := by
  rcases getWalletProperties_cases type with hnames | hnames
  · rw [walletKeys, hnames]
    decide
  · rw [walletKeys, hnames]
    decide

theorem walletKeys_disjoint : ∀ key ∈ walletKeys TYPE_NORMAL, key ∉ walletKeys TYPE_RESTORE := by decide

/-- The types of the two kinds of wallets. -/
def IsType (type : String) : Prop := type = TYPE_NORMAL ∨ type = TYPE_RESTORE

/-- A wallet is not touched by another one, whichever of the two kinds that is of. -/
theorem readWallet_createWallet {c : CryptoJS} {s : LocalStorage} {type type' : String}
    {x : BrowserWallet × String} (htype : IsType type) (htype' : IsType type')
    (h : readWallet s type = some x) (salt : List UInt8) (target puk : String) (address : List UInt8)
    (password : String) : readWallet (createWallet c type' salt target puk address password s) type = some x := by
  by_cases hsame : type' = type
  · subst hsame
    obtain ⟨version, hversion⟩ := version_of_readWallet h
    rw [createWallet, saveData_of_version hversion, h]
  · have hother : ∀ key ∈ walletKeys type, key ∉ walletKeys type' := by
      rcases htype with rfl | rfl
      · rcases htype' with rfl | rfl
        · exact absurd rfl hsame
        · exact walletKeys_disjoint
      · rcases htype' with rfl | rfl
        · exact fun key hkey hkey' => walletKeys_disjoint key hkey' hkey
        · exact absurd rfl hsame
    rw [← h]
    refine readWallet_congr fun key hkey => saveData_of_ne ?_ (hother key hkey) _ _ _ _ _
    rintro rfl
    exact walletKeys_ne_type hkey

/-- **Step.**  No call changes a wallet that is stored. -/
theorem readWallet_step {c : Library} {s : LocalStorage} {type : String} {x : BrowserWallet × String}
    (htype : IsType type) (h : readWallet s type = some x) (e : Event) :
    readWallet (step c s e) type = some x := by
  cases e with
  | createNonRestoreWallet keyPair salt drawn password =>
    exact readWallet_createWallet htype (Or.inl rfl) h _ _ _ _ _
  | createRestoreWallet drawn password data =>
    show readWallet (createRestoreWallet c drawn password data s) type = some x
    unfold createRestoreWallet
    split
    · exact readWallet_createWallet htype (Or.inr rfl) h _ _ _ _ _
    · exact h
  | setType type' =>
    rw [← h]
    refine readWallet_congr fun key hkey => Function.update_of_ne ?_ _ _
    rintro rfl
    exact walletKeys_ne_type hkey

/-- **Run.** -/
theorem readWallet_run {c : Library} {s : LocalStorage} {type : String} {x : BrowserWallet × String}
    (htype : IsType type) (h : readWallet s type = some x) (events : List Event) :
    readWallet (StepRun.run (step c) s events) type = some x := by
  induction events generalizing s with
  | nil => exact h
  | cons e events ih => exact ih (readWallet_step htype h e)

/-! ## Signing -/

/-- A wallet signs with a key under a password whenever its type is selected. -/
structure SignsWhenSelected (c : Library) (type password prk : String) (s : LocalStorage) : Prop where
  selected : s "Wallet.Type" = some type
  again : ∀ events, StepRun.run (step c) s (events ++ [.setType type]) "Wallet.Type" = some type
  signs : ∀ events, StepRun.run (step c) s events "Wallet.Type" = some type →
    verifyMAC c.toCryptoJS (StepRun.run (step c) s events) type password = some true ∧
    ∀ transaction, generateTransactionSign c (StepRun.run (step c) s events) transaction password =
      some (.doSign ECC_CURVE SIGNATURE_ALG transaction prk)

section Created

variable {c : Library} (hc : c.Sound) {type : String}

include hc in
/-- The key under the second cipher is what the wallet signs with. -/
theorem signing_created (salt : List UInt8) (drawn : Drawn) (bytes : List UInt8) (puk : String)
    (address : List UInt8) (password : String) {mac transaction : String}
    (hpasses : (createdWallet c.toCryptoJS type salt (getPBEData.encrypt c drawn bytes password) puk
      address).macPasses c.toCryptoJS mac password = true) :
    (createdWallet c.toCryptoJS type salt (getPBEData.encrypt c drawn bytes password) puk address).signing c mac
        transaction password =
      .doSign ECC_CURVE SIGNATURE_ALG transaction
        (encodeHexString (getAESData.decrypt c (c.stringifyBase64 bytes) password salt)) := by
  have htarget : c.stringifyBase64 (c.parseBase64 (getPBEData.encrypt c drawn bytes password)) =
      getPBEData.encrypt c drawn bytes password := by
    unfold getPBEData.encrypt openSSLStringify
    simp only [hc.parseBase64]
  rw [BrowserWallet.signing, if_pos hpasses]
  simp only [createdWallet, hc.parseHex, htarget, getPrk_decrypt hc]

include hc in
/-- **A created wallet** signs, in every history from then on, with what its first cipher decrypts to. -/
theorem signs_createWallet (htype : IsType type) {s : LocalStorage}
    (hnew : s (getWalletProperties type).version = none) (salt : List UInt8) (drawn : Drawn)
    (bytes : List UInt8) (puk : String) (address : List UInt8) (password : String) :
    SignsWhenSelected c type password
      (encodeHexString (getAESData.decrypt c (c.stringifyBase64 bytes) password salt))
      (createWallet c.toCryptoJS type salt (getPBEData.encrypt c drawn bytes password) puk address password s) := by
  have hverify := verifyMAC_createWallet hc.toSound hnew salt (getPBEData.encrypt c drawn bytes password) puk
    address password
  have hread := @readWallet_saveData c.toCryptoJS s type hnew salt (getPBEData.encrypt c drawn bytes password) puk
    address (generateMAC c.toCryptoJS ⟨VERSION_INFO, OS_NAME, type, encodeHexString salt ++
      encodeHexString (utf8 password), ITERATION_COUNT, getPBEData.encrypt c drawn bytes password, puk,
      encodeHexString address⟩)
  have hpasses := hverify
  rw [verifyMAC, createWallet, hread, Option.map_some] at hpasses
  refine ⟨saveData_selects hnew _ _ _ _ _, ?_, ?_⟩
  · intro events
    rw [StepRun.run_append, StepRun.run_cons, StepRun.run_nil, step]
    exact setType_selects type _
  · intro events hselected
    have hrun := readWallet_run (c := c) htype hread events
    refine ⟨?_, ?_⟩
    · unfold verifyMAC
      rw [createWallet, hrun, Option.map_some, hpasses]
    · intro transaction
      rw [generateTransactionSign, hselected, Option.bind_some, createWallet, hrun, Option.map_some]
      exact congrArg some (signing_created hc salt drawn bytes puk address password (Option.some.inj hpasses))

/-! ## Restore messages -/

/-- The part of a restore message that a wallet is made of. -/
def restoreData (c : Library) (keyPair : KeyPair) (salt : List UInt8) (password : String) : String :=
  Base64.encode (firstCipher c password salt keyPair.prv) ++ "$" ++
    Base64.encode (firstCipher c password salt keyPair.pub) ++ "$" ++ Base64.encode salt

def restoreHmac (c : Library) (keyPair : KeyPair) (salt : List UInt8) (password : String) : String :=
  Base64.encode (c.HmacSHA256 (firstCipher c password salt keyPair.pub) (utf8 password))

/-- The public key that `createRestoreWallet` reads. -/
def restoredPuk (c : Library) (keyPair : KeyPair) (salt : List UInt8) (password : String) : List UInt8 :=
  c.decryptAES (withoutSalt (firstCipher c password salt keyPair.pub)) (keyAndIv c password salt).1
    (keyAndIv c password salt).2

include hc in
theorem generateRestoreDataFormat_eq (keyPair : KeyPair) (salt : List UInt8) (password : String) :
    generateRestoreDataFormat c keyPair salt password =
      restoreHmac c keyPair salt password ++ "%" ++ restoreData c keyPair salt password := by
  unfold generateRestoreDataFormat restoreHmac restoreData KeyPair.ecprvhex KeyPair.ecpubhex
  simp only [getAESData_encrypt hc, hc.stringifyBase64, parseBase64_encode hc, String.append_assoc]

theorem foreign_dollar : Base64.Foreign '$' := by decide

theorem foreign_percent : Base64.Foreign '%' := by decide

theorem splitText_restoreData (keyPair : KeyPair) (salt : List UInt8) (password : String) :
    splitText '$' (restoreData c keyPair salt password) =
      [Base64.encode (firstCipher c password salt keyPair.prv),
        Base64.encode (firstCipher c password salt keyPair.pub), Base64.encode salt] := by
  exact splitText_three (Base64.not_mem_encode foreign_dollar _) (Base64.not_mem_encode foreign_dollar _)
    (Base64.not_mem_encode foreign_dollar _)

theorem percent_not_mem_restoreData (keyPair : KeyPair) (salt : List UInt8) (password : String) :
    '%' ∉ (restoreData c keyPair salt password).toList := by
  unfold restoreData
  simp [Base64.not_mem_encode foreign_percent]

include hc in
theorem splitText_generateRestoreDataFormat (keyPair : KeyPair) (salt : List UInt8) (password : String) :
    splitText '%' (generateRestoreDataFormat c keyPair salt password) =
      [restoreHmac c keyPair salt password, restoreData c keyPair salt password] := by
  rw [generateRestoreDataFormat_eq hc, restoreHmac]
  show splitText '%' (_ ++ String.ofList ['%'] ++ _) = _
  rw [splitText_append (Base64.not_mem_encode foreign_percent _),
    splitText_of_not_mem (percent_not_mem_restoreData keyPair salt password)]

include hc in
/-- The wallet that is made of the data of a restore message. -/
theorem createRestoreWallet_restoreData (keyPair : KeyPair) (salt : List UInt8) (drawn : Drawn)
    (password : String) (s : LocalStorage) :
    createRestoreWallet c drawn password (some (restoreData c keyPair salt password)) s =
      createWallet c.toCryptoJS "R" salt
        (getPBEData.encrypt c drawn (firstCipher c password salt keyPair.prv) password)
        (encodeHexString (restoredPuk c keyPair salt password))
        (generateAddr c.toCryptoJS (restoredPuk c keyPair salt password)) password s := by
  unfold createRestoreWallet
  rw [Option.map_some, splitText_restoreData]
  simp only [parseBase64_encode hc, hc.parseHex]
  rw [← hc.stringifyBase64, getAESData_decrypt hc, restoredPuk]

include hc in
/-- **Create, then sign.**  A wallet that `createNonRestoreWallet` or, from the data of a restore message,
`createRestoreWallet` made passes the check and signs with its private key whenever its type is selected,
whatever is created and selected before. -/
theorem created_wallet_signs (keyPair : KeyPair) (salt : List UInt8) (drawn : Drawn) (password : String)
    (s : LocalStorage) (hmarker : (firstCipher c password salt keyPair.prv).take 8 ≠ marker) :
    (s "Version.Info" = none →
      SignsWhenSelected c TYPE_NORMAL password keyPair.ecprvhex
        (createNonRestoreWallet c keyPair salt drawn password s)) ∧
    (s "R.Version.Info" = none →
      SignsWhenSelected c TYPE_RESTORE password keyPair.ecprvhex
        (createRestoreWallet c drawn password
          (splitText '%' (generateRestoreDataFormat c keyPair salt password))[1]? s)) := by
  have hkey := (getAESData_decrypt_firstCipher hc password salt).mpr hmarker
  refine ⟨?_, ?_⟩
  · intro hnew
    have hsigns := @signs_createWallet c hc TYPE_NORMAL (Or.inl rfl) s hnew salt drawn
      (firstCipher c password salt keyPair.prv) keyPair.ecpubhex
      (generateAddr c.toCryptoJS (utf8 keyPair.ecpubhex)) password
    rw [hkey] at hsigns
    unfold createNonRestoreWallet getPrk.encrypt KeyPair.ecprvhex
    rw [getAESData_encrypt hc]
    exact hsigns
  · intro hnew
    have hsigns := @signs_createWallet c hc TYPE_RESTORE (Or.inr rfl) s hnew salt drawn
      (firstCipher c password salt keyPair.prv) (encodeHexString (restoredPuk c keyPair salt password))
      (generateAddr c.toCryptoJS (restoredPuk c keyPair salt password)) password
    rw [hkey] at hsigns
    rw [splitText_generateRestoreDataFormat hc]
    show SignsWhenSelected c _ _ _ (createRestoreWallet c drawn password (some (restoreData c keyPair salt password)) s)
    rw [createRestoreWallet_restoreData hc]
    exact hsigns

end Created

/-- The digits before the padding. -/
def unpadded (cs : List Char) : List Char := cs.takeWhile fun ch => ch ≠ '='

theorem unpadded_digit {n : Nat} (h : n < 64) (cs : List Char) :
    unpadded (Base64.encodeDigit n :: cs) = Base64.encodeDigit n :: unpadded cs :=
  List.takeWhile_cons_of_pos (decide_eq_true (Base64.encodeDigit_ne_pad h))

theorem unpadded_pad (cs : List Char) : unpadded ('=' :: cs) = [] := List.takeWhile_cons_of_neg (by decide)

/-- A library that hides little. -/
def Library.plain : Library where
  SHA256 bytes := bytes
  HmacSHA256 message _ := (message ++ List.replicate 32 7).take 32
  parseHex s := (decodeHex s).getD []
  parseBase64 s := (Base64.decodeChars (unpadded s.toList)).getD []
  stringifyBase64 := Base64.encode
  PBKDF2 psw salt _ := utf8 psw ++ salt
  encryptAES message _ _ := message.reverse
  decryptAES ciphertext _ _ := ciphertext.reverse
  encryptPassword message _ _ := 1 :: message
  decryptPassword ciphertext _ _ := ciphertext.tail

/-- The padding may be missing. -/
theorem decodeChars_unpadded (bs : List UInt8) :
    Base64.decodeChars (unpadded (Base64.encodeChars bs)) = some bs := by
  induction bs using Base64.encodeChars.induct with
  | case1 => rfl
  | case2 a =>
    have ha := a.toNat_lt
    have hfirst : a.toNat / 4 < 64 := by omega
    have hsecond : a.toNat % 4 * 16 < 64 := by omega
    rw [Base64.encodeChars, unpadded_digit hfirst, unpadded_digit hsecond, unpadded_pad, Base64.decodeChars,
      Base64.decodeDigit_encodeDigit hfirst, Base64.decodeDigit_encodeDigit hsecond, Option.bind_some,
      Option.map_some]
    rw [Base64.ofNat_eq (show a.toNat / 4 * 4 + a.toNat % 4 * 16 / 16 = a.toNat by omega)]
  | case3 a b =>
    have ha := a.toNat_lt
    have hb := b.toNat_lt
    have hfirst : a.toNat / 4 < 64 := by omega
    have hsecond : a.toNat % 4 * 16 + b.toNat / 16 < 64 := by omega
    have hthird : b.toNat % 16 * 4 < 64 := by omega
    rw [Base64.encodeChars, unpadded_digit hfirst, unpadded_digit hsecond, unpadded_digit hthird, unpadded_pad,
      Base64.decodeChars, Base64.decodeDigit_encodeDigit hfirst, Base64.decodeDigit_encodeDigit hsecond,
      Base64.decodeDigit_encodeDigit hthird, Option.bind_some, Option.bind_some, Option.map_some]
    rw [Base64.ofNat_eq (show a.toNat / 4 * 4 + (a.toNat % 4 * 16 + b.toNat / 16) / 16 = a.toNat by omega),
      Base64.ofNat_eq (show (a.toNat % 4 * 16 + b.toNat / 16) % 16 * 16 + b.toNat % 16 * 4 / 4 = b.toNat by omega)]
  | case4 a b ch bs ih =>
    have ha := a.toNat_lt
    have hb := b.toNat_lt
    have hch := ch.toNat_lt
    rw [Base64.encodeChars, unpadded_digit (show a.toNat / 4 < 64 by omega),
      unpadded_digit (show a.toNat % 4 * 16 + b.toNat / 16 < 64 by omega),
      unpadded_digit (show b.toNat % 16 * 4 + ch.toNat / 64 < 64 by omega),
      unpadded_digit (show ch.toNat % 64 < 64 by omega), Base64.decodeChars_digits, ih, Option.map_some]

theorem Library.plain_sound : Library.plain.Sound where
  parseHex bytes := by
    show (decodeHex (encodeHexString bytes)).getD [] = bytes
    rw [decodeHex_encodeHexString, Option.getD_some]
  parseBase64 bytes := by
    show (Base64.decodeChars (unpadded (Base64.encode bytes).toList)).getD [] = bytes
    rw [Base64.encode, String.toList_ofList, decodeChars_unpadded, Option.getD_some]
  length_HmacSHA256 message _ := by
    show ((message ++ List.replicate 32 7).take 32).length = 32
    rw [List.length_take, List.length_append, List.length_replicate]
    omega
  stringifyBase64 _ := rfl
  decryptAES message _ _ := message.reverse_reverse
  length_decryptAES _ _ _ := List.length_reverse
  decryptPassword _ _ _ := rfl

/-- A key pair of one byte each. -/
def oneByte : KeyPair := ⟨[5], [6]⟩

def eightZeros : Drawn := ⟨List.replicate 8 0, rfl⟩

theorem created_wallet_signs_oneByte :
    SignsWhenSelected .plain TYPE_NORMAL "p" oneByte.ecprvhex
        (createNonRestoreWallet .plain oneByte [9] eightZeros "p" fun _ => none) ∧
    SignsWhenSelected .plain TYPE_RESTORE "p" oneByte.ecprvhex
      (createRestoreWallet .plain eightZeros "p"
        (splitText '%' (generateRestoreDataFormat .plain oneByte [9] "p"))[1]? fun _ => none) := by
  obtain ⟨hnormal, hrestore⟩ := created_wallet_signs Library.plain_sound oneByte [9] eightZeros "p" (fun _ => none)
    (by decide)
  exact ⟨hnormal rfl, hrestore rfl⟩

/-- Of the whole message the part before the `%` is read as the private key. -/
theorem whole_message_signs_other :
    ¬ ∀ (c : Library), c.Sound → ∀ (keyPair : KeyPair) (salt : List UInt8) (drawn : Drawn) (password : String)
      (s : LocalStorage), (firstCipher c password salt keyPair.prv).take 8 ≠ marker → s "R.Version.Info" = none →
      ∀ transaction, generateTransactionSign c (createRestoreWallet c drawn password
          (some (generateRestoreDataFormat c keyPair salt password)) s) transaction password =
        some (.doSign ECC_CURVE SIGNATURE_ALG transaction keyPair.ecprvhex) := by
  intro h
  have hsign := h .plain Library.plain_sound oneByte [9] eightZeros "p" (fun _ => none) (by decide) rfl "tx"
  obtain ⟨encPrk, encPuk, encSalt, hparts, hother⟩ : ∃ encPrk encPuk encSalt,
      splitText '$' (generateRestoreDataFormat .plain oneByte [9] "p") = [encPrk, encPuk, encSalt] ∧
      encodeHexString (getAESData.decrypt .plain (Base64.encode (Library.plain.parseHex (encodeHexString
        (Library.plain.parseBase64 encPrk)))) "p" (Library.plain.parseBase64 encSalt)) ≠ oneByte.ecprvhex :=
    ⟨_, _, _, rfl, by decide +kernel⟩
  have hsigns := @signs_createWallet _ Library.plain_sound "R" (Or.inr rfl) (fun _ => none) rfl
    (Library.plain.parseBase64 encSalt) eightZeros
    (Library.plain.parseHex (encodeHexString (Library.plain.parseBase64 encPrk)))
    (encodeHexString (getAESData.decrypt .plain encPuk "p" (Library.plain.parseBase64 encSalt)))
    (generateAddr Library.plain.toCryptoJS (getAESData.decrypt .plain encPuk "p" (Library.plain.parseBase64 encSalt)))
    "p"
  have hsigned := (hsigns.signs [] hsigns.selected).2 "tx"
  unfold createRestoreWallet at hsign
  rw [Option.map_some, hparts] at hsign
  injection hsigned.symm.trans hsign with hequal
  injection hequal with _ _ _ hprk
  exact hother hprk

end MoaCrypto.Browser
