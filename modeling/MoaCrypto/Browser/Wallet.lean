import MoaCrypto.Java.Base64
import MoaCrypto.Java.Text
import Mathlib.Logic.Function.Basic

/-!
# The wallet of the browser (`moaBCWalletLib-v1.0.2.js`)

The fields of a wallet are items of the local storage, under names that depend on the type.  `saveData`
stores them, `verifyMAC` checks them; both put them together with `generateMAC`.  The encryption of the key
pair is left out: a wallet is saved with the ciphertext that it has given.
-/

namespace MoaCrypto.Browser

open Java

/-- The functions of the crypto library; an array stands for the words of one. -/
structure CryptoJS where
  SHA256 : List UInt8 → List UInt8
  HmacSHA256 : (message key : List UInt8) → List UInt8
  parseHex : String → List UInt8
  parseBase64 : String → List UInt8
  stringifyBase64 : List UInt8 → String

/-- What the wallet relies on. -/
structure CryptoJS.Sound (c : CryptoJS) : Prop where
  parseHex : ∀ bytes, c.parseHex (encodeHexString bytes) = bytes
  parseBase64 : ∀ bytes, c.parseBase64 (c.stringifyBase64 bytes) = bytes
  length_HmacSHA256 : ∀ message key, (c.HmacSHA256 message key).length = 32

/-! ## The options -/

def VERSION_INFO : String := "1"

def OS_NAME : String := "WebBrowser"

def ITERATION_COUNT : String := "4096"

def SALT_SIZE : Nat := 32

/-! ## The MAC -/

/-- The ciphertext `target` is in Base64. -/
structure DataForMAC where
  version : String
  os : String
  type : String
  saltAndPsw : String
  iterationCnt : String
  target : String
  puk : String
  address : String

/-- The text under the MAC, with as much of the salt as a salt is long. -/
def combineMAC (c : CryptoJS) (d : DataForMAC) : String :=
  d.version ++ d.os ++ d.type ++ String.ofList (d.saltAndPsw.toList.take (SALT_SIZE * 2)) ++ d.iterationCnt ++
    encodeHexString (c.parseBase64 d.target) ++ d.puk ++ d.address

def generateMAC (c : CryptoJS) (d : DataForMAC) : List UInt8 :=
  c.HmacSHA256 (utf8 (combineMAC c d)) (c.SHA256 (utf8 d.saltAndPsw))

/-! ## The local storage -/

abbrev LocalStorage : Type := String → Option String

def LocalStorage.setItem (s : LocalStorage) (key value : String) : LocalStorage :=
  Function.update s key (some value)

/-- The names of the items. -/
structure WalletProperties where
  version : String
  os : String
  salt : String
  iterationCnt : String
  cipheredData : String
  walletPuk : String
  walletAddr : String
  macData : String

def getWalletProperties (type : String) : WalletProperties :=
  let pre := if 'R' ∈ type.toList then "R." else ""
  ⟨pre ++ "Version.Info", pre ++ "OS.Info", pre ++ "Salt.Value", pre ++ "Iteration.Count", pre ++ "Ciphered.Data",
    pre ++ "Wallet.PublicKey", pre ++ "Wallet.Addr", pre ++ "MAC.Data"⟩

theorem getWalletProperties_cases (type : String) :
    getWalletProperties type = ⟨"R.Version.Info", "R.OS.Info", "R.Salt.Value", "R.Iteration.Count",
      "R.Ciphered.Data", "R.Wallet.PublicKey", "R.Wallet.Addr", "R.MAC.Data"⟩ ∨
    getWalletProperties type = ⟨"Version.Info", "OS.Info", "Salt.Value", "Iteration.Count", "Ciphered.Data",
      "Wallet.PublicKey", "Wallet.Addr", "MAC.Data"⟩ := by
  unfold getWalletProperties
  by_cases htype : 'R' ∈ type.toList
  · rw [if_pos htype]
    exact Or.inl rfl
  · rw [if_neg htype]
    exact Or.inr rfl

/-- The fields of a stored wallet. -/
structure BrowserWallet where
  version : String
  os : String
  type : String
  salt : String
  iterationCnt : String
  cipheredData : String
  walletPuk : String
  walletAddr : String
  deriving DecidableEq

def BrowserWallet.dataForMAC (c : CryptoJS) (password : String) (w : BrowserWallet) : DataForMAC where
  version := w.version
  os := w.os
  type := w.type
  saltAndPsw := w.salt ++ encodeHexString (utf8 password)
  iterationCnt := w.iterationCnt
  target := c.stringifyBase64 (c.parseHex w.cipheredData)
  puk := w.walletPuk
  address := w.walletAddr

/-- `mac.indexOf(..)`: the MAC is looked for in the stored text. -/
def BrowserWallet.macPasses (c : CryptoJS) (w : BrowserWallet) (mac password : String) : Bool :=
  (encodeHexString (generateMAC c (w.dataForMAC c password))).toList <:+: mac.toList

/-- The items of a wallet and its MAC; without one of them nothing is said. -/
def readWallet (s : LocalStorage) (type : String) : Option (BrowserWallet × String) := do
  let properties := getWalletProperties type
  let version ← s properties.version
  let os ← s properties.os
  let salt ← s properties.salt
  let iterationCnt ← s properties.iterationCnt
  let cipheredData ← s properties.cipheredData
  let walletPuk ← s properties.walletPuk
  let walletAddr ← s properties.walletAddr
  let mac ← s properties.macData
  some (⟨version, os, type, salt, iterationCnt, cipheredData, walletPuk, walletAddr⟩, mac)

def verifyMAC (c : CryptoJS) (s : LocalStorage) (type password : String) : Option Bool :=
  (readWallet s type).map fun (w, mac) => w.macPasses c mac password

/-- The wallet with its version in front of the name of the system. -/
def versionMoved (w : BrowserWallet) : BrowserWallet := { w with version := "", os := w.version ++ w.os }

/-- The same in the storage. -/
def moveVersion (s : LocalStorage) (type : String) (w : BrowserWallet) : LocalStorage :=
  (s.setItem (getWalletProperties type).os (w.version ++ w.os)).setItem (getWalletProperties type).version ""

theorem readWallet_moveVersion {s : LocalStorage} {type : String} {w : BrowserWallet} {mac : String}
    (h : readWallet s type = some (w, mac)) :
    readWallet (moveVersion s type w) type = some (versionMoved w, mac) := by
  simp only [readWallet, Option.bind_eq_bind, Option.bind_eq_some_iff] at h
  obtain ⟨version, -, os, -, salt, hsalt, count, hcount, ciphered, hciphered, puk, hpuk, addr, haddr, mac', hmac,
    hw⟩ := h
  cases hw
  rcases getWalletProperties_cases type with hnames | hnames
  · rw [hnames] at hsalt hcount hciphered hpuk haddr hmac
    simp [readWallet, hnames, moveVersion, versionMoved, LocalStorage.setItem, hsalt, hcount, hciphered, hpuk, haddr,
      hmac]
  · rw [hnames] at hsalt hcount hciphered hpuk haddr hmac
    simp [readWallet, hnames, moveVersion, versionMoved, LocalStorage.setItem, hsalt, hcount, hciphered, hpuk, haddr,
      hmac]

/-! ## Saving a wallet -/

/-- A wallet that exists is not written over. -/
def saveData (c : CryptoJS) (type : String) (salt : List UInt8) (target puk : String) (address mac : List UInt8)
    (s : LocalStorage) : LocalStorage :=
  let properties := getWalletProperties type
  match s properties.version with
  | some _ => s
  | none =>
    ((((((((s.setItem "Wallet.Type" type).setItem properties.version VERSION_INFO).setItem properties.os
      OS_NAME).setItem properties.salt (encodeHexString salt)).setItem properties.iterationCnt
      ITERATION_COUNT).setItem properties.cipheredData (encodeHexString (c.parseBase64 target))).setItem
      properties.walletPuk puk).setItem properties.walletAddr (encodeHexString address)).setItem
      properties.macData (encodeHexString mac)

/-- How `createNonRestoreWallet` (type `""`) and `createRestoreWallet` (type `"R"`) end. -/
def createWallet (c : CryptoJS) (type : String) (salt : List UInt8) (target puk : String) (address : List UInt8)
    (password : String) (s : LocalStorage) : LocalStorage :=
  let mac := generateMAC c ⟨VERSION_INFO, OS_NAME, type, encodeHexString salt ++ encodeHexString (utf8 password),
    ITERATION_COUNT, target, puk, encodeHexString address⟩
  saveData c type salt target puk address mac s

section Created

variable {c : CryptoJS} (hc : c.Sound)

/-- The fields of a wallet that is created. -/
def createdWallet (c : CryptoJS) (type : String) (salt : List UInt8) (target puk : String) (address : List UInt8) :
    BrowserWallet :=
  ⟨VERSION_INFO, OS_NAME, type, encodeHexString salt, ITERATION_COUNT, encodeHexString (c.parseBase64 target), puk,
    encodeHexString address⟩

theorem readWallet_saveData {s : LocalStorage} {type : String} (hnew : s (getWalletProperties type).version = none)
    (salt : List UInt8) (target puk : String) (address mac : List UInt8) :
    readWallet (saveData c type salt target puk address mac s) type =
      some (createdWallet c type salt target puk address, encodeHexString mac) := by
  simp only [saveData, hnew]
  rcases getWalletProperties_cases type with hnames | hnames
  · simp [readWallet, hnames, LocalStorage.setItem, createdWallet]
  · simp [readWallet, hnames, LocalStorage.setItem, createdWallet]

include hc in
/-- A wallet that is created passes the check under its password. -/
theorem verifyMAC_createWallet {s : LocalStorage} {type : String}
    (hnew : s (getWalletProperties type).version = none) (salt : List UInt8) (target puk : String)
    (address : List UInt8) (password : String) :
    verifyMAC c (createWallet c type salt target puk address password s) type password = some true := by
  have hmac : generateMAC c ((createdWallet c type salt target puk address).dataForMAC c password) =
      generateMAC c ⟨VERSION_INFO, OS_NAME, type, encodeHexString salt ++ encodeHexString (utf8 password),
        ITERATION_COUNT, target, puk, encodeHexString address⟩ := by
    unfold generateMAC combineMAC BrowserWallet.dataForMAC createdWallet
    rw [hc.parseHex, hc.parseBase64]
  rw [verifyMAC, createWallet, readWallet_saveData hnew, Option.map_some]
  refine congrArg some (decide_eq_true ?_)
  rw [hmac]

end Created

end MoaCrypto.Browser
