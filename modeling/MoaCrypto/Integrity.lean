import MoaCrypto.Lib.Seal
import MoaCrypto.Android.Saved
import MoaCrypto.Browser.Wallet
import MoaCrypto.Wallet.Issue

/-!
# What the MAC of a wallet authenticates

The three wallets take their MAC of the fields put one after the other, under a digest of the salt and the
password; each is a `Seal`.  Two wallets that the MAC and its key do not tell apart have the same fields
exactly if the fields have the same lengths, and every wallet has another one that passes the check with its
MAC: in Java the type moves to the name of the system, in the other two the version does
(`mac_authenticates_same_lengths`).
-/

namespace MoaCrypto.Integrity

open Java

/-! ## Java -/

section JavaWallet

open Wallet

theorem ofInt_injective {n m : Int} (h : ofInt n = ofInt m) : n = m := by
  have hdigits : intDigits n = intDigits m := String.ofList_injective h
  have hsplit := congrArg splitSign hdigits
  rw [splitSign_intDigits, splitSign_intDigits, Prod.mk.injEq] at hsplit
  obtain ⟨hsign, htext⟩ := hsplit
  have habs : n.natAbs = m.natAbs := by
    have hvalue := congrArg (digitsFrom 0) htext
    rw [digitsFrom_toDigits, digitsFrom_toDigits] at hvalue
    exact Option.some.inj hvalue
  rw [← applySign_natAbs n, ← applySign_natAbs m, hsign, habs]

/-- The MAC of `BlockchainTransactionSign`. -/
def javaSeal (p : Provider) (passwordStr : String) : Seal WalletInfo (List UInt8) (List UInt8) where
  texts w := [ofInt w.versionInfo, w.osInfo, w.walletTypeStr, w.saltBase58Str, ofInt w.iterationCount,
    w.cipheredDataBase58Str, w.walletPublicKeyBase58Str, w.walletAddrBase58Str]
  key w := (MoaBase58.decode w.saltBase58Str).map fun saltBytes => hmacKey p saltBytes passwordStr
  mac text key := p.HmacDigest (utf8 text) key

variable {p : Provider} {psw : String}

theorem text_javaSeal (w : WalletInfo) : (javaSeal p psw).text w = w.walletConcat := by
  simp [Seal.text, javaSeal, WalletInfo.walletConcat, String.append_assoc]

theorem macPasses_eq (s : StoredWallet) : s.macPasses p psw =
    ((javaSeal p psw).sealed s.info).map fun mac => decide (s.macDataBase58Str = MoaBase58.encode mac) := by
  unfold Seal.sealed
  rw [text_javaSeal]
  unfold StoredWallet.macPasses javaSeal
  rw [Option.map_map, Option.map_map]
  rfl

theorem texts_javaSeal {w w' : WalletInfo} (h : (javaSeal p psw).texts w = (javaSeal p psw).texts w') : w = w' := by
  obtain ⟨version, os, type, salt, count, ciphered, puk, addr⟩ := w
  obtain ⟨version', os', type', salt', count', ciphered', puk', addr'⟩ := w'
  simp only [javaSeal, List.cons.injEq, and_true] at h
  obtain ⟨hversion, rfl, rfl, rfl, hcount, rfl, rfl, rfl⟩ := h
  rw [ofInt_injective hversion, ofInt_injective hcount]

/-- What the check of the Java wallet authenticates under a password. -/
structure JavaMac (p : Provider) (psw : String) : Prop where
  pair : ∀ w w' : WalletInfo, w.walletConcat = w'.walletConcat → (javaSeal p psw).key w = (javaSeal p psw).key w' →
    (w = w' ↔ (javaSeal p psw).SameLengths w w')
  stored : ∀ s s' : StoredWallet, s.macPasses p psw = some true → s'.macPasses p psw = some true →
    s.macDataBase58Str = s'.macDataBase58Str → (javaSeal p psw).NoCollision s.info s'.info →
    (s.info = s'.info ↔ (javaSeal p psw).SameLengths s.info s'.info)
  shifted : ∀ s : StoredWallet, s.info.walletTypeStr ≠ "" → ∃ s' : StoredWallet, s.info ≠ s'.info ∧
    s.macDataBase58Str = s'.macDataBase58Str ∧ s'.macPasses p psw = s.macPasses p psw

theorem eq_iff_sameLengths_java {w w' : WalletInfo} (h : (javaSeal p psw).Agree w w') :
    w = w' ↔ (javaSeal p psw).SameLengths w w' := by
  rw [← h.texts_eq_iff]
  exact ⟨congrArg _, texts_javaSeal⟩

/-- The wallet with its type at the end of the name of the system. -/
def typeShifted (s : StoredWallet) : StoredWallet :=
  { s with info := { s.info with osInfo := s.info.osInfo ++ s.info.walletTypeStr, walletTypeStr := "" } }

theorem agree_typeShifted (s : StoredWallet) : (javaSeal p psw).Agree s.info (typeShifted s).info where
  text := Seal.text_eq_of_shift [ofInt s.info.versionInfo] rfl rfl (String.append_empty).symm
  key := rfl

theorem java_mac (p : Provider) (psw : String) : JavaMac p psw := by
  refine ⟨?_, ?_, ?_⟩
  · intro w w' htext hkey
    rw [← @text_javaSeal p psw, ← @text_javaSeal p psw] at htext
    exact eq_iff_sameLengths_java ⟨htext, hkey⟩
  · intro s s' hpasses hpasses' hmac hno
    rw [macPasses_eq] at hpasses hpasses'
    obtain ⟨mac, hsealed, hequal⟩ := Option.map_eq_some_iff.mp hpasses
    obtain ⟨mac', hsealed', hequal'⟩ := Option.map_eq_some_iff.mp hpasses'
    have hsame : mac = mac' := MoaBase58.encode_injective
      ((of_decide_eq_true hequal).symm.trans (hmac.trans (of_decide_eq_true hequal')))
    subst hsame
    exact eq_iff_sameLengths_java (hno.agree hsealed hsealed')
  · intro s htype
    refine ⟨typeShifted s, ?_, rfl, ?_⟩
    · intro he
      exact htype (congrArg WalletInfo.walletTypeStr he)
    · rw [macPasses_eq, macPasses_eq, (agree_typeShifted s).sealed_eq]
      rfl

end JavaWallet

/-! ## Android -/

section AndroidWallet

open Android

/-- The fields under the MAC. -/
def macKeys : List PrefKey :=
  [.VersionInfo, .OSInfo, .SaltValue, .IterationCount, .CipheredData, .WalletPublicKey, .WalletAddr]

/-- The MAC of `checkMACData`. -/
def androidSeal (lib : Library) (psw : String) : Seal Prefs (List UInt8) (List UInt8) where
  texts q := macKeys.map q
  key q := (lib.decode58 (q .SaltValue)).map fun salt => lib.sha256 (salt ++ utf8 psw)
  mac text key := lib.hmacSha256 (utf8 text) key

variable {lib : Library} {psw : String}

theorem text_androidSeal (q : Prefs) : (androidSeal lib psw).text q = mergedWalletData q := by
  simp [Seal.text, androidSeal, macKeys, mergedWalletData, String.append_assoc]

theorem checkMACData_eq_sealed (hlib : lib.Sound) {q : Prefs} (hq : MacSettings q) (haddr : q .WalletAddr ≠ "") :
    checkMACData lib q psw =
      ((androidSeal lib psw).sealed q).map fun mac => decide (q .MACData = lib.encode58 mac) := by
  rw [checkMACData_eq hlib hq haddr]
  unfold Seal.sealed
  rw [text_androidSeal]
  unfold androidSeal macData
  rw [Option.map_map, Option.map_map]
  rfl

/-- What the check of the Android wallet authenticates under a password. -/
structure AndroidMac (lib : Library) (psw : String) : Prop where
  pair : ∀ q q' : Prefs, mergedWalletData q = mergedWalletData q' →
    (androidSeal lib psw).key q = (androidSeal lib psw).key q' →
    ((∀ key ∈ macKeys, q key = q' key) ↔ (androidSeal lib psw).SameLengths q q')
  stored : ∀ q q' : Prefs, MacSettings q → MacSettings q' → checkMACData lib q psw = some true →
    checkMACData lib q' psw = some true → q .MACData = q' .MACData → (androidSeal lib psw).NoCollision q q' →
    ((∀ key ∈ macKeys, q key = q' key) ↔ (androidSeal lib psw).SameLengths q q')
  shifted : ∀ q : Prefs, q .VersionInfo ≠ "" → ∃ q' : Prefs, (¬ ∀ key ∈ macKeys, q key = q' key) ∧
    q .MACData = q' .MACData ∧ checkMACData lib q' psw = checkMACData lib q psw

theorem eq_iff_sameLengths_android {q q' : Prefs} (h : (androidSeal lib psw).Agree q q') :
    (∀ key ∈ macKeys, q key = q' key) ↔ (androidSeal lib psw).SameLengths q q' := by
  rw [← h.texts_eq_iff]
  exact List.map_inj_left.symm

/-- The preferences with the version in front of the name of the system. -/
def versionShifted (q : Prefs) : Prefs :=
  (q.putString .OSInfo (q .VersionInfo ++ q .OSInfo)).putString .VersionInfo ""

theorem agree_versionShifted (q : Prefs) : (androidSeal lib psw).Agree q (versionShifted q) where
  text := Seal.text_eq_of_shift [] rfl rfl (String.empty_append).symm
  key := rfl

/-- The address is not empty where the check passes. -/
theorem walletAddr_ne {q : Prefs} (h : checkMACData lib q psw = some true) : q .WalletAddr ≠ "" := by
  intro hempty
  rw [checkMACData, if_pos hempty] at h
  cases h

theorem android_mac (hlib : lib.Sound) (psw : String) : AndroidMac lib psw := by
  refine ⟨?_, ?_, ?_⟩
  · intro q q' htext hkey
    rw [← @text_androidSeal lib psw, ← @text_androidSeal lib psw] at htext
    exact eq_iff_sameLengths_android ⟨htext, hkey⟩
  · intro q q' hq hq' hpasses hpasses' hmac hno
    rw [checkMACData_eq_sealed hlib hq (walletAddr_ne hpasses)] at hpasses
    rw [checkMACData_eq_sealed hlib hq' (walletAddr_ne hpasses')] at hpasses'
    obtain ⟨mac, hsealed, hequal⟩ := Option.map_eq_some_iff.mp hpasses
    obtain ⟨mac', hsealed', hequal'⟩ := Option.map_eq_some_iff.mp hpasses'
    have htexts : lib.encode58 mac = lib.encode58 mac' :=
      (of_decide_eq_true hequal).symm.trans (hmac.trans (of_decide_eq_true hequal'))
    have hsame : mac = mac' := by
      have hdecode := congrArg lib.decode58 htexts
      rw [hlib.decode58, hlib.decode58] at hdecode
      exact Option.some.inj hdecode
    subst hsame
    exact eq_iff_sameLengths_android (hno.agree hsealed hsealed')
  · intro q hversion
    refine ⟨versionShifted q, ?_, rfl, ?_⟩
    · intro he
      exact hversion (he .VersionInfo (by simp [macKeys]))
    · have htext := (@agree_versionShifted lib psw q).text
      rw [text_androidSeal, text_androidSeal] at htext
      unfold checkMACData
      rw [← htext]
      rfl

end AndroidWallet

/-! ## The browser -/

section BrowserWallet

open Browser

/-- The MAC of `verifyMAC`; the key is the digest of the texts of the salt and of the password. -/
def browserSeal (c : CryptoJS) (password : String) : Seal BrowserWallet (List UInt8) (List UInt8) where
  texts w :=
    let d := w.dataForMAC c password
    [d.version, d.os, d.type, String.ofList (d.saltAndPsw.toList.take (SALT_SIZE * 2)), d.iterationCnt,
      encodeHexString (c.parseBase64 d.target), d.puk, d.address]
  key w := some (c.SHA256 (utf8 (w.dataForMAC c password).saltAndPsw))
  mac text key := c.HmacSHA256 (utf8 text) key

variable {c : CryptoJS} {psw : String}

theorem text_browserSeal (w : BrowserWallet) :
    (browserSeal c psw).text w = combineMAC c (w.dataForMAC c psw) := by
  simp [Seal.text, browserSeal, combineMAC, String.append_assoc]

theorem sealed_browserSeal (w : BrowserWallet) :
    (browserSeal c psw).sealed w = some (generateMAC c (w.dataForMAC c psw)) := by
  unfold Seal.sealed
  rw [text_browserSeal]
  rfl

/-- The digests of two salts with the password, if they are the same, are of the same salt. -/
def SaltFree (c : CryptoJS) (password : String) (w w' : BrowserWallet) : Prop :=
  (browserSeal c password).key w = (browserSeal c password).key w' → w.salt = w'.salt

/-- Ciphertexts of the same bytes are the same text. -/
def SameSpelling (c : CryptoJS) (w w' : BrowserWallet) : Prop :=
  c.parseHex w.cipheredData = c.parseHex w'.cipheredData → w.cipheredData = w'.cipheredData

/-- What the check of the browser's wallet authenticates under a password. -/
structure BrowserMac (c : CryptoJS) (psw : String) : Prop where
  pair : ∀ w w' : BrowserWallet, combineMAC c (w.dataForMAC c psw) = combineMAC c (w'.dataForMAC c psw) →
    (browserSeal c psw).key w = (browserSeal c psw).key w' → SaltFree c psw w w' →
    (w = w' ↔ (browserSeal c psw).SameLengths w w' ∧ SameSpelling c w w')
  stored : ∀ w w' : BrowserWallet,
    w'.macPasses c (encodeHexString (generateMAC c (w.dataForMAC c psw))) psw = true →
    (browserSeal c psw).NoCollision w w' → SaltFree c psw w w' →
    (w = w' ↔ (browserSeal c psw).SameLengths w w' ∧ SameSpelling c w w')
  shifted : ∀ (s : LocalStorage) (type : String) (w : BrowserWallet) (mac : String),
    readWallet s type = some (w, mac) → w.version ≠ "" → ∃ (s' : LocalStorage) (w' : BrowserWallet),
      readWallet s' type = some (w', mac) ∧ w ≠ w' ∧ verifyMAC c s' type psw = verifyMAC c s type psw

theorem eq_iff_sameLengths_browser (hc : c.Sound) {w w' : BrowserWallet} (h : (browserSeal c psw).Agree w w')
    (hsalt : SaltFree c psw w w') :
    w = w' ↔ (browserSeal c psw).SameLengths w w' ∧ SameSpelling c w w' := by
  constructor
  · rintro rfl
    exact ⟨rfl, fun _ => rfl⟩
  · rintro ⟨hlengths, hspelling⟩
    have htexts := h.texts_eq_iff.mpr hlengths
    have hsame : w.salt = w'.salt := hsalt h.key
    obtain ⟨version, os, type, salt, count, ciphered, puk, addr⟩ := w
    obtain ⟨version', os', type', salt', count', ciphered', puk', addr'⟩ := w'
    simp only [browserSeal, BrowserWallet.dataForMAC, hc.parseBase64, List.cons.injEq, and_true] at htexts
    obtain ⟨rfl, rfl, rfl, _, rfl, hbytes, rfl, rfl⟩ := htexts
    have hciphered : ciphered = ciphered' := hspelling (encodeHexString_injective hbytes)
    subst hciphered
    subst hsame
    rfl

/-- The MACs have one length, so that one lies within the other only if they are the same. -/
theorem generateMAC_of_macPasses (hc : c.Sound) {w w' : BrowserWallet}
    (h : w'.macPasses c (encodeHexString (generateMAC c (w.dataForMAC c psw))) psw = true) :
    generateMAC c (w'.dataForMAC c psw) = generateMAC c (w.dataForMAC c psw) := by
  have hwithin : (encodeHexString (generateMAC c (w'.dataForMAC c psw))).toList <:+:
      (encodeHexString (generateMAC c (w.dataForMAC c psw))).toList := of_decide_eq_true h
  have hlength : (encodeHexString (generateMAC c (w'.dataForMAC c psw))).toList.length =
      (encodeHexString (generateMAC c (w.dataForMAC c psw))).toList.length := by
    rw [length_encodeHexString, length_encodeHexString]
    unfold generateMAC
    rw [hc.length_HmacSHA256, hc.length_HmacSHA256]
  exact encodeHexString_injective (String.toList_injective (hwithin.eq_of_length hlength))

theorem agree_versionMoved (w : BrowserWallet) : (browserSeal c psw).Agree w (versionMoved w) where
  text := Seal.text_eq_of_shift [] rfl rfl (String.empty_append).symm
  key := rfl

theorem browser_mac (hc : c.Sound) (psw : String) : BrowserMac c psw := by
  refine ⟨?_, ?_, ?_⟩
  · intro w w' htext hkey hsalt
    rw [← text_browserSeal, ← text_browserSeal] at htext
    exact eq_iff_sameLengths_browser hc ⟨htext, hkey⟩ hsalt
  · intro w w' hpasses hno hsalt
    have hmac := generateMAC_of_macPasses hc hpasses
    have hagree := hno.agree (sealed_browserSeal w) ((sealed_browserSeal w').trans (congrArg some hmac))
    exact eq_iff_sameLengths_browser hc hagree hsalt
  · intro s type w mac hread hversion
    refine ⟨moveVersion s type w, versionMoved w, readWallet_moveVersion hread, ?_, ?_⟩
    · intro he
      exact hversion (congrArg BrowserWallet.version he)
    · unfold verifyMAC
      rw [readWallet_moveVersion hread, hread]
      show some ((versionMoved w).macPasses c mac psw) = some (w.macPasses c mac psw)
      have hmac := (@agree_versionMoved c psw w).sealed_eq
      rw [sealed_browserSeal, sealed_browserSeal] at hmac
      unfold BrowserWallet.macPasses
      rw [Option.some.inj hmac]

end BrowserWallet

/-- **What the MAC authenticates.**  In each of the three wallets, whatever the libraries and the password,
two wallets with the same text and key, or with the same MAC if nothing collides, have the same fields
exactly if the fields have the same lengths (in the browser, and their ciphertexts the same spelling); and
every wallet has another one that passes the check with its MAC. -/
theorem mac_authenticates_same_lengths (p : Wallet.Provider) {lib : Android.Library} (hlib : lib.Sound)
    {c : Browser.CryptoJS} (hc : c.Sound) (psw : String) : JavaMac p psw ∧ AndroidMac lib psw ∧ BrowserMac c psw :=
  ⟨java_mac p psw, android_mac hlib psw, browser_mac hc psw⟩

/-- A crypto library that hides nothing. -/
def plainJS : Browser.CryptoJS where
  SHA256 bytes := bytes
  HmacSHA256 message _ := Android.plainDigest message
  parseHex s := (Android.hexStringToByteArray s).getD []
  parseBase64 s := (Base64.decode s).getD []
  stringifyBase64 := Base64.encode

theorem plainJS_sound : plainJS.Sound where
  parseHex bytes := by
    show (Android.hexStringToByteArray (Android.byteArrayToHexString bytes)).getD [] = bytes
    rw [Android.hexStringToByteArray_hexString, Option.getD_some]
  parseBase64 bytes := by
    show (Base64.decode (Base64.encode bytes)).getD [] = bytes
    rw [Base64.decode_encode, Option.getD_some]
  length_HmacSHA256 message _ := Android.length_plainDigest message

theorem mac_authenticates_same_lengths_plain :
    JavaMac Wallet.Provider.plain "p" ∧ AndroidMac Android.plain "p" ∧ BrowserMac plainJS "p" :=
  mac_authenticates_same_lengths Wallet.Provider.plain Android.plain_sound plainJS_sound "p"

/-- A wallet of the Java library, up to its MAC. -/
def linuxWallet : Wallet.StoredWallet := ⟨⟨1, "Linux", "NonR", "A", 4096, "BCD", "EFG", "HJK"⟩, ""⟩

/-- A wallet of the browser. -/
def browserWallet : Browser.BrowserWallet := ⟨"1", "WebBrowser", "", "0a", "4096", "0b0c", "04", "05"⟩

/-- In none of the wallets the text and the key determine the fields. -/
theorem mac_not_injective :
    ¬ (∀ w w' : Wallet.WalletInfo, w.walletConcat = w'.walletConcat →
      (javaSeal Wallet.Provider.plain "p").key w = (javaSeal Wallet.Provider.plain "p").key w' → w = w') ∧
    ¬ (∀ q q' : Android.Prefs, Android.mergedWalletData q = Android.mergedWalletData q' →
      (androidSeal Android.plain "p").key q = (androidSeal Android.plain "p").key q' →
      ∀ key ∈ macKeys, q key = q' key) ∧
    ¬ (∀ w w' : Browser.BrowserWallet,
      Browser.combineMAC plainJS (w.dataForMAC plainJS "p") = Browser.combineMAC plainJS (w'.dataForMAC plainJS "p") →
      (browserSeal plainJS "p").key w = (browserSeal plainJS "p").key w' → w = w') := by
  refine ⟨?_, ?_, ?_⟩
  · intro h
    have hagree := @agree_typeShifted Wallet.Provider.plain "p" linuxWallet
    have hsame := h linuxWallet.info (typeShifted linuxWallet).info
      (by rw [← @text_javaSeal Wallet.Provider.plain "p", hagree.text, text_javaSeal]) hagree.key
    exact absurd (congrArg Wallet.WalletInfo.walletTypeStr hsame) (by decide)
  · intro h
    have hagree := @agree_versionShifted Android.plain "p" Android.Prefs.empty.initialise
    have hsame := h _ _ (by rw [← @text_androidSeal Android.plain "p", hagree.text, text_androidSeal])
      hagree.key .VersionInfo (by simp [macKeys])
    exact absurd hsame (by decide)
  · intro h
    have hagree := @agree_versionMoved plainJS "p" browserWallet
    have hsame := h _ _ (by rw [← text_browserSeal, hagree.text, text_browserSeal]) hagree.key
    exact absurd (congrArg Browser.BrowserWallet.version hsame) (by decide)

end MoaCrypto.Integrity
