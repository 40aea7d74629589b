import MoaCrypto.Java.Decimal
import Mathlib.Data.List.TakeWhile

/-!
# Java's texts as bytes

`utf8` is `getBytes` under UTF-8, `encodeHexString` and `decodeHex` are those of the
hexadecimal codec the server uses: decoding takes digits of either case and
rejects (`none`) any other character and an odd number of them.
-/

namespace Java

/-- `s.getBytes()` where the charset is UTF-8. -/
def utf8 (s : String) : List UInt8 := s.toList.flatMap String.utf8EncodeChar

theorem utf8_append (s t : String) : utf8 (s ++ t) = utf8 s ++ utf8 t := by
  rw [utf8, String.toList_append, List.flatMap_append]
  rfl

/-- An ASCII character is its one byte. -/
theorem utf8EncodeChar_ascii {c : Char} (h : c.toNat < 128) :
    String.utf8EncodeChar c = [UInt8.ofNat c.toNat] := by
  have hval : c.val.toNat ≤ 127 := by
    show c.toNat ≤ 127
    omega
  rw [String.utf8EncodeChar, if_pos hval]
  rfl

/-- Another character has two bytes or more, none of ASCII. -/
theorem utf8EncodeChar_wide {c : Char} (h : 128 ≤ c.toNat) :
    2 ≤ (String.utf8EncodeChar c).length ∧ ∀ b ∈ String.utf8EncodeChar c, 128 ≤ b.toNat := by
  have hval : ¬ c.val.toNat ≤ 127 := by
    have : c.toNat = c.val.toNat := rfl
    omega
  have hofNat {n : Nat} (hn : n < 256) : (UInt8.ofNat n).toNat = n := UInt8.toNat_ofNat_of_lt' hn
  rw [String.utf8EncodeChar, if_neg hval]
  split
  · refine ⟨by simp, fun b hb => ?_⟩
    simp only [List.mem_cons, List.not_mem_nil, or_false] at hb
    rcases hb with rfl | rfl <;> rw [hofNat (by omega)] <;> omega
  · split
    · refine ⟨by simp, fun b hb => ?_⟩
      simp only [List.mem_cons, List.not_mem_nil, or_false] at hb
      rcases hb with rfl | rfl | rfl <;> rw [hofNat (by omega)] <;> omega
    · refine ⟨by simp, fun b hb => ?_⟩
      simp only [List.mem_cons, List.not_mem_nil, or_false] at hb
      rcases hb with rfl | rfl | rfl | rfl <;> rw [hofNat (by omega)] <;> omega

theorem toByteArray_utf8 (s : String) : (utf8 s).toByteArray = s.toByteArray := by
  rw [← String.utf8Encode_toList]
  rfl

theorem utf8_injective {s t : String} (h : utf8 s = utf8 t) : s = t := by
  have hbytes : s.toByteArray = t.toByteArray := by
    rw [← toByteArray_utf8, ← toByteArray_utf8, h]
  exact String.toByteArray_inj.mp hbytes

/-- No text starts with the byte `0xFF`. -/
theorem utf8_ne_cons (s : String) (bs : List UInt8) : utf8 s ≠ 255 :: bs := by
  intro h
  cases hs : s.toList with
  | nil =>
    rw [utf8, hs] at h
    cases h
  | cons c cs =>
    have hfirst := UInt8.isUTF8FirstByte_getElem_zero_utf8EncodeChar (c := c)
    rw [utf8, hs, List.flatMap_cons] at h
    obtain ⟨b, bytes, hbytes⟩ : ∃ b bytes, String.utf8EncodeChar c = b :: bytes :=
      List.exists_cons_of_ne_nil (String.utf8EncodeChar_ne_nil)
    simp only [hbytes, List.getElem_cons_zero] at hfirst
    rw [hbytes, List.cons_append] at h
    rw [(List.cons.inj h).1] at hfirst
    exact absurd hfirst (by decide)

/-- `new String(bs)` where the charset is UTF-8 and `bs` is well formed. -/
def ofUtf8 (bs : List UInt8) : String := (String.fromUTF8? bs.toByteArray).getD "\uFFFD"

theorem ofUtf8_utf8 (s : String) : ofUtf8 (utf8 s) = s := by
  rw [ofUtf8, toByteArray_utf8, String.fromUTF8?, dif_pos s.isValidUTF8]
  rfl

/-- `s.trim()`. -/
def trim (s : String) : String :=
  String.ofList (((s.toList.dropWhile fun c => c ≤ ' ').reverse.dropWhile fun c => c ≤ ' ').reverse)

/-- Neither the first nor the last character is a blank or a control character. -/
def Trimmed (cs : List Char) : Prop := (∀ c ∈ cs.head?, ' ' < c) ∧ ∀ c ∈ cs.getLast?, ' ' < c

instance (cs : List Char) : Decidable (Trimmed cs) :=
  have : Decidable (∀ c ∈ cs.head?, ' ' < c) := Option.decidableForallMem _
  have : Decidable (∀ c ∈ cs.getLast?, ' ' < c) := Option.decidableForallMem _
  inferInstanceAs (Decidable (_ ∧ _))

theorem dropWhile_head {cs : List Char} (h : ∀ c ∈ cs.head?, ' ' < c) :
    cs.dropWhile (fun c => c ≤ ' ') = cs := by
  cases cs with
  | nil => rfl
  | cons c cs => exact List.dropWhile_cons_of_neg (by simpa using h c rfl)

theorem trim_trimmed {cs : List Char} (h : Trimmed cs) : trim (String.ofList cs) = String.ofList cs := by
  have hlast : ∀ c ∈ cs.reverse.head?, ' ' < c := by rw [List.head?_reverse]; exact h.2
  rw [trim, String.toList_ofList, dropWhile_head h.1, dropWhile_head hlast, List.reverse_reverse]

/-- Blanks and control characters are cut off on both sides. -/
theorem trim_split (s : String) : ∃ before after, s.toList = before ++ (trim s).toList ++ after ∧
    (∀ c ∈ before, c ≤ ' ') ∧ ∀ c ∈ after, c ≤ ' ' := by
  have hback : ∀ cs : List Char, cs = (cs.reverse.dropWhile fun c => c ≤ ' ').reverse ++
      (cs.reverse.takeWhile fun c => c ≤ ' ').reverse := fun cs => by
    rw [← List.reverse_append, List.takeWhile_append_dropWhile, List.reverse_reverse]
  refine ⟨s.toList.takeWhile fun c => c ≤ ' ',
    ((s.toList.dropWhile fun c => c ≤ ' ').reverse.takeWhile fun c => c ≤ ' ').reverse,
    ?_, fun c hc => ?_, fun c hc => ?_⟩
  · rw [trim, String.toList_ofList, List.append_assoc, ← hback, List.takeWhile_append_dropWhile]
  · simpa using List.mem_takeWhile_imp hc
  · simpa using List.mem_takeWhile_imp (List.mem_reverse.mp hc)

theorem trim_blank_append {cs : List Char} (hcs : ∀ c ∈ cs, c ≤ ' ') (ds : List Char) :
    trim (String.ofList (cs ++ ds)) = trim (String.ofList ds) := by
  rw [trim, trim, String.toList_ofList, String.toList_ofList,
    List.dropWhile_append_of_pos fun c hc => by simpa using hcs c hc]

theorem trim_append_blank (cs : List Char) {ds : List Char} (hds : ∀ c ∈ ds, c ≤ ' ') :
    trim (String.ofList (cs ++ ds)) = trim (String.ofList cs) := by
  have hrev : ∀ c ∈ ds.reverse, decide (c ≤ ' ') = true :=
    fun c hc => by simpa using hds c (List.mem_reverse.mp hc)
  rw [trim, trim, String.toList_ofList, String.toList_ofList, List.dropWhile_append]
  split_ifs with hempty
  · have hds' : ds.dropWhile (fun c => c ≤ ' ') = [] :=
      List.dropWhile_eq_nil_iff.mpr fun c hc => by simpa using hds c hc
    rw [hds', List.isEmpty_iff.mp hempty]
  · rw [List.reverse_append, List.dropWhile_append_of_pos hrev]

/-- What is between two visible characters is kept. -/
theorem mem_trim {cs ds : List Char} (hcs : ∃ c ∈ cs, ' ' < c) (hds : ∃ c ∈ ds, ' ' < c) (d : Char) :
    d ∈ (trim (String.ofList (cs ++ d :: ds))).toList := by
  have hne : ∀ {es : List Char}, (∃ c ∈ es, ' ' < c) →
      ¬ (es.dropWhile fun c => c ≤ ' ').isEmpty := fun {es} ⟨c, hc, hlt⟩ hempty => by
    have hall := List.dropWhile_eq_nil_iff.mp (List.isEmpty_iff.mp hempty) c hc
    exact absurd (of_decide_eq_true hall) (Char.not_le.mpr hlt)
  have hrev : ∃ c ∈ ds.reverse, ' ' < c := by simpa using hds
  rw [trim, String.toList_ofList, String.toList_ofList, List.dropWhile_append, if_neg (hne hcs),
    List.reverse_append, List.reverse_cons, List.append_assoc, List.dropWhile_append, if_neg (hne hrev)]
  simp

/-- `Character.digit(c, 16)`. -/
def hexDigit (c : Char) : Option Nat :=
  match digit c with
  | some d => some d
  | none =>
    ([0x61, 0x41, 0xFF21, 0xFF41].find? fun z => z ≤ c.toNat && c.toNat < z + 6).map
      fun z => c.toNat - z + 10

def decodeHexChars : List Char → Option (List UInt8)
  | [] => some []
  | [_] => none
  | a :: b :: cs =>
    (hexDigit a).bind fun x => (hexDigit b).bind fun y =>
      (decodeHexChars cs).map fun bs => UInt8.ofNat (16 * x + y) :: bs

/-- `Hex.decodeHex(s)`. -/
def decodeHex (s : String) : Option (List UInt8) := decodeHexChars s.toList

/-- The two lower-case digits of a byte. -/
def hexByte (b : UInt8) : List Char := [Nat.digitChar (b.toNat / 16), Nat.digitChar (b.toNat % 16)]

/-- `Hex.encodeHexString(bs)`. -/
def encodeHexString (bs : List UInt8) : String := String.ofList (bs.flatMap hexByte)

theorem length_encodeHexString (bs : List UInt8) :
    (encodeHexString bs).toList.length = 2 * bs.length := by
  rw [encodeHexString, String.toList_ofList]
  induction bs with
  | nil => rfl
  | cons b bs ih => simp only [List.flatMap_cons, List.length_append, List.length_cons, ih, hexByte,
      List.length_nil]; omega

theorem hexDigit_digitChar : ∀ n : Fin 16, hexDigit (Nat.digitChar n.val) = some n.val := by decide

theorem decodeHexChars_hexByte (bs : List UInt8) : decodeHexChars (bs.flatMap hexByte) = some bs := by
  induction bs with
  | nil => rfl
  | cons b bs ih =>
    have hb := b.toNat_lt
    have hhigh := hexDigit_digitChar ⟨b.toNat / 16, by omega⟩
    have hlow := hexDigit_digitChar ⟨b.toNat % 16, by omega⟩
    have hvalue : 16 * (b.toNat / 16) + b.toNat % 16 = b.toNat := by omega
    rw [List.flatMap_cons, hexByte, List.cons_append, List.cons_append, List.nil_append, decodeHexChars,
      hhigh, Option.bind_some, hlow, Option.bind_some, ih, Option.map_some, hvalue, UInt8.ofNat_toNat]

theorem decodeHex_encodeHexString (bs : List UInt8) : decodeHex (encodeHexString bs) = some bs := by
  rw [decodeHex, encodeHexString, String.toList_ofList, decodeHexChars_hexByte]

theorem encodeHexString_injective {bs bs' : List UInt8} (h : encodeHexString bs = encodeHexString bs') :
    bs = bs' := by
  have hdecode := congrArg decodeHex h
  rw [decodeHex_encodeHexString, decodeHex_encodeHexString] at hdecode
  exact Option.some.inj hdecode

/-- Two texts with a character in between. -/
theorem toList_separated (delim : Char) (s t : String) :
    (s ++ String.ofList [delim] ++ t).toList = s.toList ++ delim :: t.toList := by
  rw [String.toList_append, String.toList_append, String.toList_ofList, List.append_assoc]
  rfl

/-! ## Arrays of bytes -/

/-- The number that a `byte` is. -/
def signedByte (b : UInt8) : Int := b.toInt8.toInt

/-- A signed byte is even as the unsigned one is. -/
theorem signedByte_even (b : UInt8) : (signedByte b).tmod 2 = 0 ↔ b.toNat % 2 = 0 := by
  have hb := b.toNat_lt
  have hvalue : signedByte b = if 2 * b.toNat < 256 then (b.toNat : Int) else b.toNat - 256 :=
    BitVec.toInt_eq_toNat_cond b.toBitVec
  rw [hvalue, ← Int.dvd_iff_tmod_eq_zero]
  split <;> omega

/-- `System.arraycopy` into an array of that length. -/
def arraycopy (src : List UInt8) (srcPos length : Nat) : Option (List UInt8) :=
  if srcPos + length ≤ src.length then some ((src.drop srcPos).take length) else none

/-- `bytes[i] ^ bytes[i + 16]` for the positions of the first half. -/
def xorSixteen (bytes : List UInt8) : Option (List UInt8) :=
  (List.range (bytes.length / 2)).mapM fun i => do
    let a ← bytes[i]?
    let b ← bytes[i + 16]?
    some (a ^^^ b)

theorem mapM_eq_some {α β : Type} {f : α → Option β} {g : α → β} {l : List α} (h : ∀ a ∈ l, f a = some (g a)) :
    l.mapM f = some (l.map g) := by
  induction l with
  | nil => rfl
  | cons a l ih =>
    obtain ⟨ha, hl⟩ := List.forall_mem_cons.mp h
    rw [List.mapM_cons, ha, ih hl]
    rfl

theorem xorSixteen_eq {bytes : List UInt8} (h : bytes.length = 32) :
    xorSixteen bytes = some (List.zipWith (· ^^^ ·) (bytes.take 16) (bytes.drop 16)) := by
  have hsome : ∀ i ∈ List.range (bytes.length / 2), (do
      let a ← bytes[i]?
      let b ← bytes[i + 16]?
      some (a ^^^ b)) = some (bytes[i]?.getD 0 ^^^ bytes[i + 16]?.getD 0) := by
    intro i hi
    rw [List.mem_range, h] at hi
    have hfirst : i < bytes.length := by omega
    have hsecond : i + 16 < bytes.length := by omega
    rw [List.getElem?_eq_getElem hfirst, List.getElem?_eq_getElem hsecond]
    rfl
  rw [xorSixteen, mapM_eq_some hsome, h]
  refine congrArg some (List.ext_getElem ?_ fun i hi hi' => ?_)
  · rw [List.length_map, List.length_range, List.length_zipWith, List.length_take, List.length_drop, h]
    rfl
  · rw [List.length_map, List.length_range] at hi
    have hfirst : i < bytes.length := by omega
    have hsecond : i + 16 < bytes.length := by omega
    rw [List.getElem_map, List.getElem_range, List.getElem_zipWith, List.getElem_take, List.getElem_drop,
      List.getElem?_eq_getElem hfirst, List.getElem?_eq_getElem hsecond]
    simp only [Option.getD_some, Nat.add_comm]
end Java
