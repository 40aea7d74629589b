import MoaCrypto.Java.Text

/-!
# Scripts in URLs

The text after `javascript:` is percent-decoded before it is read as a script; ahead of that the URL parser
takes out tabs and line breaks.  `scriptOfUrl` does both.  Neither step makes a text longer in UTF-16, and a
text that stays as long was not changed (`unchanged_of_size`).
-/

namespace Web

/-! ## UTF-16 -/

/-- The code units of a code point. -/
def unitsOf (n : Nat) : List UInt16 :=
  if n < 0x10000 then [UInt16.ofNat n]
  else [UInt16.ofNat (0xD800 + (n - 0x10000) / 0x400), UInt16.ofNat (0xDC00 + (n - 0x10000) % 0x400)]

/-- The code units of a text. -/
def utf16 (cs : List Char) : List UInt16 := cs.flatMap fun c => unitsOf c.toNat

@[simp] theorem utf16_nil : utf16 [] = [] := rfl

@[simp] theorem utf16_cons (c : Char) (cs : List Char) : utf16 (c :: cs) = unitsOf c.toNat ++ utf16 cs := rfl

@[simp] theorem utf16_append (cs ds : List Char) : utf16 (cs ++ ds) = utf16 cs ++ utf16 ds := List.flatMap_append

/-- The number of code units. -/
def size (cs : List Char) : Nat := (utf16 cs).length

theorem length_unitsOf (n : Nat) : 1 ≤ (unitsOf n).length ∧ (unitsOf n).length ≤ 2 := by
  unfold unitsOf
  split <;> simp

@[simp] theorem size_nil : size [] = 0 := rfl

@[simp] theorem size_cons (c : Char) (cs : List Char) : size (c :: cs) = (unitsOf c.toNat).length + size cs := by
  rw [size, utf16_cons, List.length_append, size]

@[simp] theorem size_append (cs ds : List Char) : size (cs ++ ds) = size cs + size ds := by
  rw [size, utf16_append, List.length_append, size, size]

theorem size_le (cs : List Char) : size cs ≤ 2 * cs.length := by
  induction cs with
  | nil => exact le_rfl
  | cons c cs ih =>
    have hc := (length_unitsOf c.toNat).2
    rw [size_cons, List.length_cons]
    omega

theorem length_le_size (cs : List Char) : cs.length ≤ size cs := by
  induction cs with
  | nil => exact le_rfl
  | cons c cs ih =>
    have hc := (length_unitsOf c.toNat).1
    rw [size_cons, List.length_cons]
    omega

/-! ## Percent decoding -/

/-- The value of a hexadecimal digit of ASCII. -/
def hexValue (c : Char) : Option Nat :=
  if '0' ≤ c ∧ c ≤ '9' then some (c.toNat - 0x30)
  else if 'a' ≤ c ∧ c ≤ 'f' then some (c.toNat - 0x61 + 10)
  else if 'A' ≤ c ∧ c ≤ 'F' then some (c.toNat - 0x41 + 10)
  else none

/-- The byte of two digits. -/
def escapedByte (a b : Char) : Option UInt8 := do
  let x ← hexValue a
  let y ← hexValue b
  some (UInt8.ofNat (16 * x + y))

/-- The decoder of UTF-8 that puts a character in the place of bytes that are none. -/
structure Utf8Decoder where
  decode : List UInt8 → List Char
  length_decode : ∀ bytes, (decode bytes).length ≤ bytes.length
  decode_utf8 : ∀ s : String, decode (Java.utf8 s) = s.toList

theorem Utf8Decoder.decode_nil (d : Utf8Decoder) : d.decode [] = [] :=
  List.length_eq_zero_iff.mp (Nat.le_zero.mp (d.length_decode []))

theorem Utf8Decoder.size_decode_le (d : Utf8Decoder) (bytes : List UInt8) :
    size (d.decode bytes) ≤ 2 * bytes.length := by
  have hlength := d.length_decode bytes
  have hsize := size_le (d.decode bytes)
  omega

theorem length_utf8 (s : String) : (Java.utf8 s).length = s.toByteArray.size := by
  rw [← Java.toByteArray_utf8, List.size_toByteArray]

theorem length_le_utf8 (s : String) : s.toList.length ≤ (Java.utf8 s).length := by
  rw [Java.utf8]
  induction s.toList with
  | nil => exact le_rfl
  | cons c cs ih =>
    have hc := c.utf8Size_pos
    rw [List.flatMap_cons, List.length_append, List.length_cons, String.length_utf8EncodeChar]
    omega

/-- A decoder that puts a character in the place of every byte of what is no text as a whole. -/
def Utf8Decoder.whole : Utf8Decoder where
  decode bytes :=
    match String.fromUTF8? bytes.toByteArray with
    | some s => s.toList
    | none => bytes.map fun _ => '\uFFFD'
  length_decode bytes := by
    split
    · rename_i s hs
      obtain ⟨hvalid, hs⟩ := Option.dite_none_right_eq_some.mp hs
      cases hs
      have hle := length_le_utf8 (String.fromUTF8 bytes.toByteArray hvalid)
      rw [length_utf8] at hle
      exact le_trans hle (le_of_eq List.size_toByteArray)
    · rw [List.length_map]
  decode_utf8 s := by
    have hs : String.fromUTF8? (Java.utf8 s).toByteArray = some s := by
      rw [Java.toByteArray_utf8]
      exact dif_pos s.isValidUTF8
    rw [hs]

/-- The escapes of a text as the characters that their bytes encode; `bytes` are those of the escapes right before
it.  Every other character has its own bytes, so that only escapes in a row are decoded together. -/
def percentDecode (d : Utf8Decoder) : (bytes : List UInt8) → List Char → List Char
  | bytes, [] => d.decode bytes
  | bytes, '%' :: a :: b :: cs =>
    match escapedByte a b with
    | some byte => percentDecode d (bytes ++ [byte]) cs
    | none => d.decode bytes ++ '%' :: percentDecode d [] (a :: b :: cs)
  | bytes, c :: cs => d.decode bytes ++ c :: percentDecode d [] cs

/-- There is an escape in the text. -/
def hasEscape : List Char → Bool
  | [] => false
  | '%' :: a :: b :: cs => (escapedByte a b).isSome || hasEscape (a :: b :: cs)
  | _ :: cs => hasEscape cs

section Decode

variable (d : Utf8Decoder)

theorem percentDecode_cons {c : Char} (hc : c ≠ '%') (bytes : List UInt8) (cs : List Char) :
    percentDecode d bytes (c :: cs) = d.decode bytes ++ c :: percentDecode d [] cs := by
  rw [percentDecode]
  rintro a b cs' rfl
  exact absurd rfl hc

/-- A character that is neither a percent sign nor a digit ends whatever is before it. -/
theorem percentDecode_append {c : Char} (hc : c ≠ '%') (hdigit : hexValue c = none) (bytes : List UInt8)
    (cs ds : List Char) : percentDecode d bytes (cs ++ c :: ds) =
      percentDecode d bytes cs ++ c :: percentDecode d [] ds := by
  have hfirst : ∀ b, escapedByte c b = none := fun b => by simp [escapedByte, hdigit]
  have hsecond : ∀ a, escapedByte a c = none := fun a => by simp [escapedByte, hdigit]
  fun_induction percentDecode d bytes cs with
  | case1 bytes => exact percentDecode_cons d hc bytes ds
  | case2 bytes a b cs byte hbyte ih =>
    show percentDecode d bytes ('%' :: a :: b :: (cs ++ c :: ds)) = _
    rw [percentDecode, hbyte]
    exact ih
  | case3 bytes a b cs hbyte ih =>
    show percentDecode d bytes ('%' :: a :: b :: (cs ++ c :: ds)) = _
    rw [percentDecode, hbyte]
    show _ ++ '%' :: percentDecode d [] (a :: b :: cs ++ c :: ds) = _
    rw [ih, List.append_assoc, List.cons_append]
  | case4 bytes x cs hshort ih =>
    -- a percent sign here has one character after it at most
    have hstep : percentDecode d bytes (x :: (cs ++ c :: ds)) =
        d.decode bytes ++ x :: percentDecode d [] (cs ++ c :: ds) := by
      by_cases hx : x = '%'
      · subst hx
        match cs, hshort with
        | [], _ =>
          cases ds with
          | nil => rw [List.nil_append, percentDecode]; simp
          | cons b ds => rw [List.nil_append, percentDecode, hfirst]
        | [a], _ =>
          rw [List.singleton_append, percentDecode, hsecond]
        | a :: b :: cs, hshort => exact absurd rfl (hshort a b cs rfl)
      · exact percentDecode_cons d hx bytes _
    rw [List.cons_append, hstep, ih, List.append_assoc, List.cons_append]

theorem size_percentDecode_le (bytes : List UInt8) (cs : List Char) :
    size (percentDecode d bytes cs) ≤ 2 * bytes.length + size cs := by
  fun_induction percentDecode d bytes cs with
  | case1 bytes => exact d.size_decode_le bytes
  | case2 bytes a b cs byte _ ih =>
    have ha := (length_unitsOf a.toNat).1
    have hb := (length_unitsOf b.toNat).1
    rw [List.length_append, List.length_singleton] at ih
    rw [size_cons, size_cons, size_cons]
    omega
  | case3 bytes a b cs _ ih =>
    have hbytes := d.size_decode_le bytes
    rw [size_append, size_cons, size_cons]
    simp only [List.length_nil] at ih
    omega
  | case4 bytes c cs _ ih =>
    have hbytes := d.size_decode_le bytes
    rw [size_append, size_cons, size_cons]
    simp only [List.length_nil] at ih
    omega

/-- An escape makes the text shorter. -/
theorem size_percentDecode_lt (bytes : List UInt8) {cs : List Char} (h : hasEscape cs = true) :
    size (percentDecode d bytes cs) < 2 * bytes.length + size cs := by
  fun_induction percentDecode d bytes cs with
  | case1 bytes => cases h
  | case2 bytes a b cs byte _ _ =>
    have hrest := size_percentDecode_le d (bytes ++ [byte]) cs
    have hpercent := (length_unitsOf '%'.toNat).1
    have ha := (length_unitsOf a.toNat).1
    have hb := (length_unitsOf b.toNat).1
    rw [List.length_append, List.length_singleton] at hrest
    rw [size_cons, size_cons, size_cons]
    omega
  | case3 bytes a b cs hbyte ih =>
    rw [hasEscape, hbyte, Option.isSome_none, Bool.false_or] at h
    have hbytes := d.size_decode_le bytes
    have hrest := ih h
    rw [size_append, size_cons, size_cons]
    simp only [List.length_nil] at hrest
    omega
  | case4 bytes c cs hshort ih =>
    rw [hasEscape] at h
    · have hbytes := d.size_decode_le bytes
      have hrest := ih h
      rw [size_append, size_cons, size_cons]
      simp only [List.length_nil] at hrest
      omega
    · exact hshort

theorem percentDecode_of_not_escape (bytes : List UInt8) {cs : List Char} (h : hasEscape cs = false) :
    percentDecode d bytes cs = d.decode bytes ++ cs := by
  fun_induction percentDecode d bytes cs with
  | case1 bytes => rw [List.append_nil]
  | case2 bytes a b cs byte hbyte _ =>
    rw [hasEscape, hbyte, Option.isSome_some, Bool.true_or] at h
    cases h
  | case3 bytes a b cs hbyte ih =>
    rw [hasEscape, hbyte, Option.isSome_none, Bool.false_or] at h
    rw [ih h, d.decode_nil, List.nil_append]
  | case4 bytes c cs hshort ih =>
    rw [hasEscape] at h
    · rw [ih h, d.decode_nil, List.nil_append]
    · exact hshort

end Decode

/-! ## Tabs and line breaks -/

def isBreak (c : Char) : Bool := c = '\t' || c = '\n' || c = '\r'

/-- The text without its tabs and line breaks. -/
def withoutBreaks (cs : List Char) : List Char := cs.filter fun c => !isBreak c

theorem withoutBreaks_append (cs ds : List Char) :
    withoutBreaks (cs ++ ds) = withoutBreaks cs ++ withoutBreaks ds := List.filter_append ..

theorem withoutBreaks_of_not_mem {cs : List Char} (h : ∀ c ∈ cs, isBreak c = false) : withoutBreaks cs = cs := by
  refine List.filter_eq_self.mpr fun c hc => ?_
  rw [h c hc]
  rfl

theorem size_withoutBreaks_le (cs : List Char) : size (withoutBreaks cs) ≤ size cs := by
  induction cs with
  | nil => exact le_rfl
  | cons c cs ih =>
    unfold withoutBreaks at ih ⊢
    rw [List.filter_cons]
    split
    · rw [size_cons, size_cons]
      omega
    · rw [size_cons]
      omega

theorem withoutBreaks_of_size {cs : List Char} (h : size cs ≤ size (withoutBreaks cs)) :
    ∀ c ∈ cs, isBreak c = false := by
  induction cs with
  | nil => exact fun c hc => absurd hc List.not_mem_nil
  | cons c cs ih =>
    have hrest := size_withoutBreaks_le cs
    have hc := (length_unitsOf c.toNat).1
    unfold withoutBreaks at h hrest ih
    rw [List.filter_cons] at h
    split at h
    · rename_i hkept
      rw [size_cons, size_cons] at h
      refine List.forall_mem_cons.mpr ⟨by simpa using hkept, ih (by omega)⟩
    · rw [size_cons] at h
      omega

/-! ## The script -/

/-- The text of an argument as it arrives in the script. -/
def received (d : Utf8Decoder) (cs : List Char) : List Char := percentDecode d [] (withoutBreaks cs)

theorem size_received_le (d : Utf8Decoder) (cs : List Char) : size (received d cs) ≤ size cs := by
  have hdecoded := size_percentDecode_le d [] (withoutBreaks cs)
  have hbreaks := size_withoutBreaks_le cs
  rw [List.length_nil] at hdecoded
  rw [received]
  omega

/-- Nothing is taken out of the text or decoded. -/
structure Unchanged (cs : List Char) : Prop where
  breaks : ∀ c ∈ cs, isBreak c = false
  escape : hasEscape cs = false

instance : DecidablePred Unchanged := fun cs =>
  decidable_of_iff ((cs.all fun c => !isBreak c) = true ∧ hasEscape cs = false)
    ⟨fun h => ⟨by simpa using h.1, h.2⟩, fun h => ⟨by simpa using h.breaks, h.escape⟩⟩

theorem received_of_unchanged {d : Utf8Decoder} {cs : List Char} (h : Unchanged cs) : received d cs = cs := by
  rw [received, withoutBreaks_of_not_mem h.breaks, percentDecode_of_not_escape d [] h.escape, d.decode_nil,
    List.nil_append]

/-- A text that arrives as long as it was is unchanged. -/
theorem unchanged_of_size {d : Utf8Decoder} {cs : List Char} (h : size cs ≤ size (received d cs)) :
    Unchanged cs := by
  have hdecoded := size_percentDecode_le d [] (withoutBreaks cs)
  rw [List.length_nil] at hdecoded
  rw [received] at h
  have hbreaks := withoutBreaks_of_size (show size cs ≤ size (withoutBreaks cs) by omega)
  refine ⟨hbreaks, ?_⟩
  rw [withoutBreaks_of_not_mem hbreaks] at h
  cases hescape : hasEscape cs with
  | false => rfl
  | true =>
    have hlt := size_percentDecode_lt d [] hescape
    rw [List.length_nil] at hlt
    omega

def scheme : String := "javascript:"

/-- The script that a URL stands for. -/
def scriptOfUrl (d : Utf8Decoder) (url : String) : Option (List Char) :=
  let cs := withoutBreaks url.toList
  if scheme.toList.isPrefixOf cs then some (percentDecode d [] (cs.drop scheme.toList.length)) else none

end Web
