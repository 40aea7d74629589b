import MoaCrypto.Java.Text

/-!
# `java.util.Base64`

The basic encoder writes three bytes as four digits and pads the last group.  The
basic decoder takes the same groups; the padding may be missing altogether, but
must be complete where it starts, and ends the text.  `none` stands for its
`IllegalArgumentException`.
-/

namespace Java.Base64

/-- The alphabet. -/
def encodeDigit (n : Nat) : Char :=
  if n < 26 then Char.ofNat (65 + n)
  else if n < 52 then Char.ofNat (71 + n)
  else if n < 62 then Char.ofNat (n - 4)
  else if n = 62 then '+'
  else '/'

def decodeDigit (c : Char) : Option Nat :=
  if 65 ≤ c.toNat ∧ c.toNat ≤ 90 then some (c.toNat - 65)
  else if 97 ≤ c.toNat ∧ c.toNat ≤ 122 then some (c.toNat - 71)
  else if 48 ≤ c.toNat ∧ c.toNat ≤ 57 then some (c.toNat + 4)
  else if c = '+' then some 62
  else if c = '/' then some 63
  else none

def encodeChars : List UInt8 → List Char
  | [] => []
  | [a] => [encodeDigit (a.toNat / 4), encodeDigit (a.toNat % 4 * 16), '=', '=']
  | [a, b] =>
    [encodeDigit (a.toNat / 4), encodeDigit (a.toNat % 4 * 16 + b.toNat / 16),
      encodeDigit (b.toNat % 16 * 4), '=']
  | a :: b :: c :: bs =>
    encodeDigit (a.toNat / 4) :: encodeDigit (a.toNat % 4 * 16 + b.toNat / 16) ::
      encodeDigit (b.toNat % 16 * 4 + c.toNat / 64) :: encodeDigit (c.toNat % 64) ::
      encodeChars bs

/-- `Base64.getEncoder().encode(bs)`. -/
def encode (bs : List UInt8) : String := String.ofList (encodeChars bs)

def decodeChars : List Char → Option (List UInt8)
  | [] => some []
  | [_] => none
  | [a, b] =>
    (decodeDigit a).bind fun x => (decodeDigit b).map fun y => [UInt8.ofNat (x * 4 + y / 16)]
  | [a, b, c] =>
    (decodeDigit a).bind fun x => (decodeDigit b).bind fun y => (decodeDigit c).map fun z =>
      [UInt8.ofNat (x * 4 + y / 16), UInt8.ofNat (y % 16 * 16 + z / 4)]
  | a :: b :: c :: d :: cs =>
    (decodeDigit a).bind fun x => (decodeDigit b).bind fun y =>
      if c = '=' then
        if d = '=' ∧ cs = [] then some [UInt8.ofNat (x * 4 + y / 16)] else none
      else (decodeDigit c).bind fun z =>
        if d = '=' then
          if cs = [] then some [UInt8.ofNat (x * 4 + y / 16), UInt8.ofNat (y % 16 * 16 + z / 4)]
          else none
        else (decodeDigit d).bind fun w => (decodeChars cs).map fun bs =>
          UInt8.ofNat (x * 4 + y / 16) :: UInt8.ofNat (y % 16 * 16 + z / 4) ::
            UInt8.ofNat (z % 4 * 64 + w) :: bs

/-- `Base64.getDecoder().decode(s)`. -/
def decode (s : String) : Option (List UInt8) := decodeChars s.toList

/-! ## Round trip -/

theorem decodeDigit_encodeDigit {n : Nat} (h : n < 64) : decodeDigit (encodeDigit n) = some n := by
  have hall : ∀ n : Fin 64, decodeDigit (encodeDigit n.val) = some n.val := by decide
  exact hall ⟨n, h⟩

theorem encodeDigit_ne_pad {n : Nat} (h : n < 64) : encodeDigit n ≠ '=' := by
  have hall : ∀ n : Fin 64, encodeDigit n.val ≠ '=' := by decide
  exact hall ⟨n, h⟩

theorem ofNat_eq {n : Nat} {a : UInt8} (h : n = a.toNat) : UInt8.ofNat n = a := by
  rw [h, UInt8.ofNat_toNat]

/-- Four digits are three bytes. -/
theorem decodeChars_digits (a b c : UInt8) (cs : List Char) :
    decodeChars (encodeDigit (a.toNat / 4) :: encodeDigit (a.toNat % 4 * 16 + b.toNat / 16) ::
      encodeDigit (b.toNat % 16 * 4 + c.toNat / 64) :: encodeDigit (c.toNat % 64) :: cs) =
      (decodeChars cs).map fun bs => a :: b :: c :: bs := by
  have ha := a.toNat_lt
  have hb := b.toNat_lt
  have hc := c.toNat_lt
  have hthird : b.toNat % 16 * 4 + c.toNat / 64 < 64 := by omega
  have hfourth : c.toNat % 64 < 64 := by omega
  have hx : UInt8.ofNat (a.toNat / 4 * 4 + (a.toNat % 4 * 16 + b.toNat / 16) / 16) = a := ofNat_eq (by omega)
  have hy : UInt8.ofNat ((a.toNat % 4 * 16 + b.toNat / 16) % 16 * 16 + (b.toNat % 16 * 4 + c.toNat / 64) / 4) = b :=
    ofNat_eq (by omega)
  have hz : UInt8.ofNat ((b.toNat % 16 * 4 + c.toNat / 64) % 4 * 64 + c.toNat % 64) = c := ofNat_eq (by omega)
  simp only [decodeChars, decodeDigit_encodeDigit (show a.toNat / 4 < 64 by omega),
    decodeDigit_encodeDigit (show a.toNat % 4 * 16 + b.toNat / 16 < 64 by omega), decodeDigit_encodeDigit hthird,
    decodeDigit_encodeDigit hfourth, Option.bind_some, encodeDigit_ne_pad hthird, encodeDigit_ne_pad hfourth,
    if_false, hx, hy, hz]

theorem decodeChars_encodeChars (bs : List UInt8) : decodeChars (encodeChars bs) = some bs := by
  induction bs using encodeChars.induct with
  | case1 => rfl
  | case2 a =>
    have ha := a.toNat_lt
    simp only [encodeChars, decodeChars, decodeDigit_encodeDigit (show a.toNat / 4 < 64 by omega),
      decodeDigit_encodeDigit (show a.toNat % 4 * 16 < 64 by omega), Option.bind_some, and_self,
      if_true, Option.some.injEq, List.cons.injEq, and_true]
    exact ofNat_eq (by omega)
  | case3 a b =>
    have ha := a.toNat_lt
    have hb := b.toNat_lt
    simp only [encodeChars, decodeChars, decodeDigit_encodeDigit (show a.toNat / 4 < 64 by omega),
      decodeDigit_encodeDigit (show a.toNat % 4 * 16 + b.toNat / 16 < 64 by omega),
      decodeDigit_encodeDigit (show b.toNat % 16 * 4 < 64 by omega), Option.bind_some,
      encodeDigit_ne_pad (show b.toNat % 16 * 4 < 64 by omega), if_false, if_true,
      Option.some.injEq, List.cons.injEq, and_true]
    exact ⟨ofNat_eq (by omega), ofNat_eq (by omega)⟩
  | case4 a b c bs ih => rw [encodeChars, decodeChars_digits, ih, Option.map_some]

/-- **Round trip.** -/
theorem decode_encode (bs : List UInt8) : decode (encode bs) = some bs := by
  rw [decode, encode, String.toList_ofList]
  exact decodeChars_encodeChars bs

/-- Only the empty array has the empty text. -/
theorem encode_ne (bs : List UInt8) (h : bs ≠ []) : encode bs ≠ "" := by
  intro hempty
  have hdecode := decode_encode bs
  rw [hempty] at hdecode
  exact h (Option.some.inj hdecode).symm

/-! ## Alphabet -/

/-- A character that is neither a digit nor the padding. -/
def Foreign (c : Char) : Prop := c ≠ '=' ∧ ∀ n : Fin 64, encodeDigit n.val ≠ c

instance (c : Char) : Decidable (Foreign c) := inferInstanceAs (Decidable (_ ∧ _))

theorem Foreign.ne {c : Char} (hc : Foreign c) {n : Nat} (h : n < 64) : c ≠ encodeDigit n :=
  fun he => hc.2 ⟨n, h⟩ he.symm

theorem not_mem_encodeChars {c : Char} (hc : Foreign c) (bs : List UInt8) : c ∉ encodeChars bs := by
  induction bs using encodeChars.induct with
  | case1 => exact List.not_mem_nil
  | case2 a =>
    have ha := a.toNat_lt
    simp [encodeChars, hc.1, hc.ne (show a.toNat / 4 < 64 by omega),
      hc.ne (show a.toNat % 4 * 16 < 64 by omega)]
  | case3 a b =>
    have ha := a.toNat_lt
    have hb := b.toNat_lt
    simp [encodeChars, hc.1, hc.ne (show a.toNat / 4 < 64 by omega),
      hc.ne (show a.toNat % 4 * 16 + b.toNat / 16 < 64 by omega),
      hc.ne (show b.toNat % 16 * 4 < 64 by omega)]
  | case4 a b c' bs ih =>
    have ha := a.toNat_lt
    have hb := b.toNat_lt
    have hc' := c'.toNat_lt
    simp [encodeChars, ih, hc.ne (show a.toNat / 4 < 64 by omega),
      hc.ne (show a.toNat % 4 * 16 + b.toNat / 16 < 64 by omega),
      hc.ne (show b.toNat % 16 * 4 + c'.toNat / 64 < 64 by omega),
      hc.ne (show c'.toNat % 64 < 64 by omega)]

/-- A text in Base64 may stand between separators that are foreign to it. -/
theorem not_mem_encode {c : Char} (hc : Foreign c) (bs : List UInt8) : c ∉ (encode bs).toList := by
  rw [encode, String.toList_ofList]
  exact not_mem_encodeChars hc bs

end Java.Base64
