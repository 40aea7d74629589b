import MoaCrypto.Java.Text
import MoaCrypto.Lib.Radix

/-!
# `MoaBase58.java`

The bytes of an array are a number whose digits in base 58 are written as characters; a `1` in front
stands for a zero byte in front.  `decode` inverts `encode` on every array with a byte other than
zero (`decode_encode`) and on no other (`decode_encode_iff`): on an array of zeros `encode` writes
one `1` too many, and `decode` of a text of `1`s runs past the end of the text (`none`), as it does
for a foreign character.  `encode` inverts `decode` on every text with a character other than `1`
(`encode_decode`).
-/

namespace MoaCrypto.Wallet

open Java Radix

/-- `new BigInteger(1, bytes)`. -/
def bigInteger (bytes : List UInt8) : Nat := ofRadix 256 (bytes.map UInt8.toNat)

/-- `toByteArray()` of a number that is not negative: with a sign byte where the first bit is set. -/
def toByteArray (n : Nat) : List UInt8 :=
  match (radix 256 n).map UInt8.ofNat with
  | [] => [0]
  | first :: rest => if 128 ≤ first.toNat then 0 :: first :: rest else first :: rest

namespace MoaBase58

def ALPHABET : List Char := "123456789ABCDEFGHJKLMNPQRSTUVWXYZabcdefghijkmnopqrstuvwxyz".toList

def charAt (digit : Nat) : Char := ALPHABET.getD digit '1'

/-- The loop of `encode`, `s` being the text so far. -/
def encodeLoop (bi : Nat) (s : List Char) : List Char :=
  if 58 ≤ bi then encodeLoop (bi / 58) (charAt (bi % 58) :: s) else charAt bi :: s
termination_by bi

def encode (input : List UInt8) : String :=
  String.ofList (List.replicate (input.takeWhile fun b => b = 0).length '1' ++
    encodeLoop (bigInteger input) [])

def decodeToBigInteger (input : List Char) : Option Nat :=
  (input.mapM fun c => if c ∈ ALPHABET then some (ALPHABET.idxOf c) else none).map (ofRadix 58)

def decode (input : String) : Option (List UInt8) :=
  (decodeToBigInteger input.toList).bind fun bi =>
    let bytes := toByteArray bi
    let stripSignByte : Bool := match bytes with
      | 0 :: second :: _ => 128 ≤ second.toNat
      | _ => false
    let leadingZeros := (input.toList.takeWhile fun c => c = '1').length
    if leadingZeros = input.toList.length then none
    else some (List.replicate leadingZeros 0 ++ if stripSignByte then bytes.tail else bytes)

/-! ## Digits -/

theorem idxOf_charAt {n : Nat} (h : n < 58) :
    charAt n ∈ ALPHABET ∧ ALPHABET.idxOf (charAt n) = n := by
  have hall : ∀ n : Fin 58, charAt n.val ∈ ALPHABET ∧ ALPHABET.idxOf (charAt n.val) = n.val := by decide
  exact hall ⟨n, h⟩

theorem charAt_inj {m n : Nat} (hm : m < 58) (hn : n < 58) (h : charAt m = charAt n) : m = n := by
  rw [← (idxOf_charAt hm).2, h, (idxOf_charAt hn).2]

theorem charAt_ne_one {n : Nat} (h : n < 58) (hn : n ≠ 0) : charAt n ≠ '1' := by
  intro hone
  exact hn (charAt_inj h (by omega) (hone.trans (show '1' = charAt 0 by decide)))

/-- The digits that the loop writes. -/
def digits (bi : Nat) : List Nat := if bi = 0 then [0] else radix 58 bi

theorem encodeLoop_eq (bi : Nat) (s : List Char) : encodeLoop bi s = (digits bi).map charAt ++ s := by
  induction bi, s using encodeLoop.induct with
  | case1 bi s h ih =>
    have hdigits : radix 58 bi = radix 58 (bi / 58) ++ [bi % 58] := by
      rw [radix, radix, Nat.digits_def' (by omega) (show 0 < bi by omega), List.reverse_cons]
    rw [encodeLoop, if_pos h, ih, digits, digits, if_neg (by omega), if_neg (by omega), hdigits]
    simp
  | case2 bi s h =>
    rw [encodeLoop, if_neg h, digits]
    split
    · subst bi
      rfl
    · rename_i hbi
      rw [radix, Nat.digits_of_lt 58 bi hbi (by omega)]
      rfl

theorem toList_encode (input : List UInt8) :
    (encode input).toList = List.replicate (input.takeWhile fun b => b = 0).length '1' ++
      (digits (bigInteger input)).map charAt := by
  rw [encode, String.toList_ofList, encodeLoop_eq, List.append_nil]

theorem charAt_mem (n : Nat) : charAt n ∈ ALPHABET := by
  unfold charAt
  rw [List.getD_eq_getElem?_getD]
  cases h : ALPHABET[n]? with
  | none => decide
  | some c => exact List.mem_of_getElem? h

/-- A text in Base58 has characters of the alphabet only. -/
theorem mem_encode {input : List UInt8} {c : Char} (h : c ∈ (encode input).toList) : c ∈ ALPHABET := by
  rw [toList_encode] at h
  rcases List.mem_append.mp h with h | h
  · rw [List.eq_of_mem_replicate h]
    decide
  · obtain ⟨d, _, rfl⟩ := List.mem_map.mp h
    exact charAt_mem d

/-! ## Round trip -/

theorem mapM_charAt {ds : List Nat} (h : ∀ d ∈ ds, d < 58) :
    (ds.map charAt).mapM (fun c => if c ∈ ALPHABET then some (ALPHABET.idxOf c) else none) = some ds := by
  induction ds with
  | nil => rfl
  | cons d ds ih =>
    obtain ⟨hmem, hidx⟩ := idxOf_charAt (h d List.mem_cons_self)
    rw [List.map_cons, List.mapM_cons, if_pos hmem, hidx, ih fun d' hd' => h d' (List.mem_cons_of_mem _ hd')]
    rfl

theorem decodeToBigInteger_digits {k : Nat} {ds : List Nat} (h : ∀ d ∈ ds, d < 58) :
    decodeToBigInteger (List.replicate k '1' ++ ds.map charAt) = some (ofRadix 58 ds) := by
  have hones : List.replicate k '1' = (List.replicate k 0).map charAt := by
    rw [List.map_replicate]
    rfl
  have hlt : ∀ d ∈ List.replicate k 0 ++ ds, d < 58 := by
    intro d hd
    rcases List.mem_append.mp hd with hd | hd
    · rw [List.eq_of_mem_replicate hd]
      omega
    · exact h d hd
  rw [decodeToBigInteger, hones, ← List.map_append, mapM_charAt hlt, Option.map_some,
    ofRadix_zeros_append]

theorem bigInteger_zeros (k : Nat) (mag : List UInt8) :
    bigInteger (List.replicate k 0 ++ mag) = bigInteger mag := by
  rw [bigInteger, List.map_append, List.map_replicate]
  exact ofRadix_zeros_append 256 k _

theorem radix_bigInteger {first : UInt8} {rest : List UInt8} (h : first ≠ 0) :
    radix 256 (bigInteger (first :: rest)) = (first :: rest).map UInt8.toNat := by
  refine radix_ofRadix (by omega) ?_ ?_
  · intro d hd
    obtain ⟨b, _, rfl⟩ := List.mem_map.mp hd
    exact b.toNat_lt
  · intro d ds hds hzero
    rw [List.map_cons] at hds
    exact h (UInt8.toNat_inj.mp ((List.cons.inj hds).1.trans hzero))

theorem toByteArray_bigInteger {first : UInt8} {rest : List UInt8} (h : first ≠ 0) :
    toByteArray (bigInteger (first :: rest)) =
      if 128 ≤ first.toNat then 0 :: first :: rest else first :: rest := by
  have hbytes : (radix 256 (bigInteger (first :: rest))).map UInt8.ofNat = first :: rest := by
    rw [radix_bigInteger h, List.map_map]
    exact (List.map_congr_left fun b _ => UInt8.ofNat_toNat).trans (List.map_id _)
  unfold toByteArray
  rw [hbytes]

/-- The number of a list that does not start with a zero is not zero. -/
theorem bigInteger_ne_zero {first : UInt8} {rest : List UInt8} (h : first ≠ 0) :
    bigInteger (first :: rest) ≠ 0 := by
  intro hzero
  have hradix : radix 256 (bigInteger (first :: rest)) = _ := radix_bigInteger h
  rw [hzero, radix_eq_nil.mpr rfl] at hradix
  cases hradix

theorem takeWhile_zeros (k : Nat) {first : UInt8} {rest : List UInt8} (h : first ≠ 0) :
    (List.replicate k 0 ++ first :: rest).takeWhile (fun b => b = 0) = List.replicate k 0 := by
  rw [List.takeWhile_append_of_pos (by simp), List.takeWhile_cons_of_neg (by simpa using h),
    List.append_nil]

/-- The text of zeros in front of `first :: rest`. -/
theorem toList_encode_zeros (k : Nat) {first : UInt8} {rest : List UInt8} (h : first ≠ 0) :
    ∃ d ds, radix 58 (bigInteger (first :: rest)) = d :: ds ∧ d ≠ 0 ∧
      (encode (List.replicate k 0 ++ first :: rest)).toList =
        List.replicate k '1' ++ (d :: ds).map charAt := by
  obtain ⟨d, ds, hds⟩ : ∃ d ds, radix 58 (bigInteger (first :: rest)) = d :: ds := by
    refine List.exists_cons_of_ne_nil fun hnil => ?_
    exact bigInteger_ne_zero h (radix_eq_nil.mp hnil)
  refine ⟨d, ds, hds, head_radix_ne_zero hds, ?_⟩
  rw [toList_encode, takeWhile_zeros k h, bigInteger_zeros, digits, if_neg (bigInteger_ne_zero h), hds,
    List.length_replicate]

theorem decode_encode_zeros (k : Nat) {first : UInt8} {rest : List UInt8} (h : first ≠ 0) :
    decode (encode (List.replicate k 0 ++ first :: rest)) =
      some (List.replicate k 0 ++ first :: rest) := by
  obtain ⟨d, ds, hds, hd, htext⟩ : ∃ d ds, radix 58 (bigInteger (first :: rest)) = d :: ds ∧ d ≠ 0 ∧ _ :=
    toList_encode_zeros k h
  have hlt : ∀ d' ∈ d :: ds, d' < 58 := fun d' hd' =>
    lt_of_mem_radix (n := bigInteger (first :: rest)) (by omega) (by rw [hds]; exact hd')
  have hones : (List.replicate k '1' ++ (d :: ds).map charAt).takeWhile (fun c => c = '1') =
      List.replicate k '1' := by
    rw [List.takeWhile_append_of_pos (by simp), List.map_cons,
      List.takeWhile_cons_of_neg (by simpa using charAt_ne_one (hlt d List.mem_cons_self) hd),
      List.append_nil]
  have hvalue : ofRadix 58 (d :: ds) = bigInteger (first :: rest) := by rw [← hds, ofRadix_radix]
  unfold decode
  rw [htext, decodeToBigInteger_digits hlt, Option.bind_some, hvalue, toByteArray_bigInteger h, hones]
  by_cases hsign : 128 ≤ first.toNat
  · simp [hsign]
  · simp [hsign, h]

/-- **Round trip** on arrays with a byte other than zero. -/
theorem decode_encode {input : List UInt8} (h : ∃ b ∈ input, b ≠ 0) : decode (encode input) = some input := by
  obtain ⟨k, mag, rfl, hmag⟩ := exists_replicate_append (0 : UInt8) input
  cases mag with
  | nil =>
    obtain ⟨b, hb, hne⟩ := h
    rw [List.append_nil] at hb
    exact absurd (List.eq_of_mem_replicate hb) hne
  | cons first rest => exact decode_encode_zeros k (hmag first rest rfl)

theorem toList_encode_replicate (k : Nat) :
    (encode (List.replicate k 0)).toList = List.replicate (k + 1) '1' := by
  have hbig : bigInteger (List.replicate k 0) = 0 := by
    rw [← List.append_nil (List.replicate k 0), bigInteger_zeros]
    rfl
  have hzeros : (List.replicate k (0 : UInt8)).takeWhile (fun b => b = 0) = List.replicate k 0 := by
    simp
  rw [toList_encode, hbig, hzeros, List.length_replicate, List.replicate_succ']
  rfl

/-- Zeros are not decoded. -/
theorem decode_encode_replicate (k : Nat) : decode (encode (List.replicate k 0)) = none := by
  unfold decode
  rw [toList_encode_replicate]
  cases decodeToBigInteger (List.replicate (k + 1) '1') with
  | none => rfl
  | some bi => simp

theorem eq_replicate {input : List UInt8} (h : ¬ ∃ b ∈ input, b ≠ 0) :
    input = List.replicate input.length 0 := by
  refine List.eq_replicate_of_mem fun b hb => ?_
  by_contra hne
  exact h ⟨b, hb, hne⟩

theorem decode_encode_of_zeros {input : List UInt8} (h : ¬ ∃ b ∈ input, b ≠ 0) :
    decode (encode input) = none := by
  rw [eq_replicate h, decode_encode_replicate]

/-- The arrays that survive the round trip: those with a byte other than zero. -/
theorem decode_encode_iff (input : List UInt8) :
    decode (encode input) = some input ↔ ∃ b ∈ input, b ≠ 0 := by
  constructor
  · intro h
    by_contra hzeros
    rw [decode_encode_of_zeros hzeros] at h
    cases h
  · exact decode_encode

/-- One zero byte is written `11`, and `decode` looks for the character after it. -/
theorem decode_encode_zero : encode [0] = "11" ∧ decode (encode [0]) = none ∧
    ¬ ∀ input, decode (encode input) = some input := by
  have htext : encode [0] = "11" := String.ext (toList_encode_replicate 1)
  have hnone : decode (encode [0]) = none := decode_encode_replicate 1
  refine ⟨htext, hnone, fun hall => ?_⟩
  rw [hall [0]] at hnone
  cases hnone

theorem encode_injective {x y : List UInt8} (h : encode x = encode y) : x = y := by
  by_cases hx : ∃ b ∈ x, b ≠ 0
  · have hdecode := decode_encode hx
    rw [h] at hdecode
    by_cases hy : ∃ b ∈ y, b ≠ 0
    · exact Option.some.inj (hdecode.symm.trans (decode_encode hy))
    · rw [decode_encode_of_zeros hy] at hdecode
      cases hdecode
  · have hdecode := decode_encode_of_zeros hx
    rw [h] at hdecode
    by_cases hy : ∃ b ∈ y, b ≠ 0
    · rw [decode_encode hy] at hdecode
      cases hdecode
    · have hlen := congrArg (fun s => s.toList.length) h
      rw [eq_replicate hx, eq_replicate hy] at hlen ⊢
      simp only [toList_encode_replicate, List.length_replicate] at hlen
      rw [show x.length = y.length by omega]

/-! ## Round trip of texts -/

/-- A text over the alphabet with a character other than `1`. -/
structure Spelled (s : String) : Prop where
  alphabet : ∀ c ∈ s.toList, c ∈ ALPHABET
  notOnes : ∃ c ∈ s.toList, c ≠ '1'

theorem idxOf_lt {c : Char} (h : c ∈ ALPHABET) : ALPHABET.idxOf c < 58 := List.idxOf_lt_length_of_mem h

theorem charAt_idxOf {c : Char} (h : c ∈ ALPHABET) : charAt (ALPHABET.idxOf c) = c := by
  have hlt : ALPHABET.idxOf c < ALPHABET.length := idxOf_lt h
  rw [charAt, List.getD_eq_getElem?_getD, List.getElem?_eq_getElem hlt, Option.getD_some]
  exact List.getElem_idxOf hlt

/-- The digits of a text over the alphabet. -/
theorem exists_digits {cs : List Char} (h : ∀ c ∈ cs, c ∈ ALPHABET) :
    ∃ ds : List Nat, (∀ d ∈ ds, d < 58) ∧ ds.map charAt = cs := by
  refine ⟨cs.map ALPHABET.idxOf, ?_, ?_⟩
  · intro d hd
    obtain ⟨c, hc, rfl⟩ := List.mem_map.mp hd
    exact idxOf_lt (h c hc)
  · rw [List.map_map]
    exact (List.map_congr_left fun c hc => charAt_idxOf (h c hc)).trans (List.map_id _)

/-- The bytes of a number other than zero. -/
theorem exists_bytes {n : Nat} (h : n ≠ 0) :
    ∃ (first : UInt8) (rest : List UInt8), first ≠ 0 ∧ bigInteger (first :: rest) = n := by
  obtain ⟨d, ds, hds⟩ : ∃ d ds, radix 256 n = d :: ds :=
    List.exists_cons_of_ne_nil fun hnil => h (radix_eq_nil.mp hnil)
  have hlt : ∀ d' ∈ d :: ds, d' < 256 := fun d' hd' =>
    lt_of_mem_radix (n := n) (by omega) (by rw [hds]; exact hd')
  have htoNat : ∀ d' ∈ d :: ds, (UInt8.ofNat d').toNat = d' := fun d' hd' =>
    UInt8.toNat_ofNat_of_lt' (hlt d' hd')
  refine ⟨UInt8.ofNat d, ds.map UInt8.ofNat, ?_, ?_⟩
  · intro hzero
    have hd := htoNat d List.mem_cons_self
    rw [hzero] at hd
    exact head_radix_ne_zero hds hd.symm
  · have hmap : ((d :: ds).map UInt8.ofNat).map UInt8.toNat = d :: ds := by
      rw [List.map_map]
      exact (List.map_congr_left htoNat).trans (List.map_id _)
    rw [bigInteger, ← List.map_cons, hmap, ← hds, ofRadix_radix]

/-- A text that is spelled is what some bytes, not all zero, are written as. -/
theorem Spelled.exists_encode {s : String} (h : Spelled s) :
    ∃ bytes, encode bytes = s ∧ ∃ b ∈ bytes, b ≠ 0 := by
  obtain ⟨k, cs, hs, hcs⟩ := exists_replicate_append '1' s.toList
  have hmem : ∀ c ∈ cs, c ∈ ALPHABET := fun c hc =>
    h.alphabet c (by rw [hs]; exact List.mem_append_right _ hc)
  obtain ⟨ds, hlt, rfl⟩ := exists_digits hmem
  -- the first digit is not zero: no `1` stands in front of the rest
  have hhead : ∀ d rest, ds = d :: rest → d ≠ 0 := by
    rintro d rest rfl rfl
    exact hcs (charAt 0) (rest.map charAt) rfl (by decide)
  have hradix : radix 58 (ofRadix 58 ds) = ds := radix_ofRadix (by omega) hlt hhead
  have hne : ofRadix 58 ds ≠ 0 := by
    intro hzero
    rw [hzero, radix_eq_nil.mpr rfl] at hradix
    obtain ⟨c, hc, hone⟩ := h.notOnes
    rw [hs, ← hradix, List.map_nil, List.append_nil] at hc
    exact hone (List.eq_of_mem_replicate hc)
  obtain ⟨first, rest, hfirst, hvalue⟩ := exists_bytes hne
  obtain ⟨d, ds', hds, _, htext⟩ : ∃ d ds', radix 58 (bigInteger (first :: rest)) = d :: ds' ∧ d ≠ 0 ∧ _ :=
    toList_encode_zeros k hfirst
  rw [hvalue, hradix] at hds
  refine ⟨List.replicate k 0 ++ first :: rest, String.ext ?_, first, by simp, hfirst⟩
  rw [htext, hs, hds]

/-- **Round trip** of texts: what `decode` reads is written back, and no two texts are read alike. -/
theorem encode_decode {s : String} (h : Spelled s) :
    (∃ bytes, decode s = some bytes ∧ encode bytes = s) ∧
      ∀ t, Spelled t → decode t = decode s → t = s := by
  obtain ⟨bytes, rfl, hbytes⟩ := h.exists_encode
  have hdecode : decode (encode bytes) = some bytes := decode_encode hbytes
  refine ⟨⟨bytes, hdecode, rfl⟩, fun t ht heq => ?_⟩
  obtain ⟨bytes', rfl, hbytes'⟩ := ht.exists_encode
  rw [decode_encode hbytes', hdecode] at heq
  rw [Option.some.inj heq]

theorem spelled_leading : Spelled "112" where
  alphabet := @of_decide_eq_true _
    (List.decidableBAll (fun c : Char => c ∈ ALPHABET) "112".toList) rfl
  notOnes := ⟨'2', by simp, by decide⟩

theorem encode_decode_leading : Spelled "112" ∧
    ((∃ bytes, decode "112" = some bytes ∧ encode bytes = "112") ∧
      ∀ t, Spelled t → decode t = decode "112" → t = "112") :=
  ⟨spelled_leading, encode_decode spelled_leading⟩

end MoaBase58

end MoaCrypto.Wallet
