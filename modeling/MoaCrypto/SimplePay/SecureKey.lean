import MoaCrypto.SimplePay.Payments

/-!
# What the secure key covers

`getMessageDigestForSecureKey` copies as many bytes of the challenge as the challenge has
`char`s, so the end of a text with a character outside ASCII is not hashed.  `covers_iff`: the
digest covers nonce, member and order, and so tells every two orders apart, exactly if the
challenge is ASCII.
-/

namespace MoaCrypto.SimplePay

open Java QueryProg

/-- The bytes that `getMessageDigestForSecureKey` hashes. -/
def digestInput (targetData secretKey : String) : Option (List UInt8) :=
  (Base64.decode secretKey).map (mergeByte targetData)

theorem getMessageDigestForSecureKey_eq {targetData secretKey : String} {input : List UInt8}
    (h : digestInput targetData secretKey = some input) :
    getMessageDigestForSecureKey targetData secretKey = .ret (Base64.encode (Sha256.digest input)) := by
  obtain ⟨key, hkey, rfl⟩ := Option.map_eq_some_iff.mp h
  rw [getMessageDigestForSecureKey, hkey]
  rfl

/-- The digest of the member's challenge covers all of it. -/
structure Covers (memoryVo : MoaMemoryVo) (memberId secretKey : String) : Prop where
  /-- Hashed are the decoded key and all bytes of the challenge. -/
  whole : ∃ key, Base64.decode secretKey = some key ∧
    digestInput (combinedStr memoryVo memberId) secretKey =
      some (key ++ utf8 (memoryVo.memory1 ++ memberId ++ memoryVo.memory2))
  /-- No challenge with another order has the same input. -/
  order : ∀ orderId, orderId ≠ memoryVo.memory2 →
    digestInput (combinedStr { memoryVo with memory2 := orderId } memberId) secretKey ≠
      digestInput (combinedStr memoryVo memberId) secretKey

/-! ## Characters and bytes -/

theorem utf16Length_ofList_cons (c : Char) (cs : List Char) :
    utf16Length (String.ofList (c :: cs)) =
      (if 0x10000 ≤ c.toNat then 2 else 1) + utf16Length (String.ofList cs) := by
  unfold utf16Length
  rw [String.toList_ofList, String.toList_ofList, List.map_cons, List.sum_cons]

theorem utf8_ofList_cons (c : Char) (cs : List Char) :
    utf8 (String.ofList (c :: cs)) = String.utf8EncodeChar c ++ utf8 (String.ofList cs) := by
  unfold utf8
  rw [String.toList_ofList, String.toList_ofList, List.flatMap_cons]

/-- The bytes that are copied are all ASCII only if the text is. -/
theorem isAscii_of_take {s : String} (h : ∀ b ∈ (utf8 s).take (utf16Length s), b.toNat < 128) :
    IsAscii s := by
  rw [← String.ofList_toList (s := s)] at h ⊢
  generalize s.toList = cs at h
  induction cs with
  | nil =>
    intro c hc
    rw [String.toList_ofList] at hc
    cases hc
  | cons c cs ih =>
    rw [utf8_ofList_cons, utf16Length_ofList_cons] at h
    by_cases hc : c.toNat < 128
    · rw [utf8EncodeChar_ascii hc, if_neg (by omega), Nat.add_comm, List.singleton_append,
        List.take_succ_cons] at h
      intro d hd
      rw [String.toList_ofList] at hd
      rcases List.mem_cons.mp hd with rfl | hd
      · exact hc
      · exact ih (fun b hb => h b (List.mem_cons_of_mem _ hb)) d (by rwa [String.toList_ofList])
    · -- the first byte of the character is copied
      obtain ⟨b, bytes, hbytes⟩ := List.exists_cons_of_ne_nil (String.utf8EncodeChar_ne_nil (c := c))
      have hwide := (utf8EncodeChar_wide (Nat.not_lt.mp hc)).2 b (by rw [hbytes]; exact List.mem_cons_self)
      obtain ⟨n, hn⟩ : ∃ n, (if 0x10000 ≤ c.toNat then 2 else 1) + utf16Length (String.ofList cs) = n + 1 := by
        split
        · exact ⟨1 + utf16Length (String.ofList cs), by omega⟩
        · exact ⟨utf16Length (String.ofList cs), by omega⟩
      have hcopied := h b (by
        rw [hbytes, hn, List.cons_append, List.take_succ_cons]
        exact List.mem_cons_self)
      omega

/-- A character outside ASCII has more bytes than `char`s. -/
theorem chars_lt_bytes {c : Char} (h : 128 ≤ c.toNat) :
    (if 0x10000 ≤ c.toNat then 2 else 1) < (String.utf8EncodeChar c).length := by
  have hval : c.toNat = c.val.toNat := rfl
  by_cases hbmp : c.toNat < 0x10000
  · rw [if_neg (by omega)]
    exact (utf8EncodeChar_wide h).1
  · rw [if_pos (by omega), String.utf8EncodeChar, if_neg (by omega), if_neg (by omega), if_neg (by omega)]
    show 2 < 4
    omega

theorem utf16Length_le (s : String) : utf16Length s ≤ (utf8 s).length := by
  rw [← String.ofList_toList (s := s)]
  induction s.toList with
  | nil => exact Nat.le_refl 0
  | cons c cs ih =>
    rw [utf8_ofList_cons, utf16Length_ofList_cons, List.length_append]
    by_cases hc : c.toNat < 128
    · rw [utf8EncodeChar_ascii hc, if_neg (by omega), List.length_singleton]
      omega
    · have hlt := chars_lt_bytes (Nat.not_lt.mp hc)
      omega

/-- As many bytes as `char`s only ASCII has. -/
theorem isAscii_of_length {s : String} (h : (utf8 s).length ≤ utf16Length s) : IsAscii s := by
  rw [← String.ofList_toList (s := s)] at h ⊢
  generalize s.toList = cs at h
  induction cs with
  | nil =>
    intro c hc
    rw [String.toList_ofList] at hc
    cases hc
  | cons c cs ih =>
    rw [utf8_ofList_cons, utf16Length_ofList_cons, List.length_append] at h
    have hrest := utf16Length_le (String.ofList cs)
    by_cases hc : c.toNat < 128
    · rw [utf8EncodeChar_ascii hc, if_neg (by omega), List.length_singleton] at h
      intro d hd
      rw [String.toList_ofList] at hd
      rcases List.mem_cons.mp hd with rfl | hd
      · exact hc
      · exact ih (by omega) d (by rwa [String.toList_ofList])
    · have hlt := chars_lt_bytes (Nat.not_lt.mp hc)
      omega

/-! ## The challenge -/

variable {memoryVo : MoaMemoryVo} {memberId secretKey : String} {key : List UInt8}

theorem digestInput_eq (hkey : Base64.decode secretKey = some key) (targetData : String) :
    digestInput targetData secretKey = some (mergeByte targetData key) := by
  rw [digestInput, hkey, Option.map_some]

/-- All of the challenge is hashed only if it is ASCII. -/
theorem isAscii_of_whole (hkey : Base64.decode secretKey = some key)
    (h : digestInput (combinedStr memoryVo memberId) secretKey =
      some (key ++ utf8 (combinedStr memoryVo memberId))) : IsAscii (combinedStr memoryVo memberId) := by
  rw [digestInput_eq hkey, Option.some.injEq, mergeByte, List.append_cancel_left_eq] at h
  have hlength := congrArg List.length h
  rw [List.length_take] at hlength
  exact isAscii_of_length (by omega)

/-- Another order cannot be cut down to an ASCII challenge. -/
theorem order_of_ascii (hkey : Base64.decode secretKey = some key)
    (hascii : IsAscii (combinedStr memoryVo memberId)) {orderId : String}
    (h : digestInput (combinedStr { memoryVo with memory2 := orderId } memberId) secretKey =
      digestInput (combinedStr memoryVo memberId) secretKey) : orderId = memoryVo.memory2 := by
  rw [digestInput_eq hkey, digestInput_eq hkey, Option.some.injEq, mergeByte_ascii hascii, mergeByte,
    List.append_cancel_left_eq] at h
  have hascii' : IsAscii (combinedStr { memoryVo with memory2 := orderId } memberId) := by
    apply isAscii_of_take
    intro b hb
    rw [h] at hb
    obtain ⟨c, hc, hb⟩ := List.mem_flatMap.mp hb
    have hlt := hascii c hc
    rw [utf8EncodeChar_ascii hlt, List.mem_singleton] at hb
    rw [hb, UInt8.toNat_ofNat_of_lt' (show c.toNat < 256 by omega)]
    exact hlt
  have hwhole := mergeByte_ascii hascii' []
  rw [mergeByte, List.nil_append, List.nil_append, h] at hwhole
  have htexts := congrArg String.toList (utf8_injective hwhole)
  simp only [combinedStr, String.toList_append] at htexts
  exact String.toList_inj.mp (List.append_cancel_left htexts).symm

/-- **The secure-key digest covers the whole challenge** exactly if the challenge is ASCII. -/
theorem covers_iff (hkey : (Base64.decode secretKey).isSome = true) :
    Covers memoryVo memberId secretKey ↔ IsAscii (combinedStr memoryVo memberId) := by
  obtain ⟨key, hkey⟩ := Option.isSome_iff_exists.mp hkey
  constructor
  · rintro ⟨⟨key', hkey', hwhole⟩, -⟩
    obtain rfl := Option.some.inj (hkey.symm.trans hkey')
    exact isAscii_of_whole hkey hwhole
  · intro hascii
    refine ⟨⟨key, hkey, ?_⟩, fun orderId hne h => hne (order_of_ascii hkey hascii h)⟩
    rw [digestInput_eq hkey, mergeByte_ascii hascii]
    rfl

/-- The challenge of a nonce, a member and an order in ASCII. -/
theorem covers_ascii : (Base64.decode "c2VjcmV0").isSome = true ∧
    Covers ⟨"requestPayment", "1", "5f0c", "A-17"⟩ "member" "c2VjcmV0" :=
  ⟨by decide, (covers_iff (by decide)).mpr (by decide)⟩

/-- Two orders that differ in their last letter have one digest: the two letters before it have
three bytes each, and the last five bytes of the challenge are cut off. -/
theorem not_covers_korean : ¬ Covers ⟨"requestPayment", "1", "5f0c", "주문1"⟩ "member" "c2VjcmV0" := by
  intro h
  refine h.order "주문2" (by decide) ?_
  decide

end MoaCrypto.SimplePay
