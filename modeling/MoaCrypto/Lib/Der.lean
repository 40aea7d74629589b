import MoaCrypto.Lib.Radix

/-!
# DER: tag, length, contents

The encodings of integers and of sequences of them, and a reader that takes the first value of some
bytes and leaves the rest (`readTlv_tlv`).  The reader takes any definite length, that is, also one
that is written with more bytes than it needs.
-/

namespace Der

open Radix

abbrev Bytes := List UInt8

/-! ## Integers -/

def natValue (bs : Bytes) : Nat := ofRadix 256 (bs.map UInt8.toNat)

/-- The bytes of a number, the first of them zero where the sign bit would be set. -/
def natContents (n : Nat) : Bytes :=
  match (radix 256 n).map UInt8.ofNat with
  | [] => [0]
  | first :: rest => if 128 ≤ first.toNat then 0 :: first :: rest else first :: rest

/-- The bytes of an integer in two's complement. -/
def intContents : Int → Bytes
  | .ofNat n => natContents n
  | .negSucc n => (natContents n).map fun b => 255 - b

theorem natValue_zero_cons (bs : Bytes) : natValue (0 :: bs) = natValue bs :=
  ofRadix_zeros_append 256 1 (bs.map UInt8.toNat)

theorem natValue_radix (n : Nat) : natValue ((radix 256 n).map UInt8.ofNat) = n := by
  have hmap : ((radix 256 n).map UInt8.ofNat).map UInt8.toNat = radix 256 n := by
    rw [List.map_map]
    refine (List.map_congr_left fun d hd => ?_).trans (List.map_id _)
    exact UInt8.toNat_ofNat_of_lt' (lt_of_mem_radix (by decide) hd)
  rw [natValue, hmap, ofRadix_radix]

theorem natValue_natContents (n : Nat) : natValue (natContents n) = n := by
  have hvalue := natValue_radix n
  unfold natContents
  cases h : (radix 256 n).map UInt8.ofNat with
  | nil =>
    rw [h] at hvalue
    exact (show natValue [0] = natValue [] from rfl).trans hvalue
  | cons first rest =>
    rw [h] at hvalue
    dsimp only
    split
    · rw [natValue_zero_cons, hvalue]
    · exact hvalue

/-- The bits of the contents turned over. -/
theorem natValue_complement (bs : Bytes) :
    natValue (bs.map fun b => 255 - b) + natValue bs + 1 = 256 ^ bs.length := by
  induction bs using List.reverseRecOn with
  | nil => rfl
  | append_singleton bs b ih =>
    have hbyte : (255 - b).toNat + b.toNat = 255 := by
      have hb := b.toNat_lt
      have h255 : (255 : UInt8).toNat = 255 := rfl
      have hle : b ≤ 255 := UInt8.le_iff_toNat_le.2 (by omega)
      rw [UInt8.toNat_sub_of_le _ _ hle]
      omega
    unfold natValue at ih ⊢
    rw [List.map_append, List.map_append, List.map_append, List.map_singleton, List.map_singleton, List.map_singleton,
      ofRadix_concat, ofRadix_concat, List.length_append, List.length_singleton, Nat.pow_succ]
    omega

/-- A negative integer is the number that its contents are, less a power of 256. -/
theorem natValue_intContents (n : Int) :
    natValue (intContents n) = n ∨ ∃ k : Nat, natValue (intContents n) = n + (256 ^ k : Nat) := by
  cases n with
  | ofNat n => exact .inl (by rw [intContents, natValue_natContents]; rfl)
  | negSucc n =>
    refine .inr ⟨(natContents n).length, ?_⟩
    have h := natValue_complement (natContents n)
    rw [natValue_natContents] at h
    rw [intContents]
    omega

/-! ## Lengths -/

def lengthOctets (n : Nat) : Bytes :=
  if n < 128 then [.ofNat n] else .ofNat (128 + (radix 256 n).length) :: (radix 256 n).map UInt8.ofNat

def readLength : Bytes → Option (Nat × Bytes)
  | [] => none
  | b :: bs =>
    if b.toNat < 128 then some (b.toNat, bs)
    else if b.toNat - 128 ≤ bs.length then some (natValue (bs.take (b.toNat - 128)), bs.drop (b.toNat - 128))
    else none

theorem readLength_lengthOctets {n : Nat} (h : n < 256 ^ 127) (rest : Bytes) :
    readLength (lengthOctets n ++ rest) = some (n, rest) := by
  unfold lengthOctets
  by_cases hshort : n < 128
  · have hbyte : (UInt8.ofNat n).toNat = n := UInt8.toNat_ofNat_of_lt' (by simp only [UInt8.size]; omega)
    rw [if_pos hshort, List.singleton_append, readLength, if_pos (by omega), hbyte]
  · have hlen : (radix 256 n).length ≤ 127 := by
      rw [radix, List.length_reverse]
      exact (Nat.digits_length_le_iff (by decide) n).2 h
    have hbyte : (UInt8.ofNat (128 + (radix 256 n).length)).toNat = 128 + (radix 256 n).length :=
      UInt8.toNat_ofNat_of_lt' (by simp only [UInt8.size]; omega)
    have htake : (((radix 256 n).map UInt8.ofNat) ++ rest).take (radix 256 n).length =
        (radix 256 n).map UInt8.ofNat := List.take_left' (List.length_map _)
    have hdrop : (((radix 256 n).map UInt8.ofNat) ++ rest).drop (radix 256 n).length = rest :=
      List.drop_left' (List.length_map _)
    rw [if_neg hshort, List.cons_append, readLength, hbyte, if_neg (by omega), Nat.add_sub_cancel_left, htake,
      hdrop, natValue_radix, if_pos (by simp)]

/-! ## Values -/

/-- A value: its tag, the length of its contents, and the contents. -/
def tlv (tag : UInt8) (contents : Bytes) : Bytes := tag :: (lengthOctets contents.length ++ contents)

/-- The first value, and what follows it. -/
def readTlv : Bytes → Option (UInt8 × Bytes × Bytes)
  | [] => none
  | tag :: bs =>
    (readLength bs).bind fun (n, bs) =>
      if n ≤ bs.length then some (tag, bs.take n, bs.drop n) else none

theorem readTlv_tlv (tag : UInt8) {contents : Bytes} (h : contents.length < 256 ^ 127) (rest : Bytes) :
    readTlv (tlv tag contents ++ rest) = some (tag, contents, rest) := by
  rw [tlv, List.cons_append, List.append_assoc, readTlv, readLength_lengthOctets h]
  simp

/-- The values one after the other, at most `fuel` of them. -/
def readAll : Nat → Bytes → Option (List (UInt8 × Bytes))
  | _, [] => some []
  | 0, _ :: _ => none
  | fuel + 1, b :: bs =>
    (readTlv (b :: bs)).bind fun (tag, contents, rest) =>
      (readAll fuel rest).map fun values => (tag, contents) :: values

theorem readAll_flatMap {values : List (UInt8 × Bytes)} (h : ∀ v ∈ values, v.2.length < 256 ^ 127) (fuel : Nat)
    (hfuel : values.length ≤ fuel) : readAll fuel (values.flatMap fun v => tlv v.1 v.2) = some values := by
  induction values generalizing fuel with
  | nil =>
    rw [List.flatMap_nil]
    cases fuel <;> rfl
  | cons v values ih =>
    cases fuel with
    | zero => cases hfuel
    | succ fuel =>
      have hread := readTlv_tlv v.1 (h v List.mem_cons_self) (values.flatMap fun v => tlv v.1 v.2)
      have hrest := ih (fun v' hv' => h v' (List.mem_cons_of_mem _ hv')) fuel (Nat.le_of_succ_le_succ hfuel)
      rw [List.flatMap_cons, tlv, List.cons_append]
      rw [tlv, List.cons_append] at hread
      rw [readAll, hread, Option.bind_some]
      dsimp only
      rw [hrest, Option.map_some]

/-! ## Sequences of integers -/

def integerTag : UInt8 := 0x02

def sequenceTag : UInt8 := 0x30

def integer (n : Int) : Bytes := tlv integerTag (intContents n)

def sequence (ns : List Int) : Bytes := tlv sequenceTag (ns.flatMap integer)

/-- A part of the contents is no longer than the value. -/
theorem length_contents_le (tag : UInt8) (contents : Bytes) : contents.length ≤ (tlv tag contents).length := by
  rw [tlv, List.length_cons, List.length_append]
  omega

theorem length_intContents_le {ns : List Int} {n : Int} (h : n ∈ ns) :
    (intContents n).length ≤ (sequence ns).length := by
  have hint : (integer n).length ≤ (ns.flatMap integer).length :=
    (List.sublist_flatten_of_mem (List.mem_map_of_mem h)).length_le
  exact (length_contents_le _ _).trans (hint.trans (length_contents_le _ _))

theorem length_le_flatMap_integer (ns : List Int) : ns.length ≤ (ns.flatMap integer).length := by
  induction ns with
  | nil => exact Nat.le_refl _
  | cons n ns ih =>
    have hpos : 0 < (integer n).length := Nat.succ_pos _
    rw [List.flatMap_cons, List.length_append, List.length_cons]
    omega

/-- A sequence of integers is read back, whatever follows it. -/
theorem read_sequence {ns : List Int} (h : (sequence ns).length < 256 ^ 127) (rest : Bytes) :
    readTlv (sequence ns ++ rest) = some (sequenceTag, ns.flatMap integer, rest) ∧
      readAll (ns.flatMap integer).length (ns.flatMap integer) =
        some (ns.map fun n => (integerTag, intContents n)) := by
  refine ⟨readTlv_tlv _ (Nat.lt_of_le_of_lt (length_contents_le _ _) h) rest, ?_⟩
  have hvalues : ns.flatMap integer =
      (ns.map fun n => (integerTag, intContents n)).flatMap fun v => tlv v.1 v.2 := by
    rw [List.flatMap_map]
    rfl
  have hlen := length_le_flatMap_integer ns
  rw [hvalues] at hlen ⊢
  refine readAll_flatMap (fun v hv => ?_) _ (by rwa [List.length_map])
  obtain ⟨n, hn, rfl⟩ := List.mem_map.1 hv
  exact Nat.lt_of_le_of_lt (length_intContents_le hn) h

end Der
