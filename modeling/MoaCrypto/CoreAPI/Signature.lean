import MoaCrypto.Lib.Der
import MoaCrypto.Wallet.Base58

/-!
# Signatures as bytes (`BlockchainECDSACoreAPI.java`)

`blockchainECDSASign` writes the two numbers of a signature as a DER sequence, and
`blockchainECDSAVerify` takes the first two integers out of the sequence at the start of the bytes
and looks at nothing else: not at what follows the sequence, not at further elements, and not at the
sign of the integers (`getPositiveValue`).  So the encoding is not the only one for its pair
(`verify_malleable`); what the decision depends on is the pair alone (`verify_pair`).
-/

namespace MoaCrypto.BlockchainECDSACoreAPI

open Wallet (bigInteger)

/-- What `ASN1InputStream.readObject` can give, as far as it matters here. -/
inductive ASN1Object
  | integer (bytes : List UInt8)
  | dlSequence (objects : List ASN1Object)
  | other

/-- The digest and what BouncyCastle does; `none` where an exception is thrown.  `readObject` is
`none` at the end of the stream, too. -/
structure Provider (Q : Type) where
  HashDigest : List UInt8 → Option (List UInt8)
  decodePoint : List UInt8 → Option Q
  generateSignature : List UInt8 → Nat → Nat × Nat
  verifySignature : Q → List UInt8 → Nat → Nat → Bool
  derSequence : List Int → List UInt8
  readObject : List UInt8 → Option ASN1Object

/-- `new ASN1Integer(n)`. -/
def asn1Integer (n : Int) : ASN1Object := .integer (Der.intContents n)

/-- `DERSequenceGenerator` writes DER, and `ASN1InputStream` reads the first object of a stream. -/
structure Provider.Lawful {Q : Type} (p : Provider Q) : Prop where
  derSequence_eq : ∀ ns, p.derSequence ns = Der.sequence ns
  reads_first : ∀ ns rest, (Der.sequence ns ++ rest).length < 2 ^ 31 →
    p.readObject (Der.sequence ns ++ rest) = some (.dlSequence (ns.map asn1Integer))

variable {Q : Type} (p : Provider Q)

def blockchainECDSASign (dataBytes privateKey : List UInt8) : Option (List UInt8) :=
  (p.HashDigest dataBytes).map fun hashedData =>
    let (r, s) := p.generateSignature hashedData (bigInteger privateKey)
    p.derSequence [r, s]

/-- `((ASN1Integer) seq.getObjectAt(i)).getPositiveValue()`. -/
def getPositiveValue (objects : List ASN1Object) (i : Nat) : Option Nat :=
  match objects[i]? with
  | some (.integer bytes) => some (bigInteger bytes)
  | _ => none

/-- `(DLSequence) asn1Decoder.readObject()`. -/
def readSequence (signature : List UInt8) : Option (List ASN1Object) :=
  match p.readObject signature with
  | some (.dlSequence objects) => some objects
  | _ => none

/-- What `verifySignature` says of a pair, where a digest and a point are had. -/
def verifyPair (dataBytes publicKey : List UInt8) (r s : Nat) : Bool :=
  match p.HashDigest dataBytes, p.decodePoint publicKey with
  | some hashedData, some q => p.verifySignature q hashedData r s
  | _, _ => false

def blockchainECDSAVerify (dataBytes signature publicKey : List UInt8) : Bool :=
  let accepted := do
    let hashedData ← p.HashDigest dataBytes
    let q ← p.decodePoint publicKey
    let seq ← readSequence p signature
    let r ← getPositiveValue seq 0
    let s ← getPositiveValue seq 1
    return p.verifySignature q hashedData r s
  -- `catch (Exception e)`
  accepted.getD false

/-! ## What the decision depends on -/

/-- What `getPositiveValue` makes of an integer. -/
def unsigned (n : Int) : Nat := bigInteger (Der.intContents n)

theorem unsigned_natCast (n : Nat) : unsigned n = n := Der.natValue_natContents n

/-- The pair that the decision is on. -/
def signaturePair (signature : List UInt8) : Option (Nat × Nat) := do
  let seq ← readSequence p signature
  let r ← getPositiveValue seq 0
  let s ← getPositiveValue seq 1
  return (r, s)

theorem verify_eq (dataBytes signature publicKey : List UInt8) :
    blockchainECDSAVerify p dataBytes signature publicKey =
      match signaturePair p signature with
      | some (r, s) => verifyPair p dataBytes publicKey r s
      | none => false := by
  unfold blockchainECDSAVerify signaturePair verifyPair
  -- an exception anywhere is the answer `false`
  cases readSequence p signature with
  | none => cases p.HashDigest dataBytes <;> cases p.decodePoint publicKey <;> rfl
  | some seq =>
    cases hr : getPositiveValue seq 0 <;> cases hs : getPositiveValue seq 1 <;>
      cases p.HashDigest dataBytes <;> cases p.decodePoint publicKey <;> simp [hr, hs]

section
variable {p} (hp : p.Lawful)
include hp

theorem signaturePair_sequence (x y : Int) (more : List Int) (rest : List UInt8)
    (h : (Der.sequence (x :: y :: more) ++ rest).length < 2 ^ 31) :
    signaturePair p (Der.sequence (x :: y :: more) ++ rest) = some (unsigned x, unsigned y) := by
  have hread := hp.reads_first _ _ h
  rw [signaturePair, readSequence, hread]
  rfl

/-- The sequence of a pair is that of no other. -/
theorem sequence_injective {r s r' s' : Nat} (h : (Der.sequence [(r : Int), (s : Int)]).length < 2 ^ 31)
    (heq : Der.sequence [(r : Int), (s : Int)] = Der.sequence [(r' : Int), (s' : Int)]) : r = r' ∧ s = s' := by
  have hpair := signaturePair_sequence hp r s [] [] (by rwa [List.append_nil])
  have hpair' := signaturePair_sequence hp r' s' [] [] (by rwa [List.append_nil, ← heq])
  rw [heq, hpair'] at hpair
  simp only [unsigned_natCast, Option.some.injEq, Prod.mk.injEq] at hpair
  exact ⟨hpair.1.symm, hpair.2.symm⟩

/-- A byte string is decided on by its pair.  The DER sequence of two numbers has them for its pair,
and is the only one of two numbers that has; with trailing data, further elements, or an integer
that is the same number less a power of 256, the pair and the decision stay what they are. -/
theorem verify_pair (dataBytes publicKey : List UInt8) :
    (∀ signature, blockchainECDSAVerify p dataBytes signature publicKey = true ↔
        ∃ r s, signaturePair p signature = some (r, s) ∧ verifyPair p dataBytes publicKey r s = true) ∧
      (∀ r s : Nat, (p.derSequence [r, s]).length < 2 ^ 31 →
        blockchainECDSAVerify p dataBytes (p.derSequence [r, s]) publicKey =
            verifyPair p dataBytes publicKey r s ∧
          ∀ r' s' : Nat, p.derSequence [r', s'] = p.derSequence [r, s] → r' = r ∧ s' = s) ∧
      (∀ x y more rest, (Der.sequence (x :: y :: more) ++ rest).length < 2 ^ 31 →
        blockchainECDSAVerify p dataBytes (Der.sequence (x :: y :: more) ++ rest) publicKey =
          verifyPair p dataBytes publicKey (unsigned x) (unsigned y)) ∧
      ∀ n : Int, unsigned n = n ∨ ∃ k : Nat, unsigned n = n + (256 ^ k : Nat) := by
  refine ⟨fun signature => ?_, fun r s h => ?_, fun x y more rest h => ?_, Der.natValue_intContents⟩
  · rw [verify_eq]
    cases hpair : signaturePair p signature with
    | none => simp
    | some pair =>
      obtain ⟨r, s⟩ := pair
      simp
  · rw [hp.derSequence_eq] at h ⊢
    have hpair := signaturePair_sequence hp r s [] [] (by rwa [List.append_nil])
    rw [List.append_nil, unsigned_natCast, unsigned_natCast] at hpair
    refine ⟨by rw [verify_eq, hpair], fun r' s' heq => ?_⟩
    rw [hp.derSequence_eq] at heq
    obtain ⟨hr, hs⟩ := sequence_injective hp h heq.symm
    exact ⟨hr.symm, hs.symm⟩
  · rw [verify_eq, signaturePair_sequence hp x y more rest h]

end

/-! ## A provider -/

/-- A reader of one object, and of the elements of a sequence. -/
def readFirst (stream : List UInt8) : Option ASN1Object :=
  let element (v : UInt8 × List UInt8) : ASN1Object := if v.1 = Der.integerTag then .integer v.2 else .other
  (Der.readTlv stream).bind fun (tag, contents, _) =>
    if tag = Der.sequenceTag then
      (Der.readAll contents.length contents).map fun vs => .dlSequence (vs.map element)
    else some (element (tag, contents))

/-- Every message has the signature `(255, 1)` and no other. -/
def sample : Provider (List UInt8) where
  HashDigest := some
  decodePoint := some
  generateSignature _ _ := (255, 1)
  verifySignature _ _ r s := r == 255 && s == 1
  derSequence := Der.sequence
  readObject := readFirst

theorem sample_lawful : sample.Lawful where
  derSequence_eq _ := rfl
  reads_first ns rest h := by
    have hlen : (Der.sequence ns).length < 256 ^ 127 := by
      rw [List.length_append] at h
      have hpow : 2 ^ 31 ≤ 256 ^ 127 := by decide
      omega
    obtain ⟨hread, hall⟩ := Der.read_sequence hlen rest
    show readFirst (Der.sequence ns ++ rest) = _
    rw [readFirst, hread, Option.bind_some]
    dsimp only
    rw [if_pos rfl, hall, Option.map_some, List.map_map]
    rfl

theorem verify_pair_sample : blockchainECDSAVerify sample [1] (sample.derSequence [255, 1]) [4] = true :=
  ((verify_pair sample_lawful [1] [4]).2.1 255 1 (by decide)).1

/-- The signature as it is written, with a byte after it, with a third element, and with an integer
that is negative. -/
theorem verify_malleable :
    blockchainECDSASign sample [1] [2] = some [0x30, 7, 2, 2, 0, 255, 2, 1, 1] ∧
      ∀ signature ∈ [[0x30, 7, 2, 2, 0, 255, 2, 1, 1], [0x30, 7, 2, 2, 0, 255, 2, 1, 1, 0],
        [0x30, 10, 2, 2, 0, 255, 2, 1, 1, 2, 1, 0], [0x30, 6, 2, 1, 255, 2, 1, 1]],
        blockchainECDSAVerify sample [1] signature [4] = true := by
  decide

end MoaCrypto.BlockchainECDSACoreAPI
