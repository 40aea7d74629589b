import MoaCrypto.Lib.Prog
import MoaCrypto.Java.Text

/-!
# The transaction server (`server/Transaction.java`)

`receiveFromClient` checks a signed request against the UTXO table and, if it is
valid, records the transaction, marks the inputs as spent by it and inserts the
outputs and the change.  It is a program over the table queries it sends, in the
order it sends them, so that one definition serves a call alone (`run`) and calls
interleaved.

The query layer is not part of the repository; `perform` gives each query the
meaning its call site and the commented SQL say: counting and reading a value see
unspent rows (tail `"0"`), an update sets the tail, an insert adds an unspent row.
`getFirst` of an empty result is `null`.  Digest, signature check and JSON text
come from packages as well and are the fields of `Env`.
-/

namespace MoaCrypto.Transaction

open Java QueryProg

/-! ## Tables and queries -/

/-- A row of `utxo_tbl`. -/
structure Utxo where
  hashUTXO : String
  value : String
  publicKey : String
  headHashTX : String
  index : String
  tailHashTX : String
  deriving DecidableEq

structure Tables where
  transactions : List (String × String)
  utxos : List Utxo
  deriving DecidableEq

inductive Query
  | insertTransaction (TX msg : String)
  | updateUTXO (TX hashUTXO : String)
  | insertUTXO (hashUTXO value publicKey TX index : String)
  | selectCountOfHash (hashUTXO publicKey : String)
  | selectValue (hashUTXO : String)

/-- `table.getFirst` answers a select by a text or `null`; the others answer nothing. -/
@[reducible] def Answer : Query → Type
  | .insertTransaction _ _ => Unit
  | .updateUTXO _ _ => Unit
  | .insertUTXO _ _ _ _ _ => Unit
  | .selectCountOfHash _ _ => Option String
  | .selectValue _ => Option String

/-- The tail of a row no transaction has spent. -/
def unspentTail : String := "0"

def Utxo.Unspent (u : Utxo) : Prop := u.tailHashTX = unspentTail

instance (u : Utxo) : Decidable u.Unspent := inferInstanceAs (Decidable (_ = _))

/-- `UPDATE utxo_tbl SET tail_hash_TX = TX WHERE hash_UTXO = hash`. -/
def Utxo.spend (TX hash : String) (u : Utxo) : Utxo :=
  if u.hashUTXO = hash then { u with tailHashTX := TX } else u

/-- `SELECT count(hash_UTXO) FROM utxo_tbl WHERE tail_hash_TX = "0" AND hash_UTXO = hash AND
publicKey = publicKey`. -/
def countOfHash (us : List Utxo) (hash publicKey : String) : Nat :=
  us.countP fun u => u.Unspent ∧ u.hashUTXO = hash ∧ u.publicKey = publicKey

/-- `SELECT value FROM utxo_tbl WHERE tail_hash_TX = "0" AND hash_UTXO = hash`. -/
def valueOfHash (us : List Utxo) (hash : String) : Option String :=
  (us.find? fun u => u.Unspent ∧ u.hashUTXO = hash).map Utxo.value

def perform : (q : Query) → Tables → Answer q × Tables
  | .insertTransaction TX msg, t => ((), { t with transactions := t.transactions ++ [(TX, msg)] })
  | .updateUTXO TX hash, t => ((), { t with utxos := t.utxos.map (Utxo.spend TX hash) })
  | .insertUTXO hash value publicKey TX index, t =>
    ((), { t with utxos := t.utxos ++ [⟨hash, value, publicKey, TX, index, unspentTail⟩] })
  | .selectCountOfHash hash publicKey, t =>
    (some (String.ofList (intDigits (countOfHash t.utxos hash publicKey))), t)
  | .selectValue hash, t => (valueOfHash t.utxos hash, t)

/-! ## Requests -/

/-- `{"hash_UTXO": ""}`; `none` where the member is missing. -/
structure Input where
  hashUTXO : Option String
  deriving DecidableEq

/-- `{"publicKey": "", "value": ""}`, the texts of the members (`get(..).toString()`). -/
structure Output where
  value : Option String
  publicKey : Option String
  deriving DecidableEq

/-- The message object; `others` is what its text shows besides (further members, a leaf
that is a number and not a string, the order of the members). -/
structure Message where
  publicKey : String
  inputs : List Input
  outputs : List Output
  others : String
  deriving DecidableEq

structure Request where
  signature : String
  message : Message
  deriving DecidableEq

/-- What the server takes from packages: `Crypto.doubleDigest`, `Ed25519.verify` of a
signature, a text and a key (an exception in it counts as `false`), and the text of a
message object. -/
structure Env where
  doubleDigest : List UInt8 → List UInt8
  verify : List UInt8 → List UInt8 → List UInt8 → Bool
  toJSONString : Message → String

inductive TxException
  | decoder
  | nullPointer
  | numberFormat
  | arithmetic
  deriving DecidableEq

abbrev TableProg (ρ : Type) := Prog Query Answer TxException ρ

/-- `table.query(query)` and `table.getFirst(query)`. -/
abbrev table (q : Query) : TableProg (Answer q) := Prog.query q

/-! ## Validation -/

/-- The loop of `utxoCheck`: every input counted if the table has an unspent row of it
under the sender's key. -/
def utxoCheckLoop (publicKey : String) : List Input → Bool → Nat → TableProg (Bool × Nat)
  | [], isTExist, count => .ret (isTExist, count)
  | input :: inputs, isTExist, count => do
    let hash ← Prog.orFail .nullPointer input.hashUTXO
    let hasValue ← table (.selectCountOfHash hash publicKey)
    let n ← Prog.orFail .numberFormat (hasValue.bind Integer.valueOf)
    if n = 0 then utxoCheckLoop publicKey inputs false count
    else utxoCheckLoop publicKey inputs isTExist (count + 1)

def utxoCheck (publicKey : List UInt8) (inputs : List Input) : TableProg Bool := do
  let (isTExist, count) ← utxoCheckLoop (encodeHexString publicKey) inputs true 0
  .ret (if inputs.length ≠ count then false else isTExist)

/-- The first loop of `valueCheck`. -/
def sumInputs : List Input → BigDecimal → TableProg BigDecimal
  | [], sum => .ret sum
  | input :: inputs, sum => do
    let hash ← Prog.orFail .nullPointer input.hashUTXO
    let s ← table (.selectValue hash)
    let s ← Prog.orFail .nullPointer s
    let d ← Prog.orFail .numberFormat (BigDecimal.ofString s)
    let sum ← Prog.orFail .arithmetic (sum.add d)
    sumInputs inputs sum

/-- The second loop of `valueCheck`. -/
def sumOutputs : List Output → BigDecimal → TableProg BigDecimal
  | [], value => .ret value
  | output :: outputs, value => do
    let s ← Prog.orFail .nullPointer output.value
    let d ← Prog.orFail .numberFormat (BigDecimal.ofString s)
    let value ← Prog.orFail .arithmetic (value.add d)
    sumOutputs outputs value

/-- Whether the inputs cover the outputs, and the rest as a text. -/
def valueCheck (inputs : List Input) (outputs : List Output) : TableProg (Bool × String) := do
  let sum ← sumInputs inputs BigDecimal.zero
  let value ← sumOutputs outputs BigDecimal.zero
  let isTValue := sum.compareTo value ≠ .lt
  let remain ← Prog.orFail .arithmetic (sum.subtract value)
  .ret (isTValue, remain.toString)

section

variable (env : Env)

def signCheck (signature msg : String) (publicKey : List UInt8) : Bool :=
  match decodeHex signature with
  | some sign => env.verify sign (utf8 msg) publicKey
  | none => false

/-- The result of `new TXValidationCheck(..)`. -/
structure Validation where
  isValid : Bool
  remainVal : String

/-- The three checks are joined by `&`, so each of them runs whatever the others say. -/
def txValidationCheck (signature msg : String) (publicKey : List UInt8) (inputs : List Input)
    (outputs : List Output) : TableProg Validation := do
  let isTSign := signCheck env signature msg publicKey
  let isTExist ← utxoCheck publicKey inputs
  let (isTValue, remainVal) ← valueCheck inputs outputs
  .ret ⟨isTSign && isTExist && isTValue, remainVal⟩

/-! ## Execution -/

def hashHex (s : String) : String := encodeHexString (env.doubleDigest (utf8 s))

/-- The text whose digest names the row of output `i` (`0` for the change). -/
def utxoName (i : Nat) (value publicKey TX : String) : String :=
  String.ofList (Nat.toDigits 10 i) ++ value ++ publicKey ++ TX

/-- Change the used inputs' tail to the transaction. -/
def updateInputs (TX : String) : List Input → TableProg Unit
  | [] => .ret ()
  | input :: inputs => do
    let hash ← Prog.orFail .nullPointer input.hashUTXO
    table (.updateUTXO TX hash)
    updateInputs TX inputs

/-- Save the new UTXOs, numbered from `i`. -/
def insertOutputs (TX : String) : Nat → List Output → TableProg Unit
  | _, [] => .ret ()
  | i, output :: outputs => do
    let val ← Prog.orFail .nullPointer output.value
    let dstPublic ← Prog.orFail .nullPointer output.publicKey
    table (.insertUTXO (hashHex env (utxoName i val dstPublic TX)) val dstPublic TX
      (String.ofList (Nat.toDigits 10 i)))
    insertOutputs TX (i + 1) outputs

/-- Return the remaining value to the sender. -/
def insertRemain (TX srcPublic remainVal : String) : TableProg Unit := do
  let n ← Prog.orFail .numberFormat (Integer.valueOf remainVal)
  if 0 < n then
    table (.insertUTXO (hashHex env (utxoName 0 remainVal srcPublic TX)) remainVal srcPublic TX
      "0")
  else .ret ()

def receiveFromClient (req : Request) : TableProg String := do
  let publicKey ← Prog.orFail .decoder (decodeHex req.message.publicKey)
  let msg := env.toJSONString req.message
  let validCheck ← txValidationCheck env req.signature msg publicKey req.message.inputs
    req.message.outputs
  if validCheck.isValid then do
    let TX := hashHex env msg
    table (.insertTransaction TX msg)
    updateInputs TX req.message.inputs
    insertOutputs env TX 1 req.message.outputs
    insertRemain env TX (encodeHexString publicKey) validCheck.remainVal
    .ret "Valid TX"
  else .ret "Invalid TX"

end

end MoaCrypto.Transaction
