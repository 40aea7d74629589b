import MoaCrypto.Java.Lines
import MoaCrypto.CoreAuth.Client

/-!
# The auth database files (`FranchiseAuthDBProcess.java`, `ManagerAuthDBProcess.java`)

A database is a text file with a record on each line, its fields separated by `$`.  The two classes
differ in one field, the level in front of a manager's id.  A file is `none` before it is first
written; `none` in the place of a result is an exception (a line with too few fields, or an id that
is not in Base64), `some none` the reference `null`.
-/

namespace MoaCrypto.AuthDB

open Java CoreAuth

/-- The branches of the code on `os.name`. -/
inductive OS
  | windows
  | linux
  | other
  deriving DecidableEq, Repr

/-- What the storage writes in front of a record that is not the first. -/
def OS.recordStart : OS → String
  | .windows => "\n"
  | .linux => "\n\r"
  | .other => ""

/-- The platform's `line.separator`. -/
def OS.lineSeparator : OS → String
  | .windows => "\r\n"
  | .linux => "\n"
  | .other => "\n"

theorem lineSeparator_eq (os : OS) : os.lineSeparator = "\n" ∨ os.lineSeparator = "\r\n" := by
  cases os
  · exact Or.inr rfl
  · exact Or.inl rfl
  · exact Or.inl rfl

inductive Kind
  | franchise
  | manager
  deriving DecidableEq, Repr

/-- A line of the file as the loops take it apart. -/
structure Row where
  level : Option String
  id : String
  saltBase64 : String
  cipheredPswBase64 : String
  authFailCount : String
  lastModifiedDatetime : String
  deriving DecidableEq

/-- The calls of `nextToken` on a line. -/
def nextTokens (kind : Kind) (line : String) : Option Row :=
  match kind, tokens '$' line with
  | .franchise, id :: salt :: ciphered :: count :: date :: _ =>
    some ⟨none, id, salt, ciphered, count, date⟩
  | .manager, level :: id :: salt :: ciphered :: count :: date :: _ =>
    some ⟨some level, id, salt, ciphered, count, date⟩
  | _, _ => none

/-! ## The bodies that the two classes share -/

def fileStorageProcess (os : OS) (file : Option String) (storageAuthDataStr : String) :
    Option String × String :=
  match file with
  | none => (some storageAuthDataStr, "0x6021")
  | some text => (some (text ++ os.recordStart ++ storageAuthDataStr), "0x6020")

/-- The loop of the two lookups, up to its `break`. -/
def findRow (kind : Kind) (idStr : String) : List String → Option (Option Row)
  | [] => some none
  | line :: lines =>
    (nextTokens kind line).bind fun row =>
      if idStr = row.id then some (some row) else findRow kind idStr lines

def searchProcess (kind : Kind) (file : Option String) (idStr : String) : Option (Option String) :=
  match file with
  | none => some none
  | some text => (findRow kind idStr (readLines text)).map fun row =>
      some (if row.isSome then "0x6010" else "0x6011")

def getProcess (cr : Crypto) (kind : Kind) (file : Option String) (receivedIdBase64Str : String) :
    Option (Option Row) :=
  (cr.decode receivedIdBase64Str).bind fun idBytes =>
    match file with
    | none => some none
    | some text => findRow kind (cr.newString idBytes) (readLines text)

/-- The loop of the removal: the lines that are printed again, and whether one was left out. -/
def removeLoop (kind : Kind) (removeIdStr : String) : List String → Option (List String × Bool)
  | [] => some ([], false)
  | line :: lines =>
    (nextTokens kind line).bind fun row => (removeLoop kind removeIdStr lines).map fun rest =>
      if row.id = removeIdStr then (rest.1, true) else (line :: rest.1, rest.2)

/-- A removal that throws has not touched the file yet. -/
def removeRecordProcess (os : OS) (kind : Kind) (file : Option String) (removeIdStr : String) :
    Option String × Option String :=
  match file with
  | none => (none, some "0x6053")
  | some text =>
    match removeLoop kind removeIdStr (readLines text) with
    | none => (some text, none)
    | some (kept, removed) =>
      (some (printLines os.lineSeparator kept), some (if removed then "0x6050" else "0x6051"))

/-! ## `FranchiseAuthDBProcess` -/

def franchiseAuthDBAddProcess (franchiseIdStr saltBase64Str cipheredPswBase64Str : String)
    (authFailCount : Int) (LastModifiedDatetime : String) : String :=
  franchiseIdStr ++ "$" ++ saltBase64Str ++ "$" ++ cipheredPswBase64Str ++ "$" ++
    toString authFailCount ++ "$" ++ LastModifiedDatetime

def franchiseAuthDBFileStorageProcess (os : OS) : Option String → String → Option String × String :=
  fileStorageProcess os

def franchiseAuthDBSearchProcess : Option String → String → Option (Option String) :=
  searchProcess .franchise

def franchiseAuthDBGetProcess (cr : Crypto) (file : Option String) (receivedIdBase64Str : String) :
    Option (Option String) :=
  (getProcess cr .franchise file receivedIdBase64Str).map fun row => row.map fun row =>
    row.saltBase64 ++ "$" ++ row.cipheredPswBase64

def franchiseAuthDBRemoveRecordProcess (os : OS) :
    Option String → String → Option String × Option String :=
  removeRecordProcess os .franchise

/-! ## `ManagerAuthDBProcess` -/

def ManagerAuthDBAddProcess (managerLevelStr managerIdStr saltBase64Str cipheredPswBase64Str : String)
    (authFailCount : Int) (LastModifiedDatetime : String) : String :=
  managerLevelStr ++ "$" ++ managerIdStr ++ "$" ++ saltBase64Str ++ "$" ++ cipheredPswBase64Str ++
    "$" ++ toString authFailCount ++ "$" ++ LastModifiedDatetime

def ManagerAuthDBFileStorageProcess (os : OS) : Option String → String → Option String × String :=
  fileStorageProcess os

def ManagerAuthDBSearchProcess : Option String → String → Option (Option String) :=
  searchProcess .manager

def ManagerAuthDBGetProcess (cr : Crypto) (file : Option String) (receivedIdBase64Str : String) :
    Option (Option String) :=
  (getProcess cr .manager file receivedIdBase64Str).map fun row => row.map fun row =>
    row.level.getD "null" ++ "$" ++ row.saltBase64 ++ "$" ++ row.cipheredPswBase64

def ManagerAuthDBRemoveRecordProcess (os : OS) :
    Option String → String → Option String × Option String :=
  removeRecordProcess os .manager

/-! ## One operation -/

/-- A text that can stand in a field. -/
structure Field where
  text : String
  ne : text ≠ ""
  separator : '$' ∉ text.toList
  line : IsLine text

/-- What the registration flow adds: a level for a manager and none for a franchise. -/
structure Entry (kind : Kind) where
  level : Option Field
  id : Field
  saltBase64 : Field
  cipheredPswBase64 : Field
  authFailCount : Int
  lastModifiedDatetime : Field
  level_isSome : level.isSome = (kind == .manager)

/-- The record made by the class's `AddProcess`. -/
def Entry.record {kind : Kind} (e : Entry kind) : String :=
  match e.level with
  | none => franchiseAuthDBAddProcess e.id.text e.saltBase64.text e.cipheredPswBase64.text
      e.authFailCount e.lastModifiedDatetime.text
  | some level => ManagerAuthDBAddProcess level.text e.id.text e.saltBase64.text
      e.cipheredPswBase64.text e.authFailCount e.lastModifiedDatetime.text

/-- What the class's `GetProcess` returns for the entry. -/
def Entry.stored {kind : Kind} (e : Entry kind) : String :=
  match e.level with
  | none => e.saltBase64.text ++ "$" ++ e.cipheredPswBase64.text
  | some level => level.text ++ "$" ++ e.saltBase64.text ++ "$" ++ e.cipheredPswBase64.text

inductive Op (kind : Kind)
  | add (e : Entry kind)
  | remove (id : Field)

variable {kind : Kind}

def storage (kind : Kind) (os : OS) : Option String → String → Option String × String :=
  match kind with
  | .franchise => franchiseAuthDBFileStorageProcess os
  | .manager => ManagerAuthDBFileStorageProcess os

def search (kind : Kind) : Option String → String → Option (Option String) :=
  match kind with
  | .franchise => franchiseAuthDBSearchProcess
  | .manager => ManagerAuthDBSearchProcess

def get (cr : Crypto) (kind : Kind) : Option String → String → Option (Option String) :=
  match kind with
  | .franchise => franchiseAuthDBGetProcess cr
  | .manager => ManagerAuthDBGetProcess cr

def remove (kind : Kind) (os : OS) : Option String → String → Option String × Option String :=
  match kind with
  | .franchise => franchiseAuthDBRemoveRecordProcess os
  | .manager => ManagerAuthDBRemoveRecordProcess os

/-- The file after an operation. -/
def step (os : OS) (file : Option String) : Op kind → Option String
  | .add e => (storage kind os file e.record).1
  | .remove id => (remove kind os file id.text).1

end MoaCrypto.AuthDB
