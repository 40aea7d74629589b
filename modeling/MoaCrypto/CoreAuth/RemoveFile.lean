import MoaCrypto.CoreAuth.AuthFile
import Mathlib.Logic.Function.Basic

/-!
# A removal among the files

A removal reads one file, writes its temporary file, deletes the database and renames the temporary
file.  The manager's names all come from the argument; the franchise's takes only the file that it
reads from there, and the database from the static field.  `PrintWriter` reports no error and the
result of `renameTo` changes nothing, so a fault at either is answered like a success.
`removes_only_iff` says for which states, arguments and faults a removal still does what it is for.

A name stands for one file.
-/

namespace MoaCrypto.AuthDB.Removal

open Java

/-- The contents of the files that there are. -/
abbrev Files := String → Option String

/-- What goes wrong in a removal; `written` is how much of the text comes into the temporary file. -/
structure Faults where
  openTemp : Bool
  written : Option Nat
  delete : Bool
  rename : Bool

def Faults.none : Faults := ⟨false, .none, false, false⟩

def Faults.write (faults : Faults) (text : String) : String :=
  match faults.written with
  | .none => text
  | some n => cut n text

def Faults.Any (faults : Faults) : Prop :=
  faults.openTemp = true ∨ faults.written ≠ .none ∨ faults.delete = true ∨ faults.rename = true

/-- The lines that the loop has printed, up to a line that it cannot take apart. -/
def printedLines (kind : Kind) (removeIdStr : String) : List String → List String
  | [] => []
  | line :: lines =>
    match nextTokens kind line with
    | .none => []
    | some row =>
      if row.id = removeIdStr then printedLines kind removeIdStr lines
      else line :: printedLines kind removeIdStr lines

def tempName (name : String) : String := name ++ ".tmp"

/-- The body that the two classes share: `authFileName` is the database that is deleted, `readName`
the file that is read. -/
def removeRecordProcess (os : OS) (kind : Kind) (faults : Faults)
    (authFileName readName removeIdStr : String) (files : Files) : Files × Option String :=
  if files authFileName = .none then (files, some "0x6053")
  else if files readName = .none then (files, some "0x6051")
  else if faults.openTemp then (files, some "0x6051")
  else
    -- the temporary file is emptied before the first line is read
    let opened := Function.update files (tempName authFileName) (some "")
    let lines := readLines ((opened readName).getD "")
    let text := faults.write (printLines os.lineSeparator (printedLines kind removeIdStr lines))
    let printed := Function.update files (tempName authFileName) (some text)
    match removeLoop kind removeIdStr lines with
    | .none => (printed, .none)
    | some (_, removed) =>
      if faults.delete then (printed, some "0x6054")
      else
        let authDBDeleteSF := if removed then "0x6050" else "0x6051"
        let deleted := Function.update printed authFileName .none
        if faults.rename then (deleted, some authDBDeleteSF)
        else
          (Function.update (Function.update deleted authFileName (some text)) (tempName authFileName) .none,
            some authDBDeleteSF)

def FranchiseAuthFileName : String := "moaFRANCHISEAuthDB.dat"

def franchiseAuthDBRemoveRecordProcess (os : OS) (faults : Faults)
    (franchiseAuthFileName removeFranchiseIdrecordStr : String) : Files → Files × Option String :=
  removeRecordProcess os .franchise faults FranchiseAuthFileName franchiseAuthFileName
    removeFranchiseIdrecordStr

def ManagerAuthDBRemoveRecordProcess (os : OS) (faults : Faults)
    (ManagerAuthFileName removeManagerIdrecordStr : String) : Files → Files × Option String :=
  removeRecordProcess os .manager faults ManagerAuthFileName ManagerAuthFileName removeManagerIdrecordStr

def remove (kind : Kind) (os : OS) (faults : Faults) (name idStr : String) : Files → Files × Option String :=
  match kind with
  | .franchise => franchiseAuthDBRemoveRecordProcess os faults name idStr
  | .manager => ManagerAuthDBRemoveRecordProcess os faults name idStr

/-- The database that a removal from a file deletes. -/
def authFileName : Kind → String → String
  | .franchise, _ => FranchiseAuthFileName
  | .manager, name => name

/-! ## What a removal is for -/

/-- The records of a file are its lines. -/
def records (file : Option String) : List String := readLines (file.getD "")

/-- A line from which the loops take all the fields. -/
def WellFormed (kind : Kind) (file : Option String) : Prop :=
  ∀ line ∈ records file, (nextTokens kind line).isSome

def HasId (kind : Kind) (idStr line : String) : Prop := (nextTokens kind line).map Row.id = some idStr

instance (kind : Kind) (idStr line : String) : Decidable (HasId kind idStr line) :=
  inferInstanceAs (Decidable (_ = _))

def others (kind : Kind) (idStr : String) (file : Option String) : List String :=
  (records file).filter fun line => ¬ HasId kind idStr line

def Has (kind : Kind) (idStr : String) (file : Option String) : Prop :=
  ∃ line ∈ records file, HasId kind idStr line

/-- A removal gets as far as its temporary file, and something goes wrong from there. -/
def Fails (kind : Kind) (faults : Faults) (name : String) (files : Files) : Prop :=
  files (authFileName kind name) ≠ .none ∧ files name ≠ .none ∧ faults.Any

/-- What a removal from the file `name` may do, and what it has to. -/
structure RemovesOnly (kind : Kind) (faults : Faults) (name idStr : String) (files after : Files)
    (result : Option String) : Prop where
  frame : ∀ other, other ≠ name → other ≠ tempName name → after other = files other
  done : ¬ Fails kind faults name files → records (after name) = others kind idStr (files name)
  reported : result = some "0x6050" → Has kind idStr (files name) ∧ ¬ Has kind idStr (after name)
  failed : Fails kind faults name files →
    (others kind idStr (files name)).Sublist (records (after name)) ∧ result ≠ some "0x6050"

/-- The text that is written for the other records of a file. -/
def rewritten (kind : Kind) (os : OS) (faults : Faults) (idStr : String) (file : Option String) : String :=
  faults.write (printLines os.lineSeparator (others kind idStr file))

/-- When a removal still does what it is for. -/
def Spares (kind : Kind) (os : OS) (faults : Faults) (name idStr : String) (files : Files) : Prop :=
  let database := authFileName kind name
  if files database = .none then ¬ Has kind idStr (files name)
  else if files name = .none ∨ faults.openTemp then True
  else if name = database then
    if faults.delete then True
    else if faults.rename then records (files name) = []
    else ∀ n, faults.written = some n → ¬ Has kind idStr (files name) ∧
      (printLines os.lineSeparator (others kind idStr (files name))).length ≤ n + os.lineSeparator.length
  -- from here on another file is deleted than the one that is read
  else if name = tempName database then
    others kind idStr (files name) = [] ∧
      (faults.delete = true ∨ faults.rename = false ∧ files database = some "")
  else if faults.delete then
    files (tempName database) = some (rewritten kind os faults idStr (files name))
  else
    faults.rename = false ∧ files database = some (rewritten kind os faults idStr (files name)) ∧
      files (tempName database) = .none ∧ ¬ Has kind idStr (files name)

/-! ## The loop -/

theorem printedLines_eq {kind : Kind} {idStr : String} {lines kept : List String} {removed : Bool}
    (h : removeLoop kind idStr lines = some (kept, removed)) : printedLines kind idStr lines = kept := by
  induction lines generalizing kept removed with
  | nil =>
    cases h
    rfl
  | cons line lines ih =>
    rw [removeLoop] at h
    obtain ⟨row, hrow, h⟩ := Option.bind_eq_some_iff.mp h
    obtain ⟨⟨kept', removed'⟩, hrest, heq⟩ := Option.map_eq_some_iff.mp h
    rw [printedLines, hrow]
    by_cases hid : row.id = idStr
    · rw [if_pos hid] at heq
      cases heq
      show (if row.id = idStr then _ else _) = _
      rw [if_pos hid]
      exact ih hrest
    · rw [if_neg hid] at heq
      cases heq
      show (if row.id = idStr then _ else _) = _
      rw [if_neg hid, ih hrest]

/-- On well-formed lines the loop ends with the records of the other ids. -/
theorem removeLoop_eq {kind : Kind} (idStr : String) {lines : List String}
    (h : ∀ line ∈ lines, (nextTokens kind line).isSome) :
    removeLoop kind idStr lines =
      some (lines.filter fun line => ¬ HasId kind idStr line,
        decide (∃ line ∈ lines, HasId kind idStr line)) := by
  induction lines with
  | nil => rfl
  | cons line lines ih =>
    obtain ⟨hline, hlines⟩ := List.forall_mem_cons.mp h
    obtain ⟨row, hrow⟩ := Option.isSome_iff_exists.mp hline
    have hhas : HasId kind idStr line ↔ row.id = idStr := by
      rw [HasId, hrow, Option.map_some, Option.some_inj]
    rw [removeLoop, hrow, ih hlines, Option.bind_some, Option.map_some]
    by_cases hid : row.id = idStr
    · have hthis := hhas.mpr hid
      rw [if_pos hid, List.filter_cons_of_neg (by simpa using hthis)]
      simp only [List.mem_cons, exists_eq_or_imp, hthis, true_or, decide_true]
    · have hthis : ¬ HasId kind idStr line := fun hhas' => hid (hhas.mp hhas')
      rw [if_neg hid, List.filter_cons_of_pos (by simpa using hthis)]
      simp only [List.mem_cons, exists_eq_or_imp, hthis, false_or]

/-! ## Names -/

theorem tempName_ne (name : String) : tempName name ≠ name := by
  intro h
  have hlength := congrArg String.length h
  rw [tempName, String.length_append] at hlength
  exact absurd hlength (by show _ + 4 ≠ _; omega)

theorem tempName_injective {name other : String} (h : tempName name = tempName other) : name = other :=
  (String.append_left_inj _).mp h

/-- The database is the temporary file of no other file. -/
theorem authFileName_ne_temp (kind : Kind) (name : String) :
    authFileName kind name ≠ tempName name := by
  cases kind with
  | manager => exact (tempName_ne name).symm
  | franchise =>
    intro h
    have hlast : FranchiseAuthFileName.toList.getLast? = (tempName name).toList.getLast? :=
      congrArg (fun s => s.toList.getLast?) h
    rw [tempName, String.toList_append, List.getLast?_append] at hlast
    have ht : FranchiseAuthFileName.toList.getLast? = some 't' := by decide
    cases ht.symm.trans hlast

/-! ## Runs -/

instance (kind : Kind) (idStr : String) (file : Option String) : Decidable (Has kind idStr file) :=
  inferInstanceAs (Decidable (∃ line ∈ records file, HasId kind idStr line))

section Runs

variable {kind : Kind} {os : OS} {faults : Faults} {name idStr : String} {files : Files}

/-- What is read: the file, or nothing if it is the emptied temporary file. -/
def readFile (kind : Kind) (name : String) (files : Files) : Option String :=
  if name = tempName (authFileName kind name) then some "" else files name

theorem remove_eq (kind : Kind) (os : OS) (faults : Faults) (name idStr : String) (files : Files) :
    remove kind os faults name idStr files =
      removeRecordProcess os kind faults (authFileName kind name) name idStr files := by
  cases kind with
  | franchise => rfl
  | manager => rfl

theorem remove_noDatabase (h : files (authFileName kind name) = none) :
    remove kind os faults name idStr files = (files, some "0x6053") := by
  rw [remove_eq, removeRecordProcess, if_pos h]

theorem remove_notOpened (hdatabase : files (authFileName kind name) ≠ none)
    (h : files name = none ∨ faults.openTemp = true) :
    remove kind os faults name idStr files = (files, some "0x6051") := by
  rw [remove_eq, removeRecordProcess, if_neg hdatabase]
  rcases h with hname | hopen
  · rw [if_pos hname]
  · rw [if_pos hopen, ite_self]

/-- The files with the temporary file written. -/
def printed (kind : Kind) (os : OS) (faults : Faults) (name idStr : String) (files : Files) : Files :=
  Function.update files (tempName (authFileName kind name))
    (some (rewritten kind os faults idStr (readFile kind name files)))

def reported (kind : Kind) (idStr : String) (file : Option String) : String :=
  if Has kind idStr file then "0x6050" else "0x6051"

theorem remove_run (hwell : WellFormed kind (files name))
    (hdatabase : files (authFileName kind name) ≠ none)
    (h : ¬ (files name = none ∨ faults.openTemp = true)) :
    remove kind os faults name idStr files =
      if faults.delete then (printed kind os faults name idStr files, some "0x6054")
      else if faults.rename then
        (Function.update (printed kind os faults name idStr files) (authFileName kind name) none,
          some (reported kind idStr (readFile kind name files)))
      else
        (Function.update (Function.update (printed kind os faults name idStr files)
          (authFileName kind name) (some (rewritten kind os faults idStr (readFile kind name files))))
          (tempName (authFileName kind name)) none,
          some (reported kind idStr (readFile kind name files))) := by
  obtain ⟨hname, hopen⟩ := not_or.mp h
  rw [remove_eq, removeRecordProcess, if_neg hdatabase, if_neg hname, if_neg hopen]
  have hread : Function.update files (tempName (authFileName kind name)) (some "") name =
      readFile kind name files := by
    rw [Function.update_apply, readFile]
  have hlines : ∀ line ∈ records (readFile kind name files), (nextTokens kind line).isSome := by
    rw [readFile]
    split
    · rw [records, Option.getD_some, readLines_empty]
      exact nofun
    · exact hwell
  have hloop := removeLoop_eq idStr hlines
  have hprinted := printedLines_eq hloop
  have hreported : (if decide (Has kind idStr (readFile kind name files)) = true then "0x6050" else "0x6051") =
      reported kind idStr (readFile kind name files) := by
    simp only [decide_eq_true_eq, reported]
  rw [records] at hloop hprinted
  simp only [hread, hloop, hprinted, Function.update_idem]
  rw [← hreported]
  rfl

/-! ## What each run leaves -/

theorem others_sublist (kind : Kind) (idStr : String) (file : Option String) :
    (others kind idStr file).Sublist (records file) := List.filter_sublist

theorem others_eq_iff {file : Option String} :
    records file = others kind idStr file ↔ ¬ Has kind idStr file := by
  rw [eq_comm, others, List.filter_eq_self]
  simp only [decide_eq_true_eq, Has, not_exists, not_and]

theorem records_none : records none = [] := readLines_empty

theorem not_has_none : ¬ Has kind idStr none := by
  rintro ⟨line, hline, -⟩
  rw [records_none] at hline
  exact List.not_mem_nil hline

/-- A run that changes nothing. -/
theorem removesOnly_unchanged {result : Option String} (hresult : result ≠ some "0x6050") :
    RemovesOnly kind faults name idStr files files result ↔
      (¬ Fails kind faults name files → ¬ Has kind idStr (files name)) := by
  constructor
  · intro h hfails
    exact others_eq_iff.mp (h.done hfails)
  · intro h
    exact ⟨fun _ _ _ => rfl, fun hfails => others_eq_iff.mpr (h hfails), fun hreported => absurd hreported hresult,
      fun _ => ⟨others_sublist _ _ _, hresult⟩⟩

theorem readFile_of_ne (h : name ≠ tempName (authFileName kind name)) :
    readFile kind name files = files name := if_neg h

theorem reported_eq_iff {file : Option String} :
    some (reported kind idStr file) = some "0x6050" ↔ Has kind idStr file := by
  rw [reported]
  split
  · exact iff_of_true rfl ‹_›
  · exact iff_of_false (by decide) ‹_›

theorem records_eq_nil_iff {file : Option String} :
    records file = [] ↔ others kind idStr file = [] ∧ ¬ Has kind idStr file := by
  constructor
  · intro h
    refine ⟨List.sublist_nil.mp (h ▸ others_sublist kind idStr file), ?_⟩
    rintro ⟨line, hline, -⟩
    rw [h] at hline
    exact List.not_mem_nil hline
  · rintro ⟨hnone, hid⟩
    rw [others_eq_iff.mpr hid, hnone]

/-- What is written completely is read back. -/
theorem records_printed (os : OS) (file : Option String) :
    records (some (printLines os.lineSeparator (others kind idStr file))) = others kind idStr file := by
  have hlines : ∀ line ∈ others kind idStr file, IsLine line := fun line hline =>
    isLine_of_mem_readLines ((others_sublist kind idStr file).subset hline)
  exact readLines_printed (lineSeparator_eq os) hlines

theorem not_has_others {file after : Option String} (h : records after = others kind idStr file) :
    ¬ Has kind idStr after := by
  rintro ⟨line, hline, hid⟩
  rw [h] at hline
  exact absurd hid (of_decide_eq_true (List.mem_filter.mp hline).2)

/-! ### The file that is read is the database -/

section Own

variable (hown : name = authFileName kind name)

include hown

theorem own_ne_temp : name ≠ tempName (authFileName kind name) := by
  intro h
  exact tempName_ne _ (h.symm.trans hown)

theorem own_notDeleted (hfails : Fails kind faults name files) :
    RemovesOnly kind faults name idStr files (printed kind os faults name idStr files) (some "0x6054") := by
  have hkept : printed kind os faults name idStr files name = files name :=
    Function.update_of_ne (own_ne_temp hown) _ _
  refine ⟨?_, fun h => absurd hfails h, fun h => absurd h (by decide), fun _ => ⟨?_, by decide⟩⟩
  · intro other _ htemp
    refine Function.update_of_ne ?_ _ _
    rwa [← hown]
  · show (others kind idStr (files name)).Sublist (records (printed kind os faults name idStr files name))
    rw [hkept]
    exact others_sublist _ _ _

theorem own_notRenamed (hfails : Fails kind faults name files) :
    RemovesOnly kind faults name idStr files
      (Function.update (printed kind os faults name idStr files) (authFileName kind name) none)
      (some (reported kind idStr (readFile kind name files))) ↔ records (files name) = [] := by
  have hgone : Function.update (printed kind os faults name idStr files) (authFileName kind name) none name =
      none := by
    rw [← hown]
    exact Function.update_self _ _ _
  rw [readFile_of_ne (own_ne_temp hown)]
  constructor
  · intro h
    obtain ⟨hsublist, hresult⟩ := h.failed hfails
    refine records_eq_nil_iff.mpr ⟨?_, fun hid => hresult (reported_eq_iff.mpr hid)⟩
    rw [hgone, records_none] at hsublist
    exact List.sublist_nil.mp hsublist
  · intro h
    obtain ⟨hnone, hid⟩ := (@records_eq_nil_iff kind idStr (files name)).mp h
    refine ⟨?_, fun h => absurd hfails h, fun h => absurd (reported_eq_iff.mp h) hid,
      fun _ => ⟨?_, fun h => hid (reported_eq_iff.mp h)⟩⟩
    · intro other hother htemp
      rw [hown] at hother htemp
      exact (Function.update_of_ne hother _ _).trans (Function.update_of_ne htemp _ _)
    · rw [hnone]
      exact List.nil_sublist _

theorem own_renamed (hfails : Fails kind faults name files ↔ faults.written ≠ none)
    (hwell : WellFormed kind (files name)) :
    RemovesOnly kind faults name idStr files
      (Function.update (Function.update (printed kind os faults name idStr files)
        (authFileName kind name) (some (rewritten kind os faults idStr (readFile kind name files))))
        (tempName (authFileName kind name)) none)
      (some (reported kind idStr (readFile kind name files))) ↔
      ∀ n, faults.written = some n → ¬ Has kind idStr (files name) ∧
        (printLines os.lineSeparator (others kind idStr (files name))).length ≤
          n + os.lineSeparator.length := by
  have htemp := own_ne_temp hown
  rw [readFile_of_ne htemp]
  generalize hafter : Function.update (Function.update (printed kind os faults name idStr files) _ _) _ _ = after
  have hname : after name = some (rewritten kind os faults idStr (files name)) := by
    rw [← hafter, Function.update_of_ne htemp, ← hown]
    exact Function.update_self _ _ _
  have hframe : ∀ other, other ≠ name → other ≠ tempName name → after other = files other := by
    intro other hother hne
    rw [hown] at hother hne
    rw [← hafter, Function.update_of_ne hne, Function.update_of_ne hother]
    exact Function.update_of_ne hne _ _
  cases hwritten : faults.written with
  | none =>
    have hrecords : records (after name) = others kind idStr (files name) := by
      rw [hname, rewritten, Faults.write, hwritten]
      exact records_printed os (files name)
    refine iff_of_true ?_ nofun
    refine ⟨hframe, fun _ => hrecords, fun h => ⟨reported_eq_iff.mp h, not_has_others hrecords⟩,
      fun h => absurd hwritten (hfails.mp h)⟩
  | some n =>
    have hlines : ∀ line ∈ others kind idStr (files name), IsLine line ∧ line ≠ "" := by
      intro line hline
      have hmem := (others_sublist kind idStr (files name)).subset hline
      refine ⟨isLine_of_mem_readLines hmem, ?_⟩
      rintro rfl
      exact absurd (hwell _ hmem) (by cases kind <;> decide)
    have hcut := sublist_readLines_cut (lineSeparator_eq os) hlines n
    have hrecords : records (after name) =
        readLines (cut n (printLines os.lineSeparator (others kind idStr (files name)))) := by
      rw [hname, rewritten, Faults.write, hwritten]
      rfl
    rw [← hrecords] at hcut
    have hfailed : Fails kind faults name files := hfails.mpr (by rw [hwritten]; nofun)
    constructor
    · rintro h m ⟨⟩
      obtain ⟨hsublist, hresult⟩ := h.failed hfailed
      exact ⟨fun hid => hresult (reported_eq_iff.mpr hid), hcut.mp hsublist⟩
    · intro h
      obtain ⟨hid, hlength⟩ := h n rfl
      have hresult : some (reported kind idStr (files name)) ≠ some "0x6050" :=
        fun h => hid (reported_eq_iff.mp h)
      exact ⟨hframe, fun h => absurd hfailed h, fun h => absurd h hresult, fun _ => ⟨hcut.mpr hlength, hresult⟩⟩

end Own

/-! ### Another file is deleted -/

section Other

variable (hother : name ≠ authFileName kind name)

include hother

/-- A run without the database breaks the frame. -/
theorem other_notRenamed (hdatabase : files (authFileName kind name) ≠ none) (result : Option String) :
    ¬ RemovesOnly kind faults name idStr files
      (Function.update (printed kind os faults name idStr files) (authFileName kind name) none) result := by
  intro h
  have hframe := h.frame _ hother.symm (authFileName_ne_temp kind name)
  rw [Function.update_self] at hframe
  exact hdatabase hframe.symm

/-- The temporary file of the database is not that of the file. -/
theorem other_temp_ne : tempName (authFileName kind name) ≠ tempName name :=
  fun h => hother (tempName_injective h).symm

section Apart

variable (htemp : name ≠ tempName (authFileName kind name))

include htemp

theorem apart_notDeleted (hfails : Fails kind faults name files) :
    RemovesOnly kind faults name idStr files (printed kind os faults name idStr files) (some "0x6054") ↔
      files (tempName (authFileName kind name)) = some (rewritten kind os faults idStr (files name)) := by
  have hname : printed kind os faults name idStr files name = files name := Function.update_of_ne htemp _ _
  have hwritten : printed kind os faults name idStr files (tempName (authFileName kind name)) =
      some (rewritten kind os faults idStr (files name)) := by
    rw [printed, Function.update_self, readFile_of_ne htemp]
  constructor
  · intro h
    rw [← h.frame _ htemp.symm (other_temp_ne hother), hwritten]
  · intro h
    have hsame : printed kind os faults name idStr files = files := by
      rw [printed, readFile_of_ne htemp, ← h]
      exact Function.update_eq_self _ _
    rw [hsame]
    exact (removesOnly_unchanged (by decide)).mpr fun hno => absurd hfails hno

theorem apart_renamed :
    RemovesOnly kind faults name idStr files
      (Function.update (Function.update (printed kind os faults name idStr files)
        (authFileName kind name) (some (rewritten kind os faults idStr (readFile kind name files))))
        (tempName (authFileName kind name)) none)
      (some (reported kind idStr (readFile kind name files))) ↔
      files (authFileName kind name) = some (rewritten kind os faults idStr (files name)) ∧
        files (tempName (authFileName kind name)) = none ∧ ¬ Has kind idStr (files name) := by
  rw [readFile_of_ne htemp]
  generalize hafter : Function.update (Function.update (printed kind os faults name idStr files) _ _) _ _ = after
  have hname : after name = files name := by
    rw [← hafter, Function.update_of_ne htemp, Function.update_of_ne hother]
    exact Function.update_of_ne htemp _ _
  have hdatabase : after (authFileName kind name) = some (rewritten kind os faults idStr (files name)) := by
    rw [← hafter, Function.update_of_ne (tempName_ne _).symm]
    exact Function.update_self _ _ _
  have hgone : after (tempName (authFileName kind name)) = none := by
    rw [← hafter]
    exact Function.update_self _ _ _
  constructor
  · intro h
    refine ⟨?_, ?_, ?_⟩
    · rw [← h.frame _ hother.symm (authFileName_ne_temp kind name), hdatabase]
    · rw [← h.frame _ htemp.symm (other_temp_ne hother), hgone]
    · -- the record would be reported, and is still in the file
      intro hid
      have hleft := (h.reported (reported_eq_iff.mpr hid)).2
      rw [hname] at hleft
      exact hleft hid
  · rintro ⟨hsame, hnone, hid⟩
    have hunchanged : after = files := by
      funext other
      by_cases h1 : other = tempName (authFileName kind name)
      · rw [h1, hgone, hnone]
      by_cases h2 : other = authFileName kind name
      · rw [h2, hdatabase, hsame]
      · rw [← hafter, Function.update_of_ne h1, Function.update_of_ne h2]
        exact Function.update_of_ne h1 _ _
    rw [hunchanged]
    exact (removesOnly_unchanged fun h => hid (reported_eq_iff.mp h)).mpr fun _ => hid

end Apart

end Other

/-! ### The file that is read is the temporary file of the database -/

theorem readFile_of_eq (h : name = tempName (authFileName kind name)) :
    readFile kind name files = some "" := if_pos h

theorem records_empty : records (some "") = [] := readLines_empty

/-- Nothing is written for a file without records. -/
theorem rewritten_empty (kind : Kind) (os : OS) (faults : Faults) (idStr : String) :
    rewritten kind os faults idStr (some "") = "" := by
  rw [rewritten, others, records_empty]
  unfold Faults.write
  cases faults.written with
  | none => rfl
  | some n =>
    show String.ofList (List.take n []) = ""
    rw [List.take_nil]

theorem not_reported_empty : some (reported kind idStr (some "")) ≠ some "0x6050" :=
  fun h => ((@records_eq_nil_iff kind idStr _).mp records_empty).2 (reported_eq_iff.mp h)

section OwnTemp

variable (htemp : name = tempName (authFileName kind name))

include htemp

theorem ownTemp_notDeleted (hfails : Fails kind faults name files) :
    RemovesOnly kind faults name idStr files (printed kind os faults name idStr files) (some "0x6054") ↔
      others kind idStr (files name) = [] := by
  have hname : printed kind os faults name idStr files name = some "" := by
    rw [printed, readFile_of_eq htemp, rewritten_empty, ← htemp, Function.update_self]
  have hrecords : records (printed kind os faults name idStr files name) = [] := by
    rw [hname, records_empty]
  constructor
  · intro h
    have hsublist := (h.failed hfails).1
    rw [hrecords] at hsublist
    exact List.sublist_nil.mp hsublist
  · intro h
    refine ⟨?_, fun hno => absurd hfails hno, fun h => absurd h (by decide), fun _ => ⟨?_, by decide⟩⟩
    · intro other hne _
      rw [htemp] at hne
      exact Function.update_of_ne hne _ _
    · rw [h]
      exact List.nil_sublist _

theorem ownTemp_renamed (hother : name ≠ authFileName kind name) :
    RemovesOnly kind faults name idStr files
      (Function.update (Function.update (printed kind os faults name idStr files)
        (authFileName kind name) (some (rewritten kind os faults idStr (readFile kind name files))))
        (tempName (authFileName kind name)) none)
      (some (reported kind idStr (readFile kind name files))) ↔
      files (authFileName kind name) = some "" ∧ others kind idStr (files name) = [] := by
  rw [readFile_of_eq htemp, rewritten_empty]
  generalize hafter : Function.update (Function.update (printed kind os faults name idStr files) _ _) _ _ = after
  have hgone : after name = none := by
    rw [← hafter, ← htemp]
    exact Function.update_self _ _ _
  have hdatabase : after (authFileName kind name) = some "" := by
    rw [← hafter, Function.update_of_ne (tempName_ne _).symm]
    exact Function.update_self _ _ _
  have hrecords : records (after name) = [] := by rw [hgone, records_none]
  constructor
  · intro h
    refine ⟨?_, ?_⟩
    · rw [← h.frame _ hother.symm (authFileName_ne_temp kind name), hdatabase]
    · -- whether or not something failed, the file has no record left
      by_cases hfails : Fails kind faults name files
      · have hsublist := (h.failed hfails).1
        rw [hrecords] at hsublist
        exact List.sublist_nil.mp hsublist
      · rw [← h.done hfails, hrecords]
  · rintro ⟨hsame, hnone⟩
    refine ⟨?_, fun _ => by rw [hrecords, hnone], fun h => absurd h not_reported_empty,
      fun _ => ⟨?_, not_reported_empty⟩⟩
    · intro other hne _
      by_cases h : other = authFileName kind name
      · rw [h, hdatabase, hsame]
      · rw [htemp] at hne
        rw [← hafter, Function.update_of_ne hne, Function.update_of_ne h]
        exact Function.update_of_ne hne _ _
    · rw [hnone]
      exact List.nil_sublist _

end OwnTemp

/-! ## When a removal does what it is for -/

/-- **A removal touches nothing else** exactly if `Spares` holds of the state, the file, the id and the
faults. -/
theorem removes_only_iff (kind : Kind) (os : OS) (faults : Faults) (name idStr : String) (files : Files)
    (hwell : WellFormed kind (files name)) :
    RemovesOnly kind faults name idStr files (remove kind os faults name idStr files).1
        (remove kind os faults name idStr files).2 ↔
      Spares kind os faults name idStr files := by
  unfold Spares
  by_cases hdatabase : files (authFileName kind name) = none
  · rw [if_pos hdatabase, remove_noDatabase hdatabase]
    show RemovesOnly kind faults name idStr files files (some "0x6053") ↔ _
    rw [removesOnly_unchanged (by decide)]
    exact ⟨fun h => h fun hfails => hfails.1 hdatabase, fun h _ => h⟩
  rw [if_neg hdatabase]
  by_cases hopen : files name = none ∨ faults.openTemp = true
  · rw [if_pos hopen, remove_notOpened hdatabase hopen]
    show RemovesOnly kind faults name idStr files files (some "0x6051") ↔ _
    rw [removesOnly_unchanged (by decide)]
    refine iff_of_true ?_ trivial
    intro hno
    rcases hopen with hname | hopen
    · rw [hname]
      exact not_has_none
    · by_cases hname : files name = none
      · rw [hname]
        exact not_has_none
      · exact absurd ⟨hdatabase, hname, Or.inl hopen⟩ hno
  rw [if_neg hopen, remove_run hwell hdatabase hopen]
  obtain ⟨hname, hopen⟩ := not_or.mp hopen
  by_cases hdelete : faults.delete = true
  · have hfails : Fails kind faults name files := ⟨hdatabase, hname, Or.inr (Or.inr (Or.inl hdelete))⟩
    rw [if_pos hdelete, if_pos hdelete, if_pos hdelete]
    by_cases hown : name = authFileName kind name
    · rw [if_pos hown]
      exact iff_of_true (own_notDeleted hown hfails) trivial
    rw [if_neg hown]
    by_cases htemp : name = tempName (authFileName kind name)
    · rw [if_pos htemp]
      refine (ownTemp_notDeleted htemp hfails).trans ?_
      exact ⟨fun h => ⟨h, Or.inl hdelete⟩, fun h => h.1⟩
    · rw [if_neg htemp]
      exact apart_notDeleted hown htemp hfails
  rw [if_neg hdelete, if_neg hdelete, if_neg hdelete]
  by_cases hrename : faults.rename = true
  · have hfails : Fails kind faults name files := ⟨hdatabase, hname, Or.inr (Or.inr (Or.inr hrename))⟩
    rw [if_pos hrename, if_pos hrename]
    by_cases hown : name = authFileName kind name
    · rw [if_pos hown]
      exact own_notRenamed hown hfails
    rw [if_neg hown]
    refine iff_of_false (other_notRenamed hown hdatabase _) ?_
    split
    · rintro ⟨-, h | ⟨h, -⟩⟩
      · exact hdelete h
      · rw [hrename] at h
        cases h
    · rintro ⟨h, -⟩
      rw [hrename] at h
      cases h
  · have hfails : Fails kind faults name files ↔ faults.written ≠ none := by
      refine ⟨?_, fun h => ⟨hdatabase, hname, Or.inr (Or.inl h)⟩⟩
      rintro ⟨-, -, h | h | h | h⟩
      · exact absurd h hopen
      · exact h
      · exact absurd h hdelete
      · exact absurd h hrename
    have hrename' : faults.rename = false := Bool.eq_false_of_not_eq_true hrename
    rw [if_neg hrename, if_neg hrename]
    by_cases hown : name = authFileName kind name
    · rw [if_pos hown]
      exact own_renamed hown hfails hwell
    rw [if_neg hown]
    by_cases htemp : name = tempName (authFileName kind name)
    · rw [if_pos htemp]
      refine (ownTemp_renamed htemp hown).trans ?_
      constructor
      · rintro ⟨hsame, hnone⟩
        exact ⟨hnone, Or.inr ⟨hrename', hsame⟩⟩
      · rintro ⟨hnone, h | ⟨-, hsame⟩⟩
        · exact absurd h hdelete
        · exact ⟨hsame, hnone⟩
    · rw [if_neg htemp]
      refine (apart_renamed hown htemp).trans ?_
      exact ⟨fun h => ⟨hrename', h⟩, fun h => h.2⟩

end Runs

/-- Without faults and on its own file, the removal is that of a single file. -/
theorem remove_own (kind : Kind) (os : OS) (name idStr : String) (files : Files)
    (hown : name = authFileName kind name) :
    ((remove kind os .none name idStr files).1 name, (remove kind os .none name idStr files).2) =
      AuthDB.remove kind os (files name) idStr := by
  have htemp := own_ne_temp hown
  have hremove : AuthDB.remove kind os (files name) idStr =
      AuthDB.removeRecordProcess os kind (files name) idStr := by
    cases kind with
    | franchise => rfl
    | manager => rfl
  rw [hremove]
  cases hfile : files name with
  | none =>
    rw [remove_noDatabase (hown ▸ hfile)]
    exact congrArg (·, some "0x6053") hfile
  | some text =>
    have hname : files (authFileName kind name) ≠ none := by
      rw [← hown, hfile]
      exact Option.some_ne_none _
    have hread : Function.update files (tempName (authFileName kind name)) (some "") name = some text := by
      rw [Function.update_of_ne htemp, hfile]
    rw [remove_eq, removeRecordProcess, if_neg hname, if_neg (hfile ▸ Option.some_ne_none _),
      if_neg (by decide)]
    simp only [hread, Option.getD_some, AuthDB.removeRecordProcess]
    cases hloop : removeLoop kind idStr (readLines text) with
    | none =>
      show (Function.update files _ _ name, (none : Option String)) = (some text, none)
      rw [Function.update_of_ne htemp, hfile]
    | some kept =>
      obtain ⟨kept, removed⟩ := kept
      rw [printedLines_eq hloop]
      show (Function.update (Function.update _ _ _) _ _ name, _) = _
      rw [Function.update_of_ne htemp]
      refine Prod.ext ?_ rfl
      rw [← hown]
      exact Function.update_self _ _ _

instance (kind : Kind) (file : Option String) : Decidable (WellFormed kind file) :=
  inferInstanceAs (Decidable (∀ line ∈ records file, (nextTokens kind line).isSome))

/-- A database of managers with two records. -/
def managers : Files := fun name =>
  if name = "moaMANAGERAuthDB.dat" then some "1$ann$c2FsdA$Y2lwaGVy$0$now\n2$bob$c2FsdA$Y2lwaGVy$0$now\n"
  else none

theorem removes_only_managers :
    RemovesOnly .manager .none "moaMANAGERAuthDB.dat" "ann" managers
      (remove .manager .linux .none "moaMANAGERAuthDB.dat" "ann" managers).1
      (remove .manager .linux .none "moaMANAGERAuthDB.dat" "ann" managers).2 := by
  refine (removes_only_iff .manager .linux .none "moaMANAGERAuthDB.dat" "ann" managers (by decide)).mpr ?_
  unfold Spares
  rw [if_neg (by decide), if_neg (by decide), if_pos (by decide), if_neg (by decide), if_neg (by decide)]
  nofun

/-- A franchise database and a copy of it under another name. -/
def franchises : Files := fun name =>
  if name = "moaFRANCHISEAuthDB.dat" ∨ name = "copy.dat" then
    some "ann$c2FsdA$Y2lwaGVy$0$now\nbob$c2FsdA$Y2lwaGVy$0$now\n"
  else none

/-- A removal from the copy removes from the database instead. -/
theorem not_removes_only_copy :
    WellFormed .franchise (franchises "copy.dat") ∧
      ¬ RemovesOnly .franchise .none "copy.dat" "ann" franchises
        (remove .franchise .linux .none "copy.dat" "ann" franchises).1
        (remove .franchise .linux .none "copy.dat" "ann" franchises).2 := by
  refine ⟨by decide, ?_⟩
  intro h
  exact absurd (h.frame "moaFRANCHISEAuthDB.dat" (by decide) (by decide)) (by decide)

end MoaCrypto.AuthDB.Removal
