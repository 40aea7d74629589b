import MoaCrypto.Lib.Run
import MoaCrypto.CoreAuth.AuthFile
import MoaCrypto.Java.Base64
import Mathlib.Logic.Function.Basic

/-!
# The auth database as a map

An addition sets an id of the map and a removal clears it (`mapStep`).  The file follows the map as
long as every record is on a line of its own and no line is blank.  What an addition writes in
front of its record fits one of two ends of the file only: the end of a record, or the start of a
line that a removal leaves (`OS.Joins`); on no system does it fit both.
-/

namespace MoaCrypto.AuthDB

open Java CoreAuth StepRun

variable {kind : Kind}

/-! ## The map -/

/-- What the operations are for. -/
def mapStep (m : String → Option (Entry kind)) : Op kind → String → Option (Entry kind)
  | .add e => Function.update m e.id.text (some e)
  | .remove id => Function.update m id.text none

/-- An addition is of an id that is not in the map. -/
def Op.Absent (m : String → Option (Entry kind)) : Op kind → Prop
  | .add e => (m e.id.text).isNone = true
  | .remove _ => True

instance (m : String → Option (Entry kind)) : (op : Op kind) → Decidable (op.Absent m)
  | .add e => inferInstanceAs (Decidable ((m e.id.text).isNone = true))
  | .remove _ => isTrue trivial

/-- Every addition is of an absent id. -/
def AbsentAdds (ops : List (Op kind)) : Prop := Along mapStep Op.Absent (fun _ => none) ops

def Op.IsAdd : Op kind → Prop
  | .add _ => True
  | .remove _ => False

instance : (op : Op kind) → Decidable op.IsAdd
  | .add _ => isTrue trivial
  | .remove _ => isFalse id

/-- After the operations `done`, from no file, the addition reports success. -/
def Reported (os : OS) (done : List (Op kind)) (e : Entry kind) : Prop :=
  (storage kind os (run (step os) none done) e.record).2 = "0x6020"

/-- Searches and lookups answer as the map does, and nothing throws. -/
structure Agrees (cr : Crypto) (os : OS) (file : Option String) (m : String → Option (Entry kind)) :
    Prop where
  search : ∀ idStr, ∃ answer, search kind file idStr = some answer ∧
    (answer = some "0x6010" ↔ (m idStr).isSome = true)
  get : ∀ idStr, get cr kind file (cr.toBase64String (utf8 idStr)) = some ((m idStr).map Entry.stored)
  remove : ∀ idStr, (remove kind os file idStr).2 ≠ none

/-- The file agrees with the map after each of the operations, from no file. -/
def LooksUp (cr : Crypto) (os : OS) (ops : List (Op kind)) : Prop :=
  ∀ done, done <+: ops →
    Agrees cr os (run (step os) none done) (run mapStep (fun _ => none) done)

/-- **What the file is for.** -/
structure BehavesAsMap (cr : Crypto) (os : OS) (ops : List (Op kind)) : Prop where
  reported : ∀ done e, done ++ [.add e] <+: ops → Reported os done e
  looksUp : LooksUp cr os ops

/-! ## The end of the file -/

/-- Where the next write to the file goes. -/
inductive Tail
  | missing
  | inLine
  | atLineStart
  deriving DecidableEq, Repr

def Tail.after : Tail → Op kind → Tail
  | _, .add _ => .inLine
  | .missing, .remove _ => .missing
  | .inLine, .remove _ => .atLineStart
  | .atLineStart, .remove _ => .atLineStart

/-- A record added at this end is on a line of its own, next to the other records. -/
def OS.Joins : OS → Tail → Prop
  | _, .missing => True
  | .windows, .inLine => True
  | .other, .atLineStart => True
  | _, _ => False

instance : (os : OS) → (tail : Tail) → Decidable (os.Joins tail)
  | .windows, .missing | .linux, .missing | .other, .missing => isTrue trivial
  | .windows, .inLine | .other, .atLineStart => isTrue trivial
  | .windows, .atLineStart | .linux, .inLine | .linux, .atLineStart | .other, .inLine =>
    isFalse id

def Op.Joined (os : OS) (tail : Tail) : Op kind → Prop
  | .add _ => os.Joins tail
  | .remove _ => True

instance (os : OS) (tail : Tail) : (op : Op kind) → Decidable (op.Joined os tail)
  | .add _ => inferInstanceAs (Decidable (os.Joins tail))
  | .remove _ => isTrue trivial

/-- Every addition is made where the record gets a line of its own. -/
def Separated (os : OS) (ops : List (Op kind)) : Prop := Along Tail.after (Op.Joined os) .missing ops

/-! ## Records -/

theorem intText_chars (n : Int) : ∀ c ∈ (toString n).toList, c.isDigit = true ∨ c = '-' := by
  intro c hc
  cases n with
  | ofNat n =>
    have hc : c ∈ (Nat.repr n).toList := hc
    rw [Nat.toList_repr] at hc
    exact Or.inl (isDigit_toDigits hc)
  | negSucc n =>
    have hc : c ∈ ("-" ++ Nat.repr (n + 1)).toList := hc
    rw [String.toList_append, Nat.toList_repr] at hc
    rcases List.mem_append.mp hc with hc | hc
    · exact Or.inr (by simpa using hc)
    · exact Or.inl (isDigit_toDigits hc)

theorem intText_ne (n : Int) : toString n ≠ "" := by
  cases n with
  | ofNat n => exact Nat.repr_ne_empty
  | negSucc n =>
    intro h
    have hlist : ("-" ++ Nat.repr (n + 1)).toList = [] := by
      rw [show "-" ++ Nat.repr (n + 1) = "" from h]
      rfl
    rw [String.toList_append] at hlist
    exact absurd (List.append_eq_nil_iff.mp hlist).1 (by decide)

/-- A number can stand in a field. -/
def countField (n : Int) : Field where
  text := toString n
  ne := intText_ne n
  separator h := by rcases intText_chars n _ h with h | h <;> exact absurd h (by decide)
  line := by
    constructor
    · intro h
      rcases intText_chars n _ h with h | h <;> exact absurd h (by decide)
    · intro h
      rcases intText_chars n _ h with h | h <;> exact absurd h (by decide)

theorem Field.tokens (f : Field) : tokens '$' f.text = [f.text] := by
  rw [tokens_of_not_mem f.separator, if_neg f.ne]

theorem isLine_append {s t : String} (hs : IsLine s) (ht : IsLine t) : IsLine (s ++ t) := by
  unfold IsLine at *
  rw [String.toList_append]
  constructor
  · exact fun h => (List.mem_append.mp h).elim hs.1 ht.1
  · exact fun h => (List.mem_append.mp h).elim hs.2 ht.2

/-- The fields of a record from the id on, up to the last. -/
def Entry.head (e : Entry kind) : List Field :=
  e.level.toList ++ [e.id, e.saltBase64, e.cipheredPswBase64, countField e.authFailCount]

/-- The record, put together from its fields. -/
def joinFields (fields : List Field) (last : String) : String :=
  fields.foldr (fun f s => f.text ++ "$" ++ s) last

theorem Entry.record_eq (e : Entry kind) :
    e.record = joinFields e.head e.lastModifiedDatetime.text := by
  unfold Entry.record Entry.head
  cases e.level <;>
    simp [joinFields, franchiseAuthDBAddProcess, ManagerAuthDBAddProcess, countField,
      String.append_assoc]

theorem tokens_joinFields (fields : List Field) (last : String) :
    tokens '$' (joinFields fields last) = fields.map Field.text ++ tokens '$' last := by
  induction fields with
  | nil => rfl
  | cons f fields ih =>
    show tokens '$' (f.text ++ "$" ++ joinFields fields last) = _
    rw [tokens_join, f.tokens, ih]
    rfl

theorem isLine_joinFields (fields : List Field) {last : String} (h : IsLine last) :
    IsLine (joinFields fields last) := by
  induction fields with
  | nil => exact h
  | cons f fields ih => exact isLine_append (isLine_append f.line (by decide)) ih

theorem Entry.record_isLine (e : Entry kind) : IsLine e.record := by
  rw [e.record_eq]
  exact isLine_joinFields _ e.lastModifiedDatetime.line

theorem Entry.record_ne (e : Entry kind) : e.record ≠ "" := by
  intro h
  have htokens : tokens '$' e.record = [] := by rw [h]; rfl
  rw [e.record_eq, tokens_joinFields, Field.tokens] at htokens
  exact absurd htokens (by simp)

/-- The line of a record taken apart, with any text in the place of the date. -/
def Entry.row (e : Entry kind) (date : String) : Row :=
  ⟨e.level.map Field.text, e.id.text, e.saltBase64.text, e.cipheredPswBase64.text,
    toString e.authFailCount, date⟩

theorem nextTokens_joinFields (e : Entry kind) {last date : String} {rest : List String}
    (h : tokens '$' last = date :: rest) :
    nextTokens kind (joinFields e.head last) = some (e.row date) := by
  have htokens := tokens_joinFields e.head last
  have hlevel := e.level_isSome
  rw [h] at htokens
  unfold nextTokens
  rw [htokens]
  unfold Entry.head Entry.row
  cases kind <;> cases hl : e.level <;> simp_all [countField]

theorem Entry.nextTokens_record (e : Entry kind) :
    nextTokens kind e.record = some (e.row e.lastModifiedDatetime.text) := by
  rw [e.record_eq]
  exact nextTokens_joinFields e e.lastModifiedDatetime.tokens

/-! ## The loops over records -/

def lookup (es : List (Entry kind)) (idStr : String) : Option (Entry kind) :=
  es.find? fun e => e.id.text = idStr

/-- The search passes the records of other ids. -/
theorem findRow_append {es : List (Entry kind)} {idStr : String} (h : lookup es idStr = none)
    (lines : List String) :
    findRow kind idStr (es.map Entry.record ++ lines) = findRow kind idStr lines := by
  induction es with
  | nil => rfl
  | cons e es ih =>
    obtain ⟨hid, hes⟩ : ¬ e.id.text = idStr ∧ lookup es idStr = none := by
      simpa [lookup] using h
    have hne : ¬ idStr = e.id.text := fun he => hid he.symm
    rw [List.map_cons, List.cons_append, findRow, e.nextTokens_record, Option.bind_some, Entry.row,
      if_neg hne]
    exact ih hes

theorem findRow_records (es : List (Entry kind)) (idStr : String) :
    findRow kind idStr (es.map Entry.record) =
      some ((lookup es idStr).map fun e => e.row e.lastModifiedDatetime.text) := by
  induction es with
  | nil => rfl
  | cons e es ih =>
    rw [List.map_cons, findRow, e.nextTokens_record, Option.bind_some, lookup, List.find?_cons]
    by_cases h : idStr = e.id.text
    · subst h
      simp [Entry.row]
    · have hne : ¬ e.id.text = idStr := fun he => h he.symm
      simp only [Entry.row, h, hne, if_false, decide_false]
      exact ih

theorem removeLoop_records (es : List (Entry kind)) (idStr : String) :
    ∃ removed, removeLoop kind idStr (es.map Entry.record) =
      some ((es.filter fun e => e.id.text ≠ idStr).map Entry.record, removed) := by
  induction es with
  | nil => exact ⟨false, rfl⟩
  | cons e es ih =>
    obtain ⟨removed, ih⟩ := ih
    rw [List.map_cons, removeLoop, e.nextTokens_record, ih]
    by_cases h : e.id.text = idStr
    · exact ⟨true, by simp [Entry.row, h]⟩
    · exact ⟨removed, by simp [Entry.row, h]⟩

theorem id_of_lookup {es : List (Entry kind)} {e : Entry kind} {idStr : String}
    (h : lookup es idStr = some e) : e.id.text = idStr := by
  simpa using List.find?_some h

theorem lookup_add {es : List (Entry kind)} {e : Entry kind} (h : lookup es e.id.text = none) :
    lookup (es ++ [e]) = Function.update (lookup es) e.id.text (some e) := by
  ext1 idStr
  by_cases hid : idStr = e.id.text
  · subst hid
    have hes : es.find? (fun e' => e'.id.text = e.id.text) = none := h
    simp [lookup, hes]
  · have hne : ¬ e.id.text = idStr := fun he => hid he.symm
    simp [lookup, Function.update_of_ne hid, hne]

theorem lookup_remove (es : List (Entry kind)) (idStr : String) :
    lookup (es.filter fun e => e.id.text ≠ idStr) = Function.update (lookup es) idStr none := by
  ext1 other
  by_cases hid : other = idStr
  · subst hid
    simp [lookup]
  · rw [Function.update_of_ne hid, lookup, lookup, List.find?_filter]
    congr 1
    ext e
    by_cases he : e.id.text = other
    · simp [he, hid]
    · simp [he]

/-! ## The file of a list of records -/

/-- The file has the records of `es`, each on a line, and ends as `tail` says. -/
def Represents (os : OS) : Tail → Option String → List (Entry kind) → Prop
  | .missing, file, es => file = none ∧ es = []
  | .inLine, file, es => ∃ before e, es = before ++ [e] ∧
      file = some (printLines "\n" (before.map Entry.record) ++ e.record)
  | .atLineStart, file, es => file = some (printLines os.lineSeparator (es.map Entry.record))

theorem records_isLine (es : List (Entry kind)) : ∀ line ∈ es.map Entry.record, IsLine line := by
  intro line hline
  obtain ⟨e, _, rfl⟩ := List.mem_map.mp hline
  exact e.record_isLine

/-- The lines of the file, without what is added next, are the records. -/
theorem readLines_represents {os : OS} {tail : Tail} {text : String} {es : List (Entry kind)}
    (h : Represents os tail (some text) es) : readLines text = es.map Entry.record := by
  cases tail with
  | missing => exact absurd h.1 (by simp)
  | inLine =>
    obtain ⟨before, e, rfl, htext⟩ := h
    obtain rfl := Option.some.inj htext
    rw [readLines_printLines (Or.inl rfl) (records_isLine before), readLines_last e.record_isLine
      e.record_ne, List.map_append]
    rfl
  | atLineStart =>
    obtain rfl := Option.some.inj h
    exact readLines_printed (lineSeparator_eq os) (records_isLine es)

/-- A file of records agrees with their map. -/
theorem agrees_of_represents {cr : Crypto} (codec : Codec cr) {os : OS} {tail : Tail}
    {file : Option String} {es : List (Entry kind)} (h : Represents os tail file es) :
    Agrees cr os file (lookup es) := by
  cases file with
  | none =>
    have hes : es = [] := by
      cases tail with
      | missing => exact h.2
      | inLine =>
        obtain ⟨_, _, _, hfile⟩ := h
        cases hfile
      | atLineStart => cases h
    subst hes
    refine ⟨fun idStr => ⟨none, ?_, by simp [lookup]⟩, fun idStr => ?_, fun idStr => ?_⟩
    · cases kind <;> rfl
    · cases kind <;>
        simp [get, franchiseAuthDBGetProcess, ManagerAuthDBGetProcess, getProcess, codec.decode, lookup]
    · cases kind <;> simp [remove, franchiseAuthDBRemoveRecordProcess,
        ManagerAuthDBRemoveRecordProcess, removeRecordProcess]
  | some text =>
    have hlines := readLines_represents h
    refine ⟨fun idStr => ?_, fun idStr => ?_, fun idStr => ?_⟩
    · refine ⟨some (if (lookup es idStr).isSome then "0x6010" else "0x6011"), ?_, ?_⟩
      · cases kind <;> simp [search, franchiseAuthDBSearchProcess, ManagerAuthDBSearchProcess,
          searchProcess, hlines, findRow_records]
      · cases (lookup es idStr).isSome <;> simp
    · have hget : getProcess cr kind (some text) (cr.toBase64String (utf8 idStr)) =
          some ((lookup es idStr).map fun e => e.row e.lastModifiedDatetime.text) := by
        rw [getProcess, codec.decode, Option.bind_some, codec.newString]
        simp only [hlines, findRow_records]
      cases kind with
      | franchise =>
        rw [get, franchiseAuthDBGetProcess, hget, Option.map_some, Option.map_map]
        congr 2
        ext1 e
        have hlevel := e.level_isSome
        cases hl : e.level <;> simp_all [Entry.stored, Entry.row]
      | manager =>
        rw [get, ManagerAuthDBGetProcess, hget, Option.map_some, Option.map_map]
        congr 2
        ext1 e
        have hlevel := e.level_isSome
        cases hl : e.level <;> simp_all [Entry.stored, Entry.row]
    · obtain ⟨removed, hloop⟩ := removeLoop_records es idStr
      cases kind <;> simp [remove, franchiseAuthDBRemoveRecordProcess,
        ManagerAuthDBRemoveRecordProcess, removeRecordProcess, hlines, hloop]

/-! ## One operation -/

theorem storage_record (os : OS) (file : Option String) (e : Entry kind) :
    storage kind os file e.record = fileStorageProcess os file e.record := by
  cases kind <;> rfl

theorem remove_id (os : OS) (file : Option String) (idStr : String) :
    remove kind os file idStr = removeRecordProcess os kind file idStr := by
  cases kind <;> rfl

theorem represents_add {os : OS} {tail : Tail} {file : Option String} {es : List (Entry kind)}
    (h : Represents os tail file es) {e : Entry kind} (hjoins : os.Joins tail) :
    Represents os .inLine (step os file (.add e)) (es ++ [e]) := by
  refine ⟨es, e, rfl, ?_⟩
  rw [step, storage_record]
  cases tail with
  | missing =>
    obtain ⟨rfl, rfl⟩ := h
    simp [fileStorageProcess, printLines]
  | inLine =>
    cases os with
    | windows =>
      obtain ⟨before, last, rfl, rfl⟩ := h
      simp [fileStorageProcess, OS.recordStart, printLines_append, printLines, String.append_assoc]
    | linux => exact absurd hjoins id
    | other => exact absurd hjoins id
  | atLineStart =>
    cases os with
    | windows => exact absurd hjoins id
    | linux => exact absurd hjoins id
    | other =>
      have hfile : file = some (printLines "\n" (es.map Entry.record)) := h
      simp [fileStorageProcess, OS.recordStart, hfile]

theorem represents_remove {os : OS} {tail : Tail} {file : Option String} {es : List (Entry kind)}
    (h : Represents os tail file es) (id : Field) :
    Represents os (tail.after (.remove id : Op kind)) (step os file (.remove id : Op kind))
      (es.filter fun e => e.id.text ≠ id.text) := by
  obtain ⟨removed, hloop⟩ := removeLoop_records es id.text
  rw [step, remove_id]
  cases tail with
  | missing =>
    obtain ⟨rfl, rfl⟩ := h
    exact ⟨rfl, rfl⟩
  | inLine =>
    cases file with
    | none =>
      obtain ⟨_, _, _, hfile⟩ := h
      cases hfile
    | some text =>
      simp only [removeRecordProcess, readLines_represents h, hloop]
      exact rfl
  | atLineStart =>
    cases file with
    | none => cases h
    | some text =>
      simp only [removeRecordProcess, readLines_represents h, hloop]
      exact rfl

/-- At a blank line behind the records of other ids the search throws. -/
theorem search_blank {es : List (Entry kind)} {idStr : String} (habsent : lookup es idStr = none)
    {text : String} {lines : List String} (hlines : readLines text = es.map Entry.record ++ "" :: lines) :
    search kind (some text) idStr = none := by
  have hblank : findRow kind idStr (es.map Entry.record ++ "" :: lines) = none := by
    rw [findRow_append habsent, findRow]
    cases kind <;> rfl
  cases kind <;> simp [search, franchiseAuthDBSearchProcess, ManagerAuthDBSearchProcess,
    searchProcess, hlines, hblank]

/-- A record that starts in the line of another one is read as a part of its date. -/
theorem nextTokens_runOn (last e : Entry kind) :
    ∃ date, nextTokens kind (last.record ++ e.record) = some (last.row date) := by
  obtain ⟨first, rest, hrecord⟩ : ∃ (first : Field) (rest : String), e.record = first.text ++ "$" ++ rest := by
    rw [e.record_eq, Entry.head]
    cases e.level with
    | none => exact ⟨_, _, rfl⟩
    | some level => exact ⟨_, _, rfl⟩
  have hjoin : last.record ++ e.record =
      joinFields last.head (last.lastModifiedDatetime.text ++ e.record) := by
    rw [last.record_eq]
    generalize last.head = fields
    induction fields with
    | nil => rfl
    | cons f fields ih =>
      show f.text ++ "$" ++ joinFields fields _ ++ e.record = f.text ++ "$" ++ joinFields fields _
      rw [String.append_assoc, ih]
  have hdate : '$' ∉ (last.lastModifiedDatetime.text ++ first.text).toList := by
    rw [String.toList_append]
    exact fun h => (List.mem_append.mp h).elim last.lastModifiedDatetime.separator first.separator
  have hne : last.lastModifiedDatetime.text ++ first.text ≠ "" := by
    intro h
    exact last.lastModifiedDatetime.ne (String.append_eq_empty_iff.mp h).1
  refine ⟨last.lastModifiedDatetime.text ++ first.text, ?_⟩
  rw [hjoin]
  refine @nextTokens_joinFields _ last _ _ (tokens '$' rest) ?_
  rw [hrecord, ← String.append_assoc, ← String.append_assoc, tokens_join, tokens_of_not_mem hdate,
    if_neg hne]
  rfl

/-- The lines that the code makes of an addition at an end of the file that does not fit. -/
theorem readLines_not_joined {os : OS} {tail : Tail} {file : Option String} {es : List (Entry kind)}
    (h : Represents os tail file es) (e : Entry kind) (hjoins : ¬ os.Joins tail) :
    ∃ text, step os file (.add e) = some text ∧
      ((∃ lines, readLines text = es.map Entry.record ++ "" :: lines) ∨
        ∃ before last, es = before ++ [last] ∧
          readLines text = before.map Entry.record ++ [last.record ++ e.record]) := by
  have hstart : e.record.toList.head? ≠ some '\n' :=
    fun hhead => e.record_isLine.1 (List.mem_of_mem_head? hhead)
  simp only [step, storage_record]
  cases tail with
  | missing => exact absurd (by cases os <;> trivial) hjoins
  | inLine =>
    obtain ⟨before, last, rfl, rfl⟩ := h
    refine ⟨_, rfl, ?_⟩
    have hbefore := readLines_printLines (Or.inl rfl) (records_isLine before)
    cases os with
    | windows => exact absurd trivial hjoins
    | linux =>
      refine Or.inl ⟨readLines e.record, ?_⟩
      show readLines (printLines "\n" (before.map Entry.record) ++ last.record ++ "\n\r" ++ e.record) = _
      rw [String.append_assoc, String.append_assoc, hbefore, ← String.append_assoc,
        readLines_newline_return last.record_isLine hstart]
      simp
    | other =>
      refine Or.inr ⟨before, last, rfl, ?_⟩
      show readLines (printLines "\n" (before.map Entry.record) ++ last.record ++ "" ++ e.record) = _
      rw [String.append_empty, String.append_assoc, hbefore, readLines_last
        (isLine_append last.record_isLine e.record_isLine)
        fun he => last.record_ne (String.append_eq_empty_iff.mp he).1]
  | atLineStart =>
    obtain rfl := h
    refine ⟨_, rfl, Or.inl ?_⟩
    have hes := readLines_printLines (lineSeparator_eq os) (records_isLine es)
    have hempty : IsLine "" := by decide
    cases os with
    | windows =>
      refine ⟨readLines e.record, ?_⟩
      show readLines (printLines "\r\n" (es.map Entry.record) ++ "\n" ++ e.record) = _
      rw [String.append_assoc]
      exact (hes _).trans (by rw [← readLines_newline hempty]; rfl)
    | linux =>
      refine ⟨"" :: readLines e.record, ?_⟩
      show readLines (printLines "\n" (es.map Entry.record) ++ "\n\r" ++ e.record) = _
      rw [String.append_assoc]
      exact (hes _).trans (by rw [← readLines_newline_return hempty hstart]; rfl)
    | other => exact absurd trivial hjoins

/-- After an addition at such an end the file does not agree with any map that has the record. -/
theorem not_agrees {os : OS} {tail : Tail} {file : Option String} {es : List (Entry kind)}
    (h : Represents os tail file es) {e : Entry kind} (habsent : lookup es e.id.text = none)
    (hjoins : ¬ os.Joins tail) (cr : Crypto) :
    ¬ Agrees cr os (step os file (.add e)) (mapStep (lookup es) (.add e)) := by
  intro hagrees
  obtain ⟨answer, hsearch, hfound⟩ := hagrees.search e.id.text
  obtain rfl := hfound.mpr (by simp [mapStep])
  obtain ⟨text, htext, hlines⟩ := readLines_not_joined h e hjoins
  rw [htext] at hsearch
  rcases hlines with ⟨lines, hlines⟩ | ⟨before, last, rfl, hlines⟩
  · rw [search_blank habsent hlines] at hsearch
    cases hsearch
  · obtain ⟨date, hdate⟩ := nextTokens_runOn last e
    obtain ⟨hbefore, hlast⟩ : lookup before e.id.text = none ∧ ¬ last.id.text = e.id.text := by
      simpa [lookup] using habsent
    have hrow : findRow kind e.id.text (readLines text) = some none := by
      rw [hlines, findRow_append hbefore, findRow, hdate, Option.bind_some, Entry.row,
        if_neg fun he => hlast he.symm]
      rfl
    cases kind <;> simp [search, franchiseAuthDBSearchProcess, ManagerAuthDBSearchProcess,
      searchProcess, hrow] at hsearch

/-! ## Runs -/

/-- There is a file once a record has been added, and from then on. -/
theorem isSome_run (os : OS) (file : Option String) (ops : List (Op kind)) :
    (run (step os) file ops).isSome = true ↔ file.isSome = true ∨ ∃ op ∈ ops, op.IsAdd := by
  induction ops generalizing file with
  | nil => simp
  | cons op ops ih =>
    rw [run_cons, ih]
    cases op with
    | add e =>
      have hfile : (step os file (.add e)).isSome = true := by
        rw [step, storage_record]
        cases file <;> rfl
      simp [hfile, Op.IsAdd]
    | remove id =>
      have hfile : (step os file (.remove id : Op kind)).isSome = file.isSome := by
        rw [step, remove_id]
        cases file with
        | none => rfl
        | some text =>
          cases hloop : removeLoop kind id.text (readLines text) with
          | none => simp [removeRecordProcess, hloop]
          | some kept => simp [removeRecordProcess, hloop]
      simp [hfile, Op.IsAdd]

theorem reported_iff (os : OS) (done : List (Op kind)) (e : Entry kind) :
    Reported os done e ↔ ∃ op ∈ done, op.IsAdd := by
  have hrun := isSome_run os none done
  rw [Reported, storage_record]
  cases hfile : run (step os) none done with
  | none => simpa [hfile, fileStorageProcess] using hrun
  | some text => simpa [hfile, fileStorageProcess] using hrun

/-- From a file of records: the file follows the map if and only if every addition fits the end. -/
theorem looksUp_iff {cr : Crypto} (codec : Codec cr) {os : OS} {tail : Tail} {file : Option String}
    {es : List (Entry kind)} (h : Represents os tail file es) {ops : List (Op kind)}
    (habsent : Along mapStep Op.Absent (lookup es) ops) :
    (∀ done, done <+: ops → Agrees cr os (run (step os) file done) (run mapStep (lookup es) done)) ↔
      Along Tail.after (Op.Joined os) tail ops := by
  induction ops generalizing file tail es with
  | nil =>
    refine ⟨fun _ => trivial, fun _ done hdone => ?_⟩
    rw [List.prefix_nil.mp hdone]
    exact agrees_of_represents codec h
  | cons op ops ih =>
    have hfirst : (∀ done, done <+: op :: ops →
        Agrees cr os (run (step os) file done) (run mapStep (lookup es) done)) ↔
        ∀ done, done <+: ops →
          Agrees cr os (run (step os) (step os file op) done) (run mapStep (mapStep (lookup es) op) done) := by
      constructor
      · exact fun hall done hdone => hall (op :: done) (List.cons_prefix_cons.mpr ⟨rfl, hdone⟩)
      · intro hall done hdone
        cases done with
        | nil => exact agrees_of_represents codec h
        | cons op' done =>
          obtain ⟨rfl, hrest⟩ := List.cons_prefix_cons.mp hdone
          exact hall done hrest
    rw [hfirst]
    obtain ⟨hop, hrest⟩ := habsent
    cases op with
    | add e =>
      have hid : lookup es e.id.text = none := by simpa [Op.Absent] using hop
      by_cases hjoins : os.Joins tail
      · have hmap : mapStep (lookup es) (.add e) = lookup (es ++ [e]) := (lookup_add hid).symm
        rw [hmap] at hrest ⊢
        rw [ih (represents_add h hjoins) hrest]
        exact ⟨fun hops => ⟨hjoins, hops⟩, fun hops => hops.2⟩
      · refine ⟨fun hall => ?_, fun hops => absurd hops.1 hjoins⟩
        exact absurd (hall [] (List.nil_prefix)) (not_agrees h hid hjoins cr)
    | remove id =>
      have hmap : mapStep (lookup es) (.remove id) = lookup (es.filter fun e => e.id.text ≠ id.text) :=
        (lookup_remove es id.text).symm
      rw [hmap] at hrest ⊢
      rw [ih (represents_remove h id) hrest]
      exact ⟨fun hops => ⟨trivial, hops⟩, fun hops => hops.2⟩

/-- The first addition comes after no other. -/
theorem exists_first_add {ops : List (Op kind)} (h : ∃ op ∈ ops, op.IsAdd) :
    ∃ done e, done ++ [.add e] <+: ops ∧ ¬ ∃ op ∈ done, op.IsAdd := by
  induction ops with
  | nil => simp at h
  | cons op ops ih =>
    cases op with
    | add e => exact ⟨[], e, by simp, by simp⟩
    | remove id =>
      obtain ⟨done, e, hdone, hfirst⟩ := ih (by simpa [Op.IsAdd] using h)
      exact ⟨.remove id :: done, e, by simpa using hdone, by simpa [Op.IsAdd] using hfirst⟩

theorem joined_of_no_add {os : OS} {ops : List (Op kind)} (h : ∀ op ∈ ops, ¬ op.IsAdd) (tail : Tail) :
    Along Tail.after (Op.Joined os) tail ops := by
  induction ops generalizing tail with
  | nil => trivial
  | cons op ops ih =>
    refine ⟨?_, ih (fun op hop => h op (List.mem_cons_of_mem _ hop)) _⟩
    cases op with
    | add e => exact absurd trivial (h _ List.mem_cons_self)
    | remove id => trivial

/-- **The file as a map.**  The first addition, and only the first, does not report success.  The
file follows the map if and only if every addition is made where its record gets a line. -/
theorem auth_db_map (cr : Crypto) (codec : Codec cr) (kind : Kind) (os : OS) (ops : List (Op kind))
    (h : AbsentAdds ops) :
    (BehavesAsMap cr os ops ↔ ∀ op ∈ ops, ¬ op.IsAdd) ∧
      (∀ done e, done ++ [.add e] <+: ops → (Reported os done e ↔ ∃ op ∈ done, op.IsAdd)) ∧
      (LooksUp cr os ops ↔ Separated os ops) := by
  have hstart : Represents os .missing none ([] : List (Entry kind)) := ⟨rfl, rfl⟩
  have hlooks : LooksUp cr os ops ↔ Separated os ops := looksUp_iff codec hstart h
  refine ⟨⟨fun hmap op hop hadd => ?_, fun hnone => ⟨fun done e hdone => ?_, ?_⟩⟩,
    fun done e _ => reported_iff os done e, hlooks⟩
  · obtain ⟨done, e, hdone, hfirst⟩ := exists_first_add ⟨op, hop, hadd⟩
    exact hfirst ((reported_iff os done e).mp (hmap.reported done e hdone))
  · exact absurd trivial (hnone (.add e) (hdone.subset (by simp)))
  · exact hlooks.mpr (joined_of_no_add hnone .missing)

/-! ## Two franchises -/

def ann : Field := ⟨"ann", by decide, by decide, by decide⟩
def bob : Field := ⟨"bob", by decide, by decide, by decide⟩

/-- A record with a short salt and a short digest. -/
def franchiseEntry (id : Field) : Entry .franchise where
  level := none
  id := id
  saltBase64 := ⟨"Ag==", by decide, by decide, by decide⟩
  cipheredPswBase64 := ⟨"Bw==", by decide, by decide, by decide⟩
  authFailCount := 0
  lastModifiedDatetime := ⟨"2019-06-19 10:00:00", by decide, by decide, by decide⟩
  level_isSome := rfl

/-- A provider whose digests are long enough and whose texts are those of Base64 and UTF-8. -/
def plainCrypto : Crypto where
  HashDigest x := x ++ List.replicate 16 0
  HmacDigest x k := k ++ x
  strongHmacDigest x k := k ++ x
  SymmetricEncryptData k x := k ++ x
  toBase64String := Java.Base64.encode
  decode := Java.Base64.decode
  newString := ofUtf8
  newStringUTF8 := ofUtf8
  length_HashDigest x := by
    rw [List.length_append, List.length_replicate]
    omega

theorem plainCrypto_codec : Codec plainCrypto where
  decode := Java.Base64.decode_encode
  base64 := Java.Base64.not_mem_encode (by decide)
  base64_ne := Java.Base64.encode_ne
  newString := ofUtf8_utf8
  newStringUTF8 := ofUtf8_utf8

/-- Two additions, with a removal between them or without. -/
def twoAdds (between : List (Op .franchise)) : List (Op .franchise) :=
  [.add (franchiseEntry ann)] ++ between ++ [.add (franchiseEntry bob)]

theorem auth_db_map_two :
    LooksUp plainCrypto .windows (twoAdds []) ∧ LooksUp plainCrypto .other (twoAdds [.remove ann]) :=
  ⟨(auth_db_map plainCrypto plainCrypto_codec .franchise .windows (twoAdds [])
      ⟨by decide, by decide, trivial⟩).2.2.mpr ⟨trivial, trivial, trivial⟩,
    (auth_db_map plainCrypto plainCrypto_codec .franchise .other (twoAdds [.remove ann])
      ⟨by decide, by decide, by decide, trivial⟩).2.2.mpr ⟨trivial, trivial, trivial, trivial⟩⟩

/-- **Not a map.**  The first addition reports a failure.  The second record is not found on Linux
(a search throws) and on other systems (it is answered as absent); nor is it found on Windows if a
removal has come before. -/
theorem auth_db_not_map :
    AbsentAdds (twoAdds []) ∧ AbsentAdds (twoAdds [.remove ann]) ∧
      ¬ BehavesAsMap plainCrypto .windows (twoAdds []) ∧
      ¬ BehavesAsMap plainCrypto .linux (twoAdds []) ∧
      ¬ BehavesAsMap plainCrypto .other (twoAdds []) ∧
      franchiseAuthDBSearchProcess (run (step .linux) none (twoAdds [])) "bob" = none ∧
      franchiseAuthDBSearchProcess (run (step .other) none (twoAdds [])) "bob" =
        some (some "0x6011") ∧
      franchiseAuthDBSearchProcess (run (step .windows) none (twoAdds [.remove ann])) "bob" = none := by
  have hfirst : ∀ os, ¬ BehavesAsMap plainCrypto os (twoAdds []) := by
    intro os hmap
    have hreported : "0x6021" = "0x6020" := hmap.reported [] (franchiseEntry ann) ⟨[_], rfl⟩
    exact absurd hreported (by decide)
  refine ⟨⟨by decide, by decide, trivial⟩, ⟨by decide, by decide, by decide, trivial⟩, hfirst _, hfirst _,
    hfirst _, ?_, ?_, ?_⟩
  · decide +kernel
  · decide +kernel
  · decide +kernel

end MoaCrypto.AuthDB
