import MoaCrypto.CoreAuth.AuthMap

/-!
# Ids among the records

An id comes from the client and stands in a record as it is.  `id_unforged_iff` says for which ids,
salts, cipher texts and database files the storage of a record changes no answer for another id and
gives the id its own salt and cipher text.
-/

namespace MoaCrypto.AuthDB

open Java CoreAuth

/-- A text that takes up one field. -/
def IsField (s : String) : Prop := s ≠ "" ∧ '$' ∉ s.toList ∧ IsLine s

instance (s : String) : Decidable (IsField s) := inferInstanceAs (Decidable (_ ∧ _ ∧ _))

/-- The file after `franchiseAuthDBAddProcess` and the storage of its result. -/
def registered (os : OS) (file : Option String) (idStr saltBase64Str cipheredPswBase64Str : String)
    (authFailCount : Int) (LastModifiedDatetime : String) : Option String :=
  (franchiseAuthDBFileStorageProcess os file (franchiseAuthDBAddProcess idStr saltBase64Str
    cipheredPswBase64Str authFailCount LastModifiedDatetime)).1

/-- The answers for the other ids are as before, and the answer for the id is its own. -/
structure Unforged (cr : Crypto) (file after : Option String)
    (idStr saltBase64Str cipheredPswBase64Str : String) : Prop where
  search : ∀ other, other ≠ idStr →
    franchiseAuthDBSearchProcess after other = franchiseAuthDBSearchProcess file other
  get : ∀ other, other ≠ idStr →
    franchiseAuthDBGetProcess cr after (cr.toBase64String (utf8 other)) =
      franchiseAuthDBGetProcess cr file (cr.toBase64String (utf8 other))
  own : franchiseAuthDBGetProcess cr after (cr.toBase64String (utf8 idStr)) =
    some (some (saltBase64Str ++ "$" ++ cipheredPswBase64Str))

/-- Where a record comes to stand that is written after a text. -/
inductive Place
  | ownLine
  | afterBlank
  | runOn
  deriving DecidableEq

def OS.place (os : OS) (text : String) : Place :=
  match os, text.toList.getLast? with
  | .windows, none | .windows, some '\n' => .afterBlank
  | .windows, some _ => .ownLine
  | .linux, _ => .afterBlank
  | .other, none | .other, some '\n' | .other, some '\r' => .ownLine
  | .other, some _ => .runOn

/-- The lookup in the lines of a file: salt and cipher text, nothing, or an exception. -/
def answer (lines : List String) (idStr : String) : Option (Option String) :=
  (findRow .franchise idStr lines).map fun row => row.map fun row =>
    row.saltBase64 ++ "$" ++ row.cipheredPswBase64

/-- A line that stops the loops with an exception. -/
def Malformed (line : String) : Prop := nextTokens .franchise line = none

instance (line : String) : Decidable (Malformed line) := inferInstanceAs (Decidable (_ = _))

/-- What a record in this place does to the lines before it, no answer tells. -/
def Harmless (lines : List String) : Place → Prop
  | .ownLine => True
  -- no search gets as far as the blank line
  | .afterBlank => ∃ line ∈ lines, Malformed line
  -- no search gets as far as the last line, or it has all its fields already
  | .runOn => (∃ line ∈ lines.dropLast, Malformed line) ∨ ∀ line ∈ lines, ¬ Malformed line

/-! ## Answers -/

theorem answer_cons (line : String) (lines : List String) (idStr : String) :
    answer (line :: lines) idStr = (nextTokens .franchise line).bind fun row =>
      if idStr = row.id then some (some (row.saltBase64 ++ "$" ++ row.cipheredPswBase64))
      else answer lines idStr := by
  rw [answer, findRow, Option.map_bind]
  congr 1
  funext row
  rw [Function.comp_apply, apply_ite (Option.map _)]
  rfl

theorem answer_append (xs ys : List String) (idStr : String) :
    answer (xs ++ ys) idStr = if answer xs idStr = some none then answer ys idStr else answer xs idStr := by
  induction xs with
  | nil => exact (if_pos rfl).symm
  | cons line xs ih =>
    rw [List.cons_append, answer_cons, answer_cons]
    cases nextTokens .franchise line with
    | none => rfl
    | some row =>
      rw [Option.bind_some, Option.bind_some]
      by_cases hid : idStr = row.id
      · rw [if_pos hid, if_pos hid, if_neg (by nofun)]
      · rw [if_neg hid, if_neg hid, ih]

theorem answer_append_of_ne {xs : List String} {idStr : String} (h : answer xs idStr ≠ some none)
    (ys : List String) : answer (xs ++ ys) idStr = answer xs idStr := by
  rw [answer_append, if_neg h]

/-- A line that cannot be taken apart stops every search that gets there. -/
theorem answer_ne_of_malformed {lines : List String} (h : ∃ line ∈ lines, Malformed line)
    (idStr : String) : answer lines idStr ≠ some none := by
  obtain ⟨line, hline, hmalformed⟩ := h
  obtain ⟨before, rest, rfl⟩ := List.append_of_mem hline
  rw [answer_append]
  split
  · rw [answer_cons, hmalformed]
    nofun
  · assumption

theorem nextTokens_eq_some {line : String} {row : Row} :
    nextTokens .franchise line = some row ↔ ∃ id salt ciphered count date rest,
      tokens '$' line = id :: salt :: ciphered :: count :: date :: rest ∧
        row = ⟨none, id, salt, ciphered, count, date⟩ := by
  constructor
  · intro h
    unfold nextTokens at h
    split at h
    · next htokens => exact ⟨_, _, _, _, _, _, htokens, (Option.some.inj h).symm⟩
    · next hkind htokens => cases hkind
    · cases h
  · rintro ⟨id, salt, ciphered, count, date, rest, htokens, rfl⟩
    unfold nextTokens
    rw [htokens]

theorem malformed_iff {line : String} : Malformed line ↔ (tokens '$' line).length < 5 := by
  rw [Malformed, ← not_iff_not, ← ne_eq, Option.ne_none_iff_exists', not_lt]
  constructor
  · rintro ⟨row, hrow⟩
    obtain ⟨id, salt, ciphered, count, date, rest, htokens, -⟩ := nextTokens_eq_some.mp hrow
    rw [htokens]
    exact Nat.le_add_left 5 rest.length
  · intro h
    match htokens : tokens '$' line with
    | id :: salt :: ciphered :: count :: date :: rest =>
      exact ⟨_, nextTokens_eq_some.mpr ⟨id, salt, ciphered, count, date, rest, htokens, rfl⟩⟩
    | [] | [_] | [_, _] | [_, _, _] | [_, _, _, _] =>
      rw [htokens] at h
      exact absurd h (by simp)

/-- The fields of a row are tokens of its line. -/
theorem row_mem_tokens {line : String} {row : Row} (h : nextTokens .franchise line = some row) :
    row.id ∈ tokens '$' line ∧ row.saltBase64 ∈ tokens '$' line ∧
      row.cipheredPswBase64 ∈ tokens '$' line := by
  obtain ⟨id, salt, ciphered, count, date, rest, htokens, rfl⟩ := nextTokens_eq_some.mp h
  rw [htokens]
  simp only [List.mem_cons, true_or, or_true, and_self]

/-- No record is found under a separator. -/
theorem answer_separator {lines : List String} (h : ∀ line ∈ lines, ¬ Malformed line) :
    answer lines "$" = some none := by
  induction lines with
  | nil => rfl
  | cons line lines ih =>
    obtain ⟨hline, hlines⟩ := List.forall_mem_cons.mp h
    obtain ⟨row, hrow⟩ := Option.ne_none_iff_exists'.mp hline
    have hid : "$" ≠ row.id := by
      intro hid
      exact (token_of_mem (row_mem_tokens hrow).1).1 (hid ▸ List.mem_singleton_self '$')
    rw [answer_cons, hrow, Option.bind_some, if_neg hid, ih hlines]

/-- What is found stands in a line, in fields. -/
theorem answer_some {lines : List String} (hlines : ∀ line ∈ lines, IsLine line) {idStr stored : String}
    (h : answer lines idStr = some (some stored)) : IsField idStr ∧
      ∃ salt ciphered, IsField salt ∧ IsField ciphered ∧ stored = salt ++ "$" ++ ciphered := by
  induction lines with
  | nil => cases h
  | cons line lines ih =>
    obtain ⟨hline, hrest⟩ := List.forall_mem_cons.mp hlines
    rw [answer_cons] at h
    obtain ⟨row, hrow, h⟩ := Option.bind_eq_some_iff.mp h
    have hfield : ∀ t ∈ tokens '$' line, IsField t := by
      intro t ht
      obtain ⟨hseparator, hne⟩ := token_of_mem ht
      exact ⟨hne, hseparator, fun h => hline.1 (mem_of_mem_token ht h), fun h => hline.2 (mem_of_mem_token ht h)⟩
    obtain ⟨hid, hsalt, hciphered⟩ := row_mem_tokens hrow
    split at h
    · next heq =>
      rw [heq]
      exact ⟨hfield _ hid, _, _, hfield _ hsalt, hfield _ hciphered, (Option.some.inj (Option.some.inj h)).symm⟩
    · exact ih hrest h

/-- A text whose only part is a field is the field. -/
theorem eq_of_splitOn {x field : String} (h : x.toList.splitOn '$' = [field.toList]) : x = field := by
  have hx : ['$'].intercalate (x.toList.splitOn '$') = x.toList := List.intercalate_splitOn '$'
  rw [h] at hx
  exact String.toList_inj.mp (by rw [← hx]; simp)

/-- Two texts with a separator between them are the two fields that they look like. -/
theorem stored_inj {x y salt ciphered : String} (hsalt : IsField salt) (hciphered : IsField ciphered)
    (h : x ++ "$" ++ y = salt ++ "$" ++ ciphered) : x = salt ∧ y = ciphered := by
  have hsplit : (x ++ String.ofList ['$'] ++ y).toList.splitOn '$' =
      (salt ++ String.ofList ['$'] ++ ciphered).toList.splitOn '$' :=
    congrArg (fun s => s.toList.splitOn '$') h
  rw [toList_separated, toList_separated, List.splitOn_append_cons_self, List.splitOn_append_cons_self,
    List.splitOn_eq_singleton hsalt.2.1, List.splitOn_eq_singleton hciphered.2.1] at hsplit
  have hlength := congrArg List.length hsplit
  rw [List.length_append, List.length_append, List.length_singleton, List.length_singleton] at hlength
  have hx := List.length_pos_of_ne_nil (List.splitOn_ne_nil '$' x.toList)
  have hy := List.length_pos_of_ne_nil (List.splitOn_ne_nil '$' y.toList)
  obtain ⟨h1, h2⟩ := List.append_inj hsplit (by rw [List.length_singleton]; omega)
  exact ⟨eq_of_splitOn h1, eq_of_splitOn h2⟩

/-! ## The lines of the file -/

section Place

variable {text record : String}

theorem toList_written (os : OS) (text record : String) :
    (text ++ os.recordStart ++ record).toList = text.toList ++ (os.recordStart.toList ++ record.toList) := by
  rw [String.toList_append, String.toList_append, List.append_assoc]

theorem place_ownLine {os : OS} (hrecord : IsLine record) (hne : record ≠ "")
    (h : os.place text = .ownLine) :
    readLines (text ++ os.recordStart ++ record) = readLines text ++ [record] := by
  have hlast : lineChars record.toList = [record.toList] :=
    lineChars_last hrecord.1 hrecord.2 fun he => hne (String.toList_eq_nil_iff.mp he)
  have hlines : lineChars (text.toList ++ (os.recordStart.toList ++ record.toList)) =
      lineChars text.toList ++ [record.toList] := by
    rw [← hlast]
    unfold OS.place at h
    split at h
    · cases h
    · cases h
    · next c hnewline hc =>
      refine lineChars_newline_end ?_ ?_ _
      · intro hnil
        rw [hnil] at hc
        cases hc
      · intro hn
        rw [hc] at hn
        exact hnewline (Option.some.inj hn)
    · cases h
    · next hc => exact lineChars_startsLine (Or.inl hc)
    · next hc => exact lineChars_startsLine (Or.inr (Or.inl hc))
    · next hc =>
      have hhead : record.toList.head? ≠ some '\n' := fun h => hrecord.1 (List.mem_of_mem_head? h)
      exact lineChars_startsLine (Or.inr (Or.inr ⟨hc, hhead⟩))
    · cases h
  rw [readLines, readLines, toList_written, hlines, List.map_append, List.map_singleton, String.ofList_toList]

theorem place_afterBlank {os : OS} (hrecord : IsLine record) (h : os.place text = .afterBlank) :
    ∃ rest, readLines (text ++ os.recordStart ++ record) = readLines text ++ "" :: rest := by
  have hblank : ∃ rest, lineChars (text.toList ++ (os.recordStart.toList ++ record.toList)) =
      lineChars text.toList ++ [] :: rest := by
    have hstart : text.toList.getLast? = none ∨ text.toList.getLast? = some '\n' → ∀ cs,
        lineChars (text.toList ++ '\n' :: cs) = lineChars text.toList ++ [] :: lineChars cs := by
      intro hlast cs
      rw [lineChars_startsLine (hlast.imp_right Or.inl), lineChars]
    unfold OS.place at h
    split at h
    · next hc => exact ⟨_, hstart (Or.inl hc) _⟩
    · next hc => exact ⟨_, hstart (Or.inr hc) _⟩
    · cases h
    · by_cases hlast : text.toList.getLast? = none ∨ text.toList.getLast? = some '\n'
      · exact ⟨_, hstart hlast _⟩
      · obtain ⟨hnone, hnewline⟩ := not_or.mp hlast
        refine ⟨lineChars record.toList, ?_⟩
        rw [← lineChars_return fun h => hrecord.1 (List.mem_of_mem_head? h)]
        exact lineChars_newline_end (fun he => hnone (List.getLast?_eq_none_iff.mpr he)) hnewline _
    · cases h
    · cases h
    · cases h
    · cases h
  obtain ⟨rest, hrest⟩ := hblank
  refine ⟨rest.map String.ofList, ?_⟩
  rw [readLines, readLines, toList_written, hrest, List.map_append, List.map_cons]

theorem place_runOn {os : OS} (hrecord : IsLine record) (h : os.place text = .runOn) :
    ∃ before line, readLines text = before ++ [line] ∧
      readLines (text ++ os.recordStart ++ record) = before ++ [line ++ record] := by
  unfold OS.place at h
  split at h
  · cases h
  · cases h
  · cases h
  · cases h
  · cases h
  · cases h
  · cases h
  · next c hn hr hc =>
    have hlast : ∀ d, text.toList.getLast? = some d → c = d := fun d hd =>
      Option.some.inj (hc.symm.trans hd)
    obtain ⟨before, line, -, hline, hnl, hrl, hlines, happend⟩ :=
      @exists_open_line text.toList (by rintro he; rw [he] at hc; cases hc)
        (fun h => hn (hlast _ h)) (fun h => hr (hlast _ h))
    have hjoined : lineChars (line ++ record.toList) = [line ++ record.toList] := by
      refine lineChars_last ?_ ?_ (List.append_ne_nil_of_left_ne_nil hline _)
      · exact fun h => (List.mem_append.mp h).elim hnl hrecord.1
      · exact fun h => (List.mem_append.mp h).elim hrl hrecord.2
    refine ⟨(lineChars before).map String.ofList, String.ofList line, ?_, ?_⟩
    · rw [readLines, hlines, List.map_append, List.map_singleton]
    · rw [readLines, toList_written]
      show (lineChars (text.toList ++ record.toList)).map String.ofList = _
      rw [happend, hjoined, List.map_append, List.map_singleton, String.ofList_append, String.ofList_toList]

end Place

/-- A record right after a line makes a line with all fields; a line that has them keeps its own. -/
theorem row_runOn (line : String) {idStr rest : String} (hid : IsField idStr)
    (hrest : 4 ≤ (tokens '$' rest).length) :
    ¬ Malformed (line ++ (idStr ++ "$" ++ rest)) ∧ ∀ row, nextTokens .franchise line = some row →
      ∃ row', nextTokens .franchise (line ++ (idStr ++ "$" ++ rest)) = some row' ∧ row'.id = row.id ∧
        row'.saltBase64 = row.saltBase64 ∧ row'.cipheredPswBase64 = row.cipheredPswBase64 := by
  have htokens : tokens '$' (line ++ (idStr ++ "$" ++ rest)) = tokens '$' (line ++ idStr) ++ tokens '$' rest := by
    rw [← tokens_join, ← String.append_assoc, ← String.append_assoc]
  have hpart := tokens_append_part line hid.2.1 hid.1
  constructor
  · rw [malformed_iff, htokens, List.length_append]
    have hpos : 1 ≤ (tokens '$' (line ++ idStr)).length := by
      rcases hpart with h | ⟨init, last, -, h⟩
      · rw [h, List.length_append, List.length_singleton]
        exact Nat.le_add_left 1 _
      · rw [h, List.length_append, List.length_singleton]
        exact Nat.le_add_left 1 _
    omega
  · intro row hrow
    obtain ⟨id, salt, ciphered, count, date, more, hline, rfl⟩ := nextTokens_eq_some.mp hrow
    -- the first four tokens stay, and the fifth is there
    obtain ⟨date', more', hwritten⟩ : ∃ date' more', tokens '$' (line ++ idStr) =
        id :: salt :: ciphered :: count :: date' :: more' := by
      rcases hpart with h | ⟨init, last, hinit, h⟩
      · rw [hline] at h
        exact ⟨date, more ++ [idStr], h⟩
      · obtain rfl : (tokens '$' line).dropLast = init := by rw [hinit, List.dropLast_concat]
        rw [h, hline]
        cases more with
        | nil => exact ⟨_, [], rfl⟩
        | cons m more => exact ⟨date, (m :: more).dropLast ++ [_], rfl⟩
    rw [hwritten] at htokens
    exact ⟨_, nextTokens_eq_some.mpr ⟨_, _, _, _, _, _, htokens, rfl⟩, rfl, rfl, rfl⟩

/-! ## The answers for the record -/

section Record

variable {idStr salt ciphered : String} (hid : IsField idStr) (hsalt : IsField salt)
  (hciphered : IsField ciphered) (authFailCount : Int) (LastModifiedDatetime : Field)

theorem franchise_level : (none : Option Field).isSome = (Kind.franchise == Kind.manager) := rfl

/-- The record of fields. -/
def recordEntry : Entry .franchise where
  level := none
  id := ⟨idStr, hid.1, hid.2.1, hid.2.2⟩
  saltBase64 := ⟨salt, hsalt.1, hsalt.2.1, hsalt.2.2⟩
  cipheredPswBase64 := ⟨ciphered, hciphered.1, hciphered.2.1, hciphered.2.2⟩
  authFailCount := authFailCount
  lastModifiedDatetime := LastModifiedDatetime
  level_isSome := franchise_level

theorem record_answer (other : String) :
    answer [(recordEntry hid hsalt hciphered authFailCount LastModifiedDatetime).record] other =
      if other = idStr then some (some (salt ++ "$" ++ ciphered)) else some none := by
  rw [answer_cons, Entry.nextTokens_record]
  rfl

/-- The record from its id on. -/
theorem record_eq_id : (recordEntry hid hsalt hciphered authFailCount LastModifiedDatetime).record =
    idStr ++ "$" ++ joinFields (recordEntry hid hsalt hciphered authFailCount LastModifiedDatetime).head.tail
      LastModifiedDatetime.text :=
  Entry.record_eq _

theorem length_record_tail : 4 ≤ (tokens '$'
    (joinFields (recordEntry hid hsalt hciphered authFailCount LastModifiedDatetime).head.tail
      LastModifiedDatetime.text)).length := by
  rw [tokens_joinFields, Field.tokens]
  exact Nat.le_refl 4

end Record

/-- Answers for other ids stay, and the id gets its own. -/
def Answers (lines after : List String) (idStr salt ciphered : String) : Prop :=
  (∀ other, other ≠ idStr → answer after other = answer lines other) ∧
    answer after idStr = some (some (salt ++ "$" ++ ciphered))

section Answers

variable {lines : List String} {idStr salt ciphered record : String}

theorem answers_ownLine (hrecord : ∀ other, answer [record] other =
      if other = idStr then some (some (salt ++ "$" ++ ciphered)) else some none) :
    Answers lines (lines ++ [record]) idStr salt ciphered ↔
      answer lines idStr = some none ∨ answer lines idStr = some (some (salt ++ "$" ++ ciphered)) := by
  have hothers : ∀ other, other ≠ idStr → answer (lines ++ [record]) other = answer lines other := by
    intro other hother
    rw [answer_append, hrecord, if_neg hother]
    split
    · next h => exact h.symm
    · rfl
  rw [Answers, answer_append, hrecord, if_pos rfl]
  by_cases hnone : answer lines idStr = some none
  · rw [if_pos hnone]
    exact iff_of_true ⟨hothers, rfl⟩ (Or.inl hnone)
  · rw [if_neg hnone]
    exact ⟨fun h => Or.inr h.2, fun h => ⟨hothers, h.resolve_left hnone⟩⟩

theorem answers_afterBlank (hid : "$" ≠ idStr) (rest : List String) :
    Answers lines (lines ++ "" :: rest) idStr salt ciphered ↔
      answer lines idStr = some (some (salt ++ "$" ++ ciphered)) ∧ ∃ line ∈ lines, Malformed line := by
  have hblank : answer ("" :: rest) "$" = none := by
    rw [answer_cons]
    rfl
  constructor
  · rintro ⟨hothers, hown⟩
    have hmalformed : ∃ line ∈ lines, Malformed line := by
      by_contra hnot
      have hsearch := answer_separator fun line hline h => hnot ⟨line, hline, h⟩
      have hsame := hothers "$" hid
      rw [answer_append, if_pos hsearch, hblank, hsearch] at hsame
      cases hsame
    rw [answer_append_of_ne (answer_ne_of_malformed hmalformed idStr)] at hown
    exact ⟨hown, hmalformed⟩
  · rintro ⟨hown, hmalformed⟩
    have hsame : ∀ other, answer (lines ++ "" :: rest) other = answer lines other := fun other =>
      answer_append_of_ne (answer_ne_of_malformed hmalformed other) _
    exact ⟨fun other _ => hsame other, (hsame idStr).trans hown⟩

theorem answers_runOn {before : List String} {line : String} (hid : "$" ≠ idStr)
    (hrow : ¬ Malformed (line ++ record) ∧ ∀ row, nextTokens .franchise line = some row →
      ∃ row', nextTokens .franchise (line ++ record) = some row' ∧ row'.id = row.id ∧
        row'.saltBase64 = row.saltBase64 ∧ row'.cipheredPswBase64 = row.cipheredPswBase64) :
    Answers (before ++ [line]) (before ++ [line ++ record]) idStr salt ciphered ↔
      answer (before ++ [line]) idStr = some (some (salt ++ "$" ++ ciphered)) ∧
        ((∃ l ∈ before, Malformed l) ∨ ∀ l ∈ before ++ [line], ¬ Malformed l) := by
  have hiff : (∀ other, answer (before ++ [line ++ record]) other = answer (before ++ [line]) other) →
      (Answers (before ++ [line]) (before ++ [line ++ record]) idStr salt ciphered ↔
        answer (before ++ [line]) idStr = some (some (salt ++ "$" ++ ciphered))) := fun hsame =>
    ⟨fun h => (hsame idStr).symm.trans h.2, fun h => ⟨fun other _ => hsame other, (hsame idStr).trans h⟩⟩
  by_cases hmalformed : ∃ line ∈ before, Malformed line
  · -- no search gets to the last line
    refine (hiff ?_).trans (and_iff_left (Or.inl hmalformed)).symm
    intro other
    have hne := answer_ne_of_malformed hmalformed other
    rw [answer_append_of_ne hne, answer_append_of_ne hne]
  have hbefore : ∀ line ∈ before, ¬ Malformed line := fun line hline h => hmalformed ⟨line, hline, h⟩
  have hall : ∀ {l}, ¬ Malformed l → ∀ line ∈ before ++ [l], ¬ Malformed line := by
    intro l hl line hline
    rcases List.mem_append.mp hline with hline | hline
    · exact hbefore line hline
    · rwa [List.mem_singleton.mp hline]
  by_cases hline : Malformed line
  · -- a search that has thrown passes now
    refine iff_of_false ?_ ?_
    · rintro ⟨hothers, -⟩
      have hsame := hothers "$" hid
      rw [answer_separator (hall hrow.1), answer_append, if_pos (answer_separator hbefore), answer_cons,
        hline] at hsame
      cases hsame
    · rintro ⟨-, h | h⟩
      · exact hmalformed h
      · exact h line (List.mem_append_right _ (List.mem_singleton_self line)) hline
  · refine (hiff ?_).trans (and_iff_left (Or.inr (hall hline))).symm
    obtain ⟨row, hfields⟩ := Option.ne_none_iff_exists'.mp hline
    obtain ⟨row', hfields', hid', hsalt', hciphered'⟩ := hrow.2 row hfields
    intro other
    rw [answer_append, answer_append, answer_cons, answer_cons, hfields, hfields', Option.bind_some,
      Option.bind_some, hid', hsalt', hciphered']

end Answers

/-! ## Which ids forge nothing -/

theorem search_some (text idStr : String) :
    franchiseAuthDBSearchProcess (some text) idStr =
      (answer (readLines text) idStr).map fun stored => some (if stored.isSome then "0x6010" else "0x6011") := by
  rw [answer, Option.map_map]
  refine congrArg (fun f => (findRow .franchise idStr (readLines text)).map f) ?_
  funext row
  cases row with
  | none => rfl
  | some row => rfl

theorem get_some {cr : Crypto} (codec : Codec cr) (text idStr : String) :
    franchiseAuthDBGetProcess cr (some text) (cr.toBase64String (utf8 idStr)) =
      answer (readLines text) idStr := by
  rw [franchiseAuthDBGetProcess, getProcess, codec.decode, Option.bind_some, codec.newString]
  rfl

theorem unforged_some {cr : Crypto} (codec : Codec cr) {text after idStr salt ciphered : String} :
    Unforged cr (some text) (some after) idStr salt ciphered ↔
      Answers (readLines text) (readLines after) idStr salt ciphered := by
  constructor
  · intro h
    refine ⟨fun other hother => ?_, ?_⟩
    · have hget := h.get other hother
      rwa [get_some codec, get_some codec] at hget
    · have hown := h.own
      rwa [get_some codec] at hown
  · rintro ⟨hothers, hown⟩
    refine ⟨fun other hother => ?_, fun other hother => ?_, ?_⟩
    · rw [search_some, search_some, hothers other hother]
    · rw [get_some codec, get_some codec, hothers other hother]
    · rw [get_some codec, hown]

/-- What is stored is found under its id only if id, salt and cipher text are fields. -/
theorem Unforged.fields {cr : Crypto} (codec : Codec cr) {file : Option String}
    {after idStr salt ciphered : String} (h : Unforged cr file (some after) idStr salt ciphered) :
    IsField idStr ∧ IsField salt ∧ IsField ciphered := by
  have hown := h.own
  rw [get_some codec] at hown
  obtain ⟨hid, salt', ciphered', hsalt, hciphered, heq⟩ :=
    answer_some (fun line hline => isLine_of_mem_readLines hline) hown
  obtain ⟨rfl, rfl⟩ := stored_inj hsalt hciphered heq
  exact ⟨hid, hsalt, hciphered⟩

/-- The first record changes the answer of every search. -/
theorem not_unforged_none {cr : Crypto} (codec : Codec cr) {after idStr salt ciphered : String} :
    ¬ Unforged cr none (some after) idStr salt ciphered := by
  intro h
  have hid : "$" ≠ idStr := fun hid => (h.fields codec).1.2.1 (hid ▸ List.mem_singleton_self '$')
  have hsearch := h.search "$" hid
  rw [search_some] at hsearch
  cases hanswer : answer (readLines after) "$" with
  | none =>
    rw [hanswer] at hsearch
    cases hsearch
  | some stored =>
    rw [hanswer] at hsearch
    cases hsearch

/-- **An id forges and breaks no record** exactly if it, the salt and the cipher text are fields, there
is a database, and the id is not in it and the record comes on a line of its own, or the id has this
salt and cipher text already and the record does no harm. -/
theorem id_unforged_iff (cr : Crypto) (codec : Codec cr) (os : OS) (file : Option String)
    (idStr salt ciphered : String) (authFailCount : Int) (LastModifiedDatetime : Field) :
    Unforged cr file (registered os file idStr salt ciphered authFailCount LastModifiedDatetime.text)
        idStr salt ciphered ↔
      (IsField idStr ∧ IsField salt ∧ IsField ciphered) ∧ ∃ text, file = some text ∧
        (answer (readLines text) idStr = some none ∧ os.place text = .ownLine ∨
          answer (readLines text) idStr = some (some (salt ++ "$" ++ ciphered)) ∧
            Harmless (readLines text) (os.place text)) := by
  cases file with
  | none =>
    refine iff_of_false (not_unforged_none codec) ?_
    rintro ⟨-, text, htext, -⟩
    cases htext
  | some text =>
    by_cases hfields : IsField idStr ∧ IsField salt ∧ IsField ciphered
    · obtain ⟨hid, hsalt, hciphered⟩ := hfields
      have hseparator : "$" ≠ idStr := fun h => hid.2.1 (h ▸ List.mem_singleton_self '$')
      let e := recordEntry hid hsalt hciphered authFailCount LastModifiedDatetime
      have hafter : registered os (some text) idStr salt ciphered authFailCount LastModifiedDatetime.text =
          some (text ++ os.recordStart ++ e.record) := rfl
      have hiff : (∃ text', some text = some text' ∧
          (answer (readLines text') idStr = some none ∧ os.place text' = .ownLine ∨
            answer (readLines text') idStr = some (some (salt ++ "$" ++ ciphered)) ∧
              Harmless (readLines text') (os.place text'))) ↔
          (answer (readLines text) idStr = some none ∧ os.place text = .ownLine ∨
            answer (readLines text) idStr = some (some (salt ++ "$" ++ ciphered)) ∧
              Harmless (readLines text) (os.place text)) := by
        constructor
        · rintro ⟨_, ⟨⟩, h⟩
          exact h
        · exact fun h => ⟨text, rfl, h⟩
      rw [hafter, unforged_some codec, hiff, and_iff_right ⟨hid, hsalt, hciphered⟩]
      cases hplace : os.place text with
      | ownLine =>
        rw [place_ownLine e.record_isLine e.record_ne hplace, answers_ownLine (record_answer hid hsalt hciphered _ _)]
        exact or_congr (and_iff_left rfl).symm (and_iff_left trivial).symm
      | afterBlank =>
        obtain ⟨rest, hlines⟩ := place_afterBlank e.record_isLine hplace
        rw [hlines, answers_afterBlank hseparator]
        exact (or_iff_right fun h => by cases h.2).symm
      | runOn =>
        obtain ⟨before, line, hlines, hwritten⟩ := place_runOn e.record_isLine hplace
        have hrunOn := row_runOn line hid (length_record_tail hid hsalt hciphered authFailCount LastModifiedDatetime)
        rw [← record_eq_id] at hrunOn
        rw [hlines, hwritten, answers_runOn hseparator hrunOn]
        refine Iff.trans ?_ (or_iff_right fun h => by cases h.2).symm
        rw [Harmless, List.dropLast_concat]
    · exact iff_of_false (fun h => hfields (h.fields codec)) (fun h => hfields h.1)

/-- An id that is not in a database which ends in a record, on Windows. -/
theorem id_unforged_bob :
    Unforged plainCrypto (some "ann$c2FsdA$Y2lwaGVy$0$now")
      (registered .windows (some "ann$c2FsdA$Y2lwaGVy$0$now") "bob" "c2FsdA" "Y2lwaGVy" 0 "now")
      "bob" "c2FsdA" "Y2lwaGVy" :=
  (id_unforged_iff plainCrypto plainCrypto_codec .windows (some "ann$c2FsdA$Y2lwaGVy$0$now") "bob"
    "c2FsdA" "Y2lwaGVy" 0 ⟨"now", by decide, by decide, by decide⟩).mpr
    ⟨by decide, _, rfl, Or.inl (by decide)⟩

/-- An id with a line of its own in it makes a record for another id. -/
theorem id_forges_record :
    ¬ Unforged plainCrypto (some "ann$c2FsdA$Y2lwaGVy$0$now")
      (registered .windows (some "ann$c2FsdA$Y2lwaGVy$0$now") "x$x$x$0$now\nbob" "c2FsdA" "Y2lwaGVy" 0 "now")
      "x$x$x$0$now\nbob" "c2FsdA" "Y2lwaGVy" := by
  intro h
  exact absurd (h.search "bob" (by decide)) (by decide)

end MoaCrypto.AuthDB
