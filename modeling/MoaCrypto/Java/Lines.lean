import MoaCrypto.Java.Tokenizer

/-!
# `java.io.BufferedReader.readLine`

A line ends at `\n`, at `\r`, at `\r\n` or at the end of the text; the end of the text right after
a line's end starts no further line.
-/

namespace Java

def lineChars : List Char → List (List Char)
  | [] => []
  | '\n' :: cs => [] :: lineChars cs
  | '\r' :: '\n' :: cs => [] :: lineChars cs
  | '\r' :: cs => [] :: lineChars cs
  | c :: cs => (c :: (lineChars cs).headD []) :: (lineChars cs).tail

/-- What `readLine` returns, call after call. -/
def readLines (text : String) : List String := (lineChars text.toList).map String.ofList

@[simp] theorem readLines_empty : readLines "" = [] := by simp [readLines, lineChars]

/-- A line as it can be read: without an end of line in it. -/
def IsLine (s : String) : Prop := '\n' ∉ s.toList ∧ '\r' ∉ s.toList

instance (s : String) : Decidable (IsLine s) := inferInstanceAs (Decidable (_ ∧ _))

theorem lineChars_cons {c : Char} (hn : c ≠ '\n') (hr : c ≠ '\r') (cs : List Char) :
    lineChars (c :: cs) = (c :: (lineChars cs).headD []) :: (lineChars cs).tail := by
  rw [lineChars]
  · exact hn
  · exact fun cs' h _ => hr h
  · exact hr

theorem lineChars_return {cs : List Char} (h : cs.head? ≠ some '\n') :
    lineChars ('\r' :: cs) = [] :: lineChars cs := by
  rw [lineChars]
  rintro cs' rfl
  exact h rfl

/-- A line and the rest of the text, which starts at an end of line. -/
theorem lineChars_append {line : List Char} (hn : '\n' ∉ line) (hr : '\r' ∉ line)
    {cs : List Char} {lines : List (List Char)} (hcs : lineChars cs = [] :: lines) :
    lineChars (line ++ cs) = line :: lines := by
  induction line with
  | nil => exact hcs
  | cons c line ih =>
    rw [List.cons_append, lineChars_cons (fun h => hn (by simp [h])) (fun h => hr (by simp [h])),
      ih (fun h => hn (List.mem_cons_of_mem _ h)) (fun h => hr (List.mem_cons_of_mem _ h))]
    rfl

theorem lineChars_last {line : List Char} (hn : '\n' ∉ line) (hr : '\r' ∉ line) (hne : line ≠ []) :
    lineChars line = [line] := by
  induction line with
  | nil => exact absurd rfl hne
  | cons c line ih =>
    rw [lineChars_cons (fun h => hn (by simp [h])) (fun h => hr (by simp [h]))]
    by_cases hline : line = []
    · subst hline
      rfl
    · rw [ih (fun h => hn (List.mem_cons_of_mem _ h)) (fun h => hr (List.mem_cons_of_mem _ h)) hline]
      rfl

theorem readLines_last {s : String} (hs : IsLine s) (hne : s ≠ "") : readLines s = [s] := by
  have hlist : s.toList ≠ [] := fun h => hne (String.toList_eq_nil_iff.mp h)
  rw [readLines, lineChars_last hs.1 hs.2 hlist, List.map_cons, List.map_nil, String.ofList_toList]

theorem readLines_newline {s : String} (hs : IsLine s) (rest : String) :
    readLines (s ++ "\n" ++ rest) = s :: readLines rest := by
  have hlist : (s ++ "\n" ++ rest).toList = s.toList ++ '\n' :: rest.toList := by
    simp [String.toList_append]
  rw [readLines, hlist, lineChars_append hs.1 hs.2 (by rw [lineChars]), List.map_cons,
    String.ofList_toList]
  rfl

theorem readLines_return_newline {s : String} (hs : IsLine s) (rest : String) :
    readLines (s ++ "\r\n" ++ rest) = s :: readLines rest := by
  have hlist : (s ++ "\r\n" ++ rest).toList = s.toList ++ '\r' :: '\n' :: rest.toList := by
    simp [String.toList_append]
  rw [readLines, hlist, lineChars_append hs.1 hs.2 (by rw [lineChars]), List.map_cons,
    String.ofList_toList]
  rfl

/-- `\n\r` ends two lines, unless a `\n` comes next. -/
theorem readLines_newline_return {s : String} (hs : IsLine s) {rest : String}
    (hrest : rest.toList.head? ≠ some '\n') :
    readLines (s ++ "\n\r" ++ rest) = s :: "" :: readLines rest := by
  have hlist : (s ++ "\n\r" ++ rest).toList = s.toList ++ '\n' :: '\r' :: rest.toList := by
    simp [String.toList_append]
  rw [readLines, hlist, lineChars_append hs.1 hs.2 (by rw [lineChars]), lineChars_return hrest, List.map_cons,
    List.map_cons, String.ofList_toList]
  rfl

/-- No end of line is left in a line. -/
theorem not_mem_lineChars (cs : List Char) : ∀ line ∈ lineChars cs, '\n' ∉ line ∧ '\r' ∉ line := by
  fun_induction lineChars cs with
  | case1 => nofun
  | case2 cs ih => exact List.forall_mem_cons.mpr ⟨⟨List.not_mem_nil, List.not_mem_nil⟩, ih⟩
  | case3 cs ih => exact List.forall_mem_cons.mpr ⟨⟨List.not_mem_nil, List.not_mem_nil⟩, ih⟩
  | case4 cs _ ih => exact List.forall_mem_cons.mpr ⟨⟨List.not_mem_nil, List.not_mem_nil⟩, ih⟩
  | case5 c cs hn _ hr ih =>
    refine List.forall_mem_cons.mpr ⟨?_, fun line hline => ih line (List.mem_of_mem_tail hline)⟩
    have hhead : '\n' ∉ (lineChars cs).headD [] ∧ '\r' ∉ (lineChars cs).headD [] := by
      cases hlines : lineChars cs with
      | nil => exact ⟨List.not_mem_nil, List.not_mem_nil⟩
      | cons line lines =>
        rw [hlines] at ih
        exact ih line List.mem_cons_self
    exact ⟨fun h => (List.mem_cons.mp h).elim (fun h => hn h.symm) hhead.1,
      fun h => (List.mem_cons.mp h).elim (fun h => hr h.symm) hhead.2⟩

theorem isLine_of_mem_readLines {text line : String} (h : line ∈ readLines text) : IsLine line := by
  obtain ⟨chars, hchars, rfl⟩ := List.mem_map.mp h
  rw [IsLine, String.toList_ofList]
  exact not_mem_lineChars _ chars hchars

/-! ## Texts that are put together -/

theorem lineChars_ne_nil {cs : List Char} (h : cs ≠ []) : lineChars cs ≠ [] := by
  fun_cases lineChars cs with
  | case1 => exact absurd rfl h
  | case2 cs => exact List.cons_ne_nil _ _
  | case3 cs => exact List.cons_ne_nil _ _
  | case4 cs _ => exact List.cons_ne_nil _ _
  | case5 c cs _ _ _ => exact List.cons_ne_nil _ _

/-- What comes after a text starts a line of its own. -/
def StartsLine (cs ds : List Char) : Prop :=
  cs.getLast? = none ∨ cs.getLast? = some '\n' ∨ cs.getLast? = some '\r' ∧ ds.head? ≠ some '\n'

theorem StartsLine.of_cons {c : Char} {cs ds : List Char} (h : StartsLine (c :: cs) ds) :
    cs = [] ∨ StartsLine cs ds := by
  cases cs with
  | nil => exact Or.inl rfl
  | cons d cs =>
    refine Or.inr ?_
    unfold StartsLine at *
    rwa [List.getLast?_cons_cons] at h

theorem lineChars_startsLine {cs ds : List Char} (h : StartsLine cs ds) :
    lineChars (cs ++ ds) = lineChars cs ++ lineChars ds := by
  fun_induction lineChars cs with
  | case1 => rfl
  | case2 cs ih =>
    rw [List.cons_append, lineChars]
    rcases h.of_cons with rfl | h
    · rfl
    · rw [ih h, List.cons_append]
  | case3 cs ih =>
    rw [List.cons_append, List.cons_append, lineChars]
    have h' : StartsLine ('\n' :: cs) ds := h.of_cons.resolve_left (List.cons_ne_nil _ _)
    rcases h'.of_cons with rfl | h
    · rfl
    · rw [ih h, List.cons_append]
  | case4 cs hcs ih =>
    rw [List.cons_append, lineChars_return]
    · rcases h.of_cons with rfl | h
      · rfl
      · rw [ih h, List.cons_append]
    · cases cs with
      | nil =>
        rcases h with h | h | ⟨-, h⟩
        · cases h
        · cases h
        · exact h
      | cons c cs' =>
        rintro ⟨⟩
        exact hcs cs' rfl
  | case5 c cs hn hcs hr ih =>
    have hne : cs ≠ [] := by
      rintro rfl
      rcases h with h | h | ⟨h, -⟩
      · cases h
      · exact hn (Option.some.inj h)
      · exact hr (Option.some.inj h)
    rw [List.cons_append, lineChars_cons hn hr, ih (h.of_cons.resolve_left hne)]
    obtain ⟨line, lines, hlines⟩ := List.exists_cons_of_ne_nil (lineChars_ne_nil hne)
    rw [hlines]
    rfl

/-- Every text is lines with their ends and then a line without one, which may be empty. -/
theorem exists_last_line (cs : List Char) :
    ∃ before line, cs = before ++ line ∧ ('\n' ∉ line ∧ '\r' ∉ line) ∧
      (before.getLast? = none ∨ before.getLast? = some '\n' ∨ before.getLast? = some '\r') := by
  induction cs using List.reverseRecOn with
  | nil => exact ⟨[], [], rfl, ⟨List.not_mem_nil, List.not_mem_nil⟩, Or.inl rfl⟩
  | append_singleton cs c ih =>
    by_cases hc : c = '\n' ∨ c = '\r'
    · refine ⟨cs ++ [c], [], (List.append_nil _).symm, ⟨List.not_mem_nil, List.not_mem_nil⟩, Or.inr ?_⟩
      rw [List.getLast?_append, List.getLast?_singleton, Option.some_or, Option.some_inj, Option.some_inj]
      exact hc
    · obtain ⟨before, line, rfl, ⟨hn, hr⟩, hbefore⟩ := ih
      refine ⟨before, line ++ [c], List.append_assoc _ _ _, ⟨?_, ?_⟩, hbefore⟩
      · rw [List.mem_append, List.mem_singleton]
        exact fun h => h.elim hn fun h => hc (Or.inl h.symm)
      · rw [List.mem_append, List.mem_singleton]
        exact fun h => h.elim hr fun h => hc (Or.inr h.symm)

theorem StartsLine.of_head {before line : List Char}
    (h : before.getLast? = none ∨ before.getLast? = some '\n' ∨ before.getLast? = some '\r')
    (hline : line.head? ≠ some '\n') : StartsLine before line :=
  h.imp_right (Or.imp_right fun h => ⟨h, hline⟩)

theorem head?_append_ne {line cs : List Char} (hn : '\n' ∉ line) (hcs : cs.head? ≠ some '\n') :
    (line ++ cs).head? ≠ some '\n' := by
  cases line with
  | nil => exact hcs
  | cons c line =>
    rintro ⟨⟩
    exact hn List.mem_cons_self

/-- A text that ends in a line without an end. -/
theorem exists_open_line {cs : List Char} (hne : cs ≠ []) (hn : cs.getLast? ≠ some '\n')
    (hr : cs.getLast? ≠ some '\r') : ∃ before line, cs = before ++ line ∧ line ≠ [] ∧
      '\n' ∉ line ∧ '\r' ∉ line ∧ lineChars cs = lineChars before ++ [line] ∧
      ∀ ds, lineChars (cs ++ ds) = lineChars before ++ lineChars (line ++ ds) := by
  obtain ⟨before, line, rfl, ⟨hnl, hrl⟩, hbefore⟩ := exists_last_line cs
  have hline : line ≠ [] := by
    rintro rfl
    rw [List.append_nil] at hne hn hr
    rcases hbefore with h | h | h
    · exact hne (List.getLast?_eq_none_iff.mp h)
    · exact hn h
    · exact hr h
  have happend : ∀ ds, lineChars (before ++ line ++ ds) = lineChars before ++ lineChars (line ++ ds) := by
    intro ds
    rw [List.append_assoc]
    refine lineChars_startsLine (StartsLine.of_head hbefore ?_)
    obtain ⟨c, line', rfl⟩ := List.exists_cons_of_ne_nil hline
    rintro ⟨⟩
    exact hnl List.mem_cons_self
  refine ⟨before, line, rfl, hline, hnl, hrl, ?_, happend⟩
  have hnil := happend []
  rwa [List.append_nil, List.append_nil, lineChars_last hnl hrl hline] at hnil

/-- A `\n` ends the last line, or belongs to the `\r` that has ended it. -/
theorem lineChars_newline_end {cs : List Char} (hne : cs ≠ []) (hn : cs.getLast? ≠ some '\n')
    (ds : List Char) : lineChars (cs ++ '\n' :: ds) = lineChars cs ++ lineChars ds := by
  by_cases hr : cs.getLast? = some '\r'
  · obtain ⟨cs', rfl⟩ : ∃ cs', cs = cs' ++ ['\r'] := by
      obtain ⟨h, hlast⟩ := List.getLast?_eq_some_iff.mp hr
      exact ⟨h, hlast⟩
    obtain ⟨before, line, rfl, ⟨hnl, hrl⟩, hbefore⟩ := exists_last_line cs'
    have hstart : ∀ ds, StartsLine before (line ++ '\r' :: ds) := fun ds =>
      StartsLine.of_head hbefore (head?_append_ne hnl (by rintro ⟨⟩))
    have hreturn : lineChars ['\r'] = [[]] := lineChars_return (by rintro ⟨⟩)
    have hpair : lineChars ('\r' :: '\n' :: ds) = [] :: lineChars ds := by rw [lineChars]
    rw [List.append_assoc, List.append_assoc, List.append_assoc]
    show lineChars (before ++ (line ++ '\r' :: '\n' :: ds)) = lineChars (before ++ (line ++ ['\r'])) ++ _
    rw [lineChars_startsLine (hstart _), lineChars_startsLine (hstart _), lineChars_append hnl hrl hpair,
      lineChars_append hnl hrl hreturn, List.append_assoc]
    rfl
  · obtain ⟨before, line, -, -, hnl, hrl, hlines, happend⟩ := exists_open_line hne hn hr
    have hnewline : lineChars ('\n' :: ds) = [] :: lineChars ds := by rw [lineChars]
    rw [happend, lineChars_append hnl hrl hnewline, hlines, List.append_assoc]
    rfl

/-! ## Printing lines -/

/-- `println` for each of the lines, where `sep` is the line separator. -/
def printLines (sep : String) : List String → String
  | [] => ""
  | line :: lines => line ++ sep ++ printLines sep lines

theorem printLines_append (sep : String) (xs ys : List String) :
    printLines sep (xs ++ ys) = printLines sep xs ++ printLines sep ys := by
  induction xs with
  | nil => simp [printLines]
  | cons x xs ih => rw [List.cons_append, printLines, printLines, ih, String.append_assoc,
      String.append_assoc, String.append_assoc]

theorem readLines_line {sep s : String} (hsep : sep = "\n" ∨ sep = "\r\n") (hs : IsLine s)
    (rest : String) : readLines (s ++ sep ++ rest) = s :: readLines rest := by
  rcases hsep with rfl | rfl
  · exact readLines_newline hs rest
  · exact readLines_return_newline hs rest

/-- Printed lines are read back, followed by the lines of the rest. -/
theorem readLines_printLines {sep : String} (hsep : sep = "\n" ∨ sep = "\r\n") {lines : List String}
    (hlines : ∀ line ∈ lines, IsLine line) (rest : String) :
    readLines (printLines sep lines ++ rest) = lines ++ readLines rest := by
  induction lines with
  | nil => rw [printLines, String.empty_append, List.nil_append]
  | cons line lines ih =>
    rw [printLines, String.append_assoc, readLines_line hsep (hlines line List.mem_cons_self),
      ih fun l hl => hlines l (List.mem_cons_of_mem _ hl), List.cons_append]

theorem readLines_printed {sep : String} (hsep : sep = "\n" ∨ sep = "\r\n") {lines : List String}
    (hlines : ∀ line ∈ lines, IsLine line) : readLines (printLines sep lines) = lines := by
  have hread := readLines_printLines hsep hlines ""
  rwa [String.append_empty, readLines_empty, List.append_nil] at hread

/-! ## Texts that are cut -/

/-- The first `n` characters. -/
def cut (n : Nat) (s : String) : String := String.ofList (s.toList.take n)

theorem cut_append_of_le {n : Nat} {s t : String} (h : n ≤ s.length) : cut n (s ++ t) = cut n s := by
  rw [cut, cut, String.toList_append, List.take_append_of_le_length]
  rwa [String.length_toList]

theorem cut_append_add (n : Nat) (s t : String) : cut (s.length + n) (s ++ t) = s ++ cut n t := by
  rw [cut, cut, String.toList_append, ← String.length_toList, List.take_length_add_append,
    String.ofList_append, String.ofList_toList]

theorem length_cut (n : Nat) (s : String) : (cut n s).length = min n s.length := by
  rw [cut, String.length_ofList, List.length_take, String.length_toList]

theorem isLine_cut {s : String} (hs : IsLine s) (n : Nat) : IsLine (cut n s) := by
  rw [IsLine, cut, String.toList_ofList]
  exact ⟨fun h => hs.1 (List.mem_of_mem_take h), fun h => hs.2 (List.mem_of_mem_take h)⟩

/-- A line before a part of the separator. -/
theorem readLines_cut_separator {sep s : String} (hsep : sep = "\n" ∨ sep = "\r\n") (hs : IsLine s)
    (hne : s ≠ "") {n : Nat} (hn : n < sep.length) : readLines (s ++ cut n sep) = [s] := by
  have hlast : readLines (s ++ "") = [s] := by
    rw [String.append_empty]
    exact readLines_last hs hne
  rcases hsep with rfl | rfl
  · obtain rfl : n = 0 := Nat.lt_one_iff.mp hn
    exact hlast
  · obtain rfl | rfl : n = 0 ∨ n = 1 := Nat.le_one_iff_eq_zero_or_eq_one.mp (Nat.lt_succ_iff.mp hn)
    · exact hlast
    · have hreturn : lineChars ['\r'] = [[]] := by rw [lineChars, lineChars]; exact nofun
      have hlist : (s ++ cut 1 "\r\n").toList = s.toList ++ ['\r'] := String.toList_append
      rw [readLines, hlist, lineChars_append hs.1 hs.2 hreturn, List.map_cons, String.ofList_toList]
      rfl

/-- **Printed lines that are cut** are all read back exactly if no more than the last separator is
cut off. -/
theorem sublist_readLines_cut {sep : String} (hsep : sep = "\n" ∨ sep = "\r\n") {lines : List String}
    (hlines : ∀ line ∈ lines, IsLine line ∧ line ≠ "") (n : Nat) :
    lines.Sublist (readLines (cut n (printLines sep lines))) ↔
      (printLines sep lines).length ≤ n + sep.length := by
  induction lines generalizing n with
  | nil => exact iff_of_true (List.nil_sublist _) (Nat.zero_le _)
  | cons line lines ih =>
    obtain ⟨⟨hline, hne⟩, hrest⟩ := List.forall_mem_cons.mp hlines
    have hlength : (printLines sep (line :: lines)).length =
        line.length + sep.length + (printLines sep lines).length := by
      rw [printLines, String.length_append, String.length_append]
    rw [hlength]
    by_cases hshort : n < line.length
    · -- the line itself is cut
      have hcut : cut n (printLines sep (line :: lines)) = cut n line := by
        rw [printLines, String.append_assoc]
        exact cut_append_of_le hshort.le
      rw [hcut]
      refine iff_of_false ?_ (by omega)
      intro hsublist
      have hmem : line ∈ readLines (cut n line) := hsublist.subset List.mem_cons_self
      by_cases hempty : cut n line = ""
      · rw [hempty, readLines_empty] at hmem
        exact List.not_mem_nil hmem
      · rw [readLines_last (isLine_cut hline n) hempty, List.mem_singleton] at hmem
        have hlengths := congrArg String.length hmem
        rw [length_cut] at hlengths
        omega
    by_cases hlast : n < line.length + sep.length
    · -- the separator after the line is cut
      obtain ⟨m, rfl⟩ := Nat.exists_eq_add_of_le (Nat.le_of_not_lt hshort)
      have hcut : cut (line.length + m) (printLines sep (line :: lines)) = line ++ cut m sep := by
        rw [printLines, String.append_assoc, cut_append_add, cut_append_of_le (by omega)]
      rw [hcut, readLines_cut_separator hsep hline hne (by omega), List.cons_sublist_cons,
        List.sublist_nil]
      cases lines with
      | nil => exact iff_of_true rfl (by show _ + 0 ≤ _; omega)
      | cons line' lines' =>
        refine iff_of_false (List.cons_ne_nil _ _) ?_
        rw [printLines, String.length_append, String.length_append]
        omega
    · obtain ⟨m, rfl⟩ := Nat.exists_eq_add_of_le (Nat.le_of_not_lt hlast)
      have hcut : cut (line.length + sep.length + m) (printLines sep (line :: lines)) =
          line ++ sep ++ cut m (printLines sep lines) := by
        rw [printLines, ← String.length_append, cut_append_add]
      rw [hcut, readLines_line hsep hline, List.cons_sublist_cons, ih hrest]
      omega

end Java
