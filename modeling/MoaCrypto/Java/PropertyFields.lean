import MoaCrypto.Java.PropertyText
import Mathlib.Data.List.TakeWhile

/-!
# Fields that come back

Fields are written line by line, with values of any text: a value with a line end goes over several
lines, of which all but the first are read by themselves.  `firstValue` is what a value without
backslashes is read as, `Kept` says of which values that is the value itself.  Where the fields come
back with values that hold as much as was written, no other property has a key that counts
(`mem_values`), and no value has a backslash (`sum_value_le`).
-/

namespace Java.Properties

open scoped List

/-! ## Values over several lines -/

/-- The text before the first line end. -/
def firstLine (value : List Char) : List Char := value.takeWhile fun c => ¬ isLineEnd c

/-- The text from the first line end on. -/
def otherLines (value : List Char) : List Char := value.dropWhile fun c => ¬ isLineEnd c

theorem firstLine_append (value : List Char) : firstLine value ++ otherLines value = value :=
  List.takeWhile_append_dropWhile

theorem head_otherLines {value : List Char} {d : Char} (h : d ∈ (otherLines value).head?) :
    isLineEnd d = true := by
  have hd := List.head?_dropWhile_not (fun c => ¬ isLineEnd c) value
  rw [otherLines] at h
  rw [Option.mem_def] at h
  rw [h] at hd
  simpa using hd

theorem not_lineEnd_firstLine {value : List Char} {c : Char} (h : c ∈ firstLine value) :
    isLineEnd c = false := by simpa using List.mem_takeWhile_imp h

theorem plain_firstLine {value : List Char} (h : '\\' ∉ value) : Plain (firstLine value) := by
  intro c hc
  have hend := not_lineEnd_firstLine hc
  simp only [isLineEnd, Bool.or_eq_false_iff, decide_eq_false_iff_not] at hend
  refine ⟨?_, hend.1, hend.2⟩
  rintro rfl
  exact h (List.takeWhile_subset _ hc)

theorem logicalLines_lineEnd {d : Char} (hd : isLineEnd d = true) {buf : List Char} (hbuf : buf ≠ [])
    (rest : List Char) :
    logicalLines (.within buf) (d :: rest) = buf.reverse :: logicalLines .start rest := by
  simp only [isLineEnd, Bool.or_eq_true, decide_eq_true_eq] at hd
  have hstart : logicalLines .start [] = [] := rfl
  rw [logicalLines]
  by_cases hrest : rest = []
  · rcases hd with rfl | rfl <;> simp [LineReader.within, LineReader.line, hbuf, hrest, hstart]
  · rcases hd with rfl | rfl <;> simp [LineReader.within, LineReader.line, hbuf, hrest]

/-- The line is ended by the first of the line ends in front of what comes next. -/
theorem logicalLines_ended {buf : List Char} (hbuf : buf ≠ []) {body : List Char}
    (hhead : ∀ d ∈ body.head?, isLineEnd d = true) (hslash : '\\' ∉ body) (rest : List Char) :
    ∃ lines, logicalLines (.within buf) (body ++ '\n' :: rest) =
      buf.reverse :: (lines ++ logicalLines .start rest) := by
  cases body with
  | nil => exact ⟨[], logicalLines_lineEnd rfl hbuf rest⟩
  | cons d body =>
    have hbody : '\\' ∉ body := fun hmem => hslash (List.mem_cons_of_mem d hmem)
    obtain ⟨lines, hlines⟩ := logicalLines_next LineReader.natural_start hbody rest
    refine ⟨lines, ?_⟩
    rw [List.cons_append, logicalLines_lineEnd (hhead d rfl) hbuf, hlines]

section

variable {key value : List Char} (hkey : PlainKey key) (hvalue : '\\' ∉ value)

include hkey hvalue

theorem logicalLines_key (rest : List Char) : ∃ buf, buf ≠ [] ∧
    buf.reverse = entry (key, firstLine value) ∧
    logicalLines .start (entry (key, value) ++ rest) =
      logicalLines (.within buf) (otherLines value ++ rest) := by
  obtain ⟨c, cs, hentry, hc, hplain⟩ := hkey.starts_entry (plain_firstLine hvalue)
  have hsplit : entry (key, value) = c :: cs ++ otherLines value := by
    rw [← hentry, entry, entry, List.append_assoc, List.cons_append, firstLine_append]
  refine ⟨cs.reverse ++ [c], by simp, by simp [hentry], ?_⟩
  rw [hsplit, List.append_assoc, logicalLines_start hc hplain, logicalLines_within hplain.tail]

/-- Of a value the first line stays with its key. -/
theorem logicalLines_entry {sep : List Char} (hsep : sep = ['\n'] ∨ sep = ['\r', '\n']) (rest : List Char) :
    ∃ lines, logicalLines .start (entry (key, value) ++ sep ++ rest) =
      entry (key, firstLine value) :: (lines ++ logicalLines .start rest) := by
  obtain ⟨buf, hbuf, hline, hlines⟩ := logicalLines_key hkey hvalue (sep ++ rest)
  have hother : '\\' ∉ otherLines value := fun hmem => hvalue ((List.dropWhile_suffix _).subset hmem)
  rw [List.append_assoc, hlines, ← hline]
  rcases hsep with rfl | rfl
  · exact logicalLines_ended hbuf (fun d hd => head_otherLines hd) hother rest
  · have hbody : '\\' ∉ otherLines value ++ ['\r'] := by simp [hother]
    have hhead : ∀ d ∈ (otherLines value ++ ['\r']).head?, isLineEnd d = true := by
      intro d hd
      rw [List.head?_append] at hd
      cases hfirst : (otherLines value).head? with
      | none =>
        rw [hfirst] at hd
        cases hd
        rfl
      | some e =>
        rw [hfirst] at hd
        cases hd
        exact head_otherLines hfirst
    have hended := logicalLines_ended hbuf hhead hbody rest
    rwa [List.append_assoc] at hended

theorem logicalLines_lastEntry :
    ∃ lines, logicalLines .start (entry (key, value)) = entry (key, firstLine value) :: lines := by
  obtain ⟨buf, hbuf, hline, hlines⟩ := logicalLines_key hkey hvalue []
  rw [List.append_nil, List.append_nil] at hlines
  rw [hlines, ← hline]
  cases hother : otherLines value with
  | nil => exact ⟨[], by simp [logicalLines, LineReader.within, LineReader.line, hbuf]⟩
  | cons d body =>
    exact ⟨_, logicalLines_lineEnd (head_otherLines (by rw [hother]; rfl)) hbuf body⟩

end

theorem mem_logicalLines {sep : List Char} (hsep : sep = ['\n'] ∨ sep = ['\r', '\n'])
    {ps : List (List Char × List Char)} (hps : ∀ p ∈ ps, PlainKey p.1 ∧ '\\' ∉ p.2) :
    ∀ p ∈ ps, entry (p.1, firstLine p.2) ∈ logicalLines .start (joinLines sep (ps.map entry)) := by
  induction ps with
  | nil => exact fun p hp => nomatch hp
  | cons q ps ih =>
    obtain ⟨hkey, hvalue⟩ := hps q List.mem_cons_self
    have hrest := ih fun p hp => hps p (List.mem_cons_of_mem q hp)
    intro p hp
    cases ps with
    | nil =>
      obtain ⟨lines, hlines⟩ := logicalLines_lastEntry hkey hvalue
      rw [List.mem_singleton.mp hp]
      show _ ∈ logicalLines .start (entry (q.1, q.2))
      rw [hlines]
      exact List.mem_cons_self
    | cons q' ps =>
      obtain ⟨lines, hlines⟩ := logicalLines_entry hkey hvalue hsep (joinLines sep ((q' :: ps).map entry))
      show _ ∈ logicalLines .start (entry (q.1, q.2) ++ sep ++ joinLines sep ((q' :: ps).map entry))
      rw [hlines]
      rcases List.mem_cons.mp hp with rfl | hp
      · exact List.mem_cons_self
      · exact List.mem_cons_of_mem _ (List.mem_append_right _ (hrest p hp))

/-! ## Values that are kept -/

/-- The value as it is read, where the text has no backslash. -/
def firstValue (s : String) : String :=
  String.ofList (skipSeparator true (reread (firstLine s.toList)))

/-- ASCII characters, no backslash, and nothing but blanks and control characters from the first line
end on. -/
def Kept (value : List Char) : Prop :=
  Ascii value ∧ '\\' ∉ value ∧ ∀ c ∈ otherLines value, c ≤ ' '

instance (value : List Char) : Decidable (Kept value) :=
  have : Decidable (∀ c ∈ otherLines value, c ≤ ' ') := List.decidableBAll _ _
  inferInstanceAs (Decidable (_ ∧ _ ∧ _))

def isVisible (c : Char) : Bool := ' ' < c

theorem filter_blank {cs : List Char} (h : ∀ c ∈ cs, c ≤ ' ') : cs.filter isVisible = [] :=
  List.filter_eq_nil_iff.mpr fun c hc => by simpa [isVisible] using h c hc

theorem filter_trim (s : String) : (trim s).toList.filter isVisible = s.toList.filter isVisible := by
  obtain ⟨before, after, hsplit, hbefore, hafter⟩ := trim_split s
  rw [hsplit, List.filter_append, List.filter_append, filter_blank hbefore, filter_blank hafter,
    List.nil_append, List.append_nil]

theorem visible_of_wide {c : Char} (h : 128 ≤ c.toNat) : isVisible c = true := by
  refine decide_eq_true ?_
  show (32 : UInt32) < c.val
  rw [UInt32.lt_iff_toNat_lt]
  show 32 < c.toNat
  omega

theorem ascii_of_blank {c : Char} (h : c ≤ ' ') : c.toNat < 128 := by
  by_contra hwide
  have hvisible := visible_of_wide (c := c) (by omega)
  exact absurd h (Char.not_le.mpr (of_decide_eq_true hvisible))

theorem filter_reread (cs : List Char) :
    (reread cs).filter isVisible = reread (cs.filter isVisible) := by
  induction cs with
  | nil => rfl
  | cons c cs ih =>
    rw [reread_cons, List.filter_append, ih]
    by_cases hc : c.toNat < 128
    · rw [latin1_ascii hc]
      by_cases hvisible : isVisible c = true
      · rw [List.filter_cons_of_pos hvisible, List.filter_cons_of_pos hvisible, reread_cons, latin1_ascii hc]
        rfl
      · rw [List.filter_cons_of_neg hvisible, List.filter_cons_of_neg hvisible]
        rfl
    · have hwide := (latin1_wide (c := c) (by omega)).2
      rw [List.filter_cons_of_pos (visible_of_wide (by omega)), reread_cons,
        List.filter_eq_self.mpr fun d hd => visible_of_wide (hwide d hd)]

theorem skipSeparator_eq (cs : List Char) : skipSeparator true cs = cs.dropWhile isBlank := by
  induction cs with
  | nil => rfl
  | cons c cs ih =>
    rw [skipSeparator]
    by_cases hblank : isBlank c = true
    · rw [if_pos hblank, List.dropWhile_cons_of_pos hblank, ih]
    · rw [if_neg hblank, List.dropWhile_cons_of_neg hblank]
      simp

theorem blank_le {c : Char} (h : isBlank c = true) : c ≤ ' ' := by
  simp only [isBlank, Bool.or_eq_true, decide_eq_true_eq] at h
  rcases h with (rfl | rfl) | rfl <;> decide

theorem trim_firstValue (s : String) :
    trim (firstValue s) = trim (String.ofList (reread (firstLine s.toList))) := by
  have hblank : ∀ c ∈ (reread (firstLine s.toList)).takeWhile isBlank, c ≤ ' ' :=
    fun c hc => blank_le (List.mem_takeWhile_imp hc)
  rw [firstValue, skipSeparator_eq, ← trim_blank_append hblank, List.takeWhile_append_dropWhile]

theorem lineEnd_le {d : Char} (h : isLineEnd d = true) : d ≤ ' ' := by
  simp only [isLineEnd, Bool.or_eq_true, decide_eq_true_eq] at h
  rcases h with rfl | rfl <;> decide

/-- Behind the first line no text can make up for what reading adds to it: between the two there would
be a line end. -/
theorem otherLines_blank {value : List Char}
    (h : trim (String.ofList (reread (firstLine value))) = trim (String.ofList value)) :
    ∀ c ∈ otherLines value, c ≤ ' ' := by
  intro c hc
  by_contra hvisible
  rw [Char.not_le] at hvisible
  cases hother : otherLines value with
  | nil =>
    rw [hother] at hc
    cases hc
  | cons d rest =>
    have hend : isLineEnd d = true := head_otherLines (by rw [hother]; rfl)
    have hrest : c ∈ rest := by
      rw [hother] at hc
      refine (List.mem_cons.mp hc).resolve_left ?_
      rintro rfl
      exact absurd (lineEnd_le hend) (Char.not_le.mpr hvisible)
    have hvalue : value = firstLine value ++ d :: rest := by rw [← hother, firstLine_append]
    by_cases hfirst : ∃ a ∈ firstLine value, ' ' < a
    · have hd : d ∈ (trim (String.ofList value)).toList := by
        have hmem := mem_trim hfirst ⟨c, hrest, hvisible⟩ d
        rwa [← hvalue] at hmem
      rw [← h] at hd
      obtain ⟨before, after, hsplit, -, -⟩ := trim_split (String.ofList (reread (firstLine value)))
      have hread : d ∈ reread (firstLine value) := by
        rw [String.toList_ofList] at hsplit
        rw [hsplit]
        exact List.mem_append_left _ (List.mem_append_right _ hd)
      rcases mem_reread hread with hline | hwide
      · rw [not_lineEnd_firstLine hline] at hend
        cases hend
      · have := ascii_of_blank (lineEnd_le hend)
        omega
    · have hfirstBlank : (firstLine value).filter isVisible = [] :=
        filter_blank fun a ha => Char.not_lt.mp fun hlt => hfirst ⟨a, ha, hlt⟩
      have hfilter := congrArg (fun t : String => t.toList.filter isVisible) h
      simp only [filter_trim, String.toList_ofList, filter_reread, hfirstBlank, reread_nil] at hfilter
      have hvalueMem : c ∈ value := by
        rw [hvalue]
        exact List.mem_append_right _ (List.mem_cons_of_mem d hrest)
      have hmem : c ∈ value.filter isVisible := List.mem_filter.mpr ⟨hvalueMem, decide_eq_true hvisible⟩
      rw [← hfilter] at hmem
      cases hmem

/-- A value that is read as it was: its text is on the first line, and of ASCII characters. -/
theorem trim_firstValue_iff (s : String) :
    trim (firstValue s) = trim s ↔ Ascii s.toList ∧ ∀ c ∈ otherLines s.toList, c ≤ ' ' := by
  have hs : String.ofList (firstLine s.toList ++ otherLines s.toList) = s := by
    rw [firstLine_append, String.ofList_toList]
  rw [trim_firstValue]
  constructor
  · intro h
    have hother : ∀ c ∈ otherLines s.toList, c ≤ ' ' :=
      otherLines_blank (by rw [h, String.ofList_toList])
    refine ⟨fun c hc => ?_, hother⟩
    have hline : trim s = trim (String.ofList (firstLine s.toList)) := by
      rw [← trim_append_blank (firstLine s.toList) hother, hs]
    rw [hline] at h
    have hfilter := congrArg (fun t : String => t.toList.filter isVisible) h
    simp only [filter_trim, String.toList_ofList, filter_reread] at hfilter
    by_cases hvisible : isVisible c = true
    · rw [← firstLine_append s.toList] at hc
      rcases List.mem_append.mp hc with hc | hc
      · exact reread_eq_self.mp hfilter c (List.mem_filter.mpr ⟨hc, hvisible⟩)
      · exact ascii_of_blank (hother c hc)
    · exact ascii_of_blank (by simpa [isVisible] using hvisible)
  · rintro ⟨hascii, hother⟩
    have hfirst : Ascii (firstLine s.toList) := fun c hc => hascii c (List.takeWhile_subset _ hc)
    rw [reread_ascii hfirst, ← trim_append_blank _ hother, hs]

theorem kept_iff (s : String) :
    Kept s.toList ↔ '\\' ∉ s.toList ∧ trim (firstValue s) = trim s := by
  rw [trim_firstValue_iff, Kept, and_left_comm]

example : Kept " R \t\n".toList ∧ ¬ Kept "R\nWallet.Addr=".toList := by decide

theorem sum_trim_le (f : Char → ℕ) (s : String) : ((trim s).toList.map f).sum ≤ (s.toList.map f).sum := by
  obtain ⟨before, after, hsplit, -, -⟩ := trim_split s
  rw [hsplit, List.map_append, List.map_append, List.sum_append, List.sum_append]
  omega

theorem written_of_blank {c : Char} (h : c ≤ ' ') : written c = 0 := by
  have hne : ∀ d, ' ' < d → c ≠ d := by
    rintro d hd rfl
    exact absurd h (Char.not_le.mpr hd)
  exact written_eq_zero (hne '\\' (by decide)) (hne '.' (by decide)) (hne 'u' (by decide))

theorem sum_written_trim (s : String) : ((trim s).toList.map written).sum = (s.toList.map written).sum := by
  have hzero : ∀ {cs : List Char}, (∀ c ∈ cs, c ≤ ' ') → (cs.map written).sum = 0 := fun {cs} h =>
    List.sum_eq_zero_iff_forall_eq_nat.mpr fun n hn => by
      obtain ⟨c, hc, rfl⟩ := List.mem_map.mp hn
      exact written_of_blank (h c hc)
  obtain ⟨before, after, hsplit, hbefore, hafter⟩ := trim_split s
  rw [hsplit, List.map_append, List.map_append, List.sum_append, List.sum_append, hzero hbefore,
    hzero hafter, Nat.zero_add, Nat.add_zero]

/-- A value that is the same but for blanks holds as much as was written. -/
theorem written_le_of_trim {v s : String} (h : trim v = trim s) :
    (s.toList.map written).sum ≤ (v.toList.map held).sum := by
  have hle : (v.toList.map written).sum ≤ (v.toList.map held).sum :=
    List.sum_le_sum fun c _ => written_le_held c
  rw [← sum_written_trim s, ← h, sum_written_trim]
  exact hle

/-- A value that holds no more than was written, and is the same but for blanks, has no backslash. -/
theorem not_mem_of_trim {v s : String} (h : trim v = trim s)
    (hle : (v.toList.map held).sum ≤ (s.toList.map written).sum) : '\\' ∉ s.toList := by
  intro hmem
  have htrim := sum_trim_le held v
  rw [h] at htrim
  rw [← sum_written_trim] at hle
  have hplain : Plain (trim s).toList := plain_iff_sum_le.mp (htrim.trans hle)
  have hvisible : '\\' ∈ (trim s).toList.filter isVisible := by
    rw [filter_trim]
    exact List.mem_filter.mpr ⟨hmem, by decide⟩
  exact hplain.not_mem (List.mem_of_mem_filter hvisible)

theorem otherLines_plain {value : List Char} (h : Plain value) : otherLines value = [] :=
  List.dropWhile_eq_nil_iff.mpr fun c hc => by simp [isLineEnd, (h c hc).2]

/-! ## Fields -/

/-- The text of the fields, line by line, as it is read. -/
def fieldText (sep : List Char) (fields : List (String × String)) : List Char :=
  joinLines sep ((fields.map fun q => (q.1.toList, reread q.2.toList)).map entry)

/-- Fields with plain keys that differ and count. -/
structure Fields (fields : List (String × String)) : Prop where
  nodup : (fields.map Prod.fst).Nodup
  key : ∀ q ∈ fields, PlainKey q.1.toList
  counts : ∀ q ∈ fields, (q.1.toList.map held).sum ≠ 0

theorem sum_map_reread (cs : List Char) : ((reread cs).map written).sum = (cs.map written).sum := by
  have hwide : ∀ d : Char, 128 ≤ d.toNat → written d = 0 := by
    intro d hd
    have hne : ∀ e : Char, e.toNat < 128 → d ≠ e := by
      rintro e he rfl
      omega
    exact written_eq_zero (hne '\\' (by decide)) (hne '.' (by decide)) (hne 'u' (by decide))
  induction cs with
  | nil => rfl
  | cons c cs ih =>
    rw [reread_cons, List.map_append, List.sum_append, ih, List.map_cons, List.sum_cons]
    by_cases hc : c.toNat < 128
    · rw [latin1_ascii hc, List.map_singleton, List.sum_singleton]
    · have hall := (latin1_wide (c := c) (by omega)).2
      rw [hwide c (by omega), List.sum_eq_zero_iff_forall_eq_nat.mpr fun n hn => by
        obtain ⟨d, hd, rfl⟩ := List.mem_map.mp hn
        exact hwide d (hall d hd)]

theorem sum_joinLines {sep : List Char} (hsep : sep = ['\n'] ∨ sep = ['\r', '\n']) (lines : List (List Char)) :
    ((joinLines sep lines).map written).sum = (lines.flatten.map written).sum := by
  have hzero : (sep.map written).sum = 0 := by rcases hsep with rfl | rfl <;> rfl
  induction lines with
  | nil => rfl
  | cons line lines ih =>
    cases lines with
    | nil => rw [joinLines, List.flatten_singleton]
    | cons next lines =>
      have hjoin : joinLines sep (line :: next :: lines) = line ++ sep ++ joinLines sep (next :: lines) := rfl
      rw [hjoin, List.map_append, List.map_append, List.sum_append, List.sum_append, ih, hzero,
        Nat.add_zero, ← List.sum_append, ← List.map_append]
      rfl

/-- What the text of a field counts. -/
def fieldWritten (q : String × String) : ℕ := (q.1.toList.map held).sum + (q.2.toList.map written).sum

theorem sum_fieldText {sep : List Char} (hsep : sep = ['\n'] ∨ sep = ['\r', '\n'])
    {fields : List (String × String)} (hfields : Fields fields) :
    ((fieldText sep fields).map written).sum = (fields.map fieldWritten).sum := by
  rw [fieldText, sum_joinLines hsep]
  have hkey := hfields.key
  clear hfields
  induction fields with
  | nil => rfl
  | cons q fields ih =>
    have hrest := ih fun q' hq' => hkey q' (List.mem_cons_of_mem q hq')
    have heq : written '=' = 0 := rfl
    have hplain := plain_iff_sum_le.mpr (hkey q List.mem_cons_self).plain
    have hle : ((q.1.toList.map written).sum) ≤ (q.1.toList.map held).sum :=
      List.sum_le_sum fun c _ => written_le_held c
    simp only [List.map_cons, List.flatten_cons, List.map_append, List.sum_append, List.sum_cons, entry,
      sum_map_reread, fieldWritten] at hrest ⊢
    omega

theorem mem_joinLines {sep : List Char} {lines : List (List Char)} {c : Char} (h : c ∈ joinLines sep lines) :
    c ∈ sep ∨ ∃ line ∈ lines, c ∈ line := by
  induction lines with
  | nil => cases h
  | cons line lines ih =>
    cases lines with
    | nil => exact Or.inr ⟨line, List.mem_cons_self, h⟩
    | cons next lines =>
      have h : c ∈ line ++ sep ++ joinLines sep (next :: lines) := h
      rcases List.mem_append.mp h with h | h
      · rcases List.mem_append.mp h with h | h
        · exact Or.inr ⟨line, List.mem_cons_self, h⟩
        · exact Or.inl h
      · exact (ih h).imp_right fun ⟨l, hl, hc⟩ => ⟨l, List.mem_cons_of_mem line hl, hc⟩

theorem not_mem_reread {cs : List Char} (h : '\\' ∉ cs) : '\\' ∉ reread cs := fun hmem =>
  (mem_reread hmem).elim h (by decide)

theorem property_of_not_mem {line : List Char} (h : '\\' ∉ line) : ∃ p, property line = some p := by
  have hsub := (splitKey_sublist false line).subset
  have hkey : '\\' ∉ (splitKey false line).1 := fun hmem => h (hsub (List.mem_append_left _ hmem))
  have hvalue : '\\' ∉ skipSeparator (splitKey false line).2.1 (splitKey false line).2.2 :=
    fun hmem => h (hsub (List.mem_append_right _ ((skipSeparator_suffix _ _).subset hmem)))
  refine ⟨(String.ofList (splitKey false line).1,
    String.ofList (skipSeparator (splitKey false line).2.1 (splitKey false line).2.2)), ?_⟩
  rw [property]
  simp only [loadConvert_of_not_mem hkey, loadConvert_of_not_mem hvalue, Option.bind_some, Option.map_some]

theorem mapM_of_not_mem {lines : List (List Char)} (h : ∀ line ∈ lines, '\\' ∉ line) :
    ∃ props, lines.mapM property = some props := by
  induction lines with
  | nil => exact ⟨[], rfl⟩
  | cons line lines ih =>
    obtain ⟨p, hp⟩ := property_of_not_mem (h line List.mem_cons_self)
    obtain ⟨ps, hps⟩ := ih fun l hl => h l (List.mem_cons_of_mem line hl)
    exact ⟨p :: ps, by rw [List.mapM_cons, hp, hps]; rfl⟩

theorem mem_of_mapM {lines : List (List Char)} {props : List (String × String)}
    (h : lines.mapM property = some props) {line : List Char} (hline : line ∈ lines)
    {p : String × String} (hp : property line = some p) : p ∈ props := by
  induction lines generalizing props with
  | nil => cases hline
  | cons l lines ih =>
    rw [List.mapM_cons] at h
    obtain ⟨q, hq, hrest⟩ := Option.bind_eq_some_iff.mp h
    obtain ⟨ps, hps, hprops⟩ := Option.bind_eq_some_iff.mp hrest
    cases hprops
    rcases List.mem_cons.mp hline with rfl | hline
    · rw [hp] at hq
      cases hq
      exact List.mem_cons_self
    · exact List.mem_cons_of_mem q (ih hps hline)

theorem firstLine_reread (cs : List Char) : firstLine (reread cs) = reread (firstLine cs) := by
  induction cs with
  | nil => rfl
  | cons c cs ih =>
    rw [reread_cons]
    unfold firstLine at ih ⊢
    by_cases hend : isLineEnd c = true
    · have hc := ascii_of_blank (lineEnd_le hend)
      rw [latin1_ascii hc, List.takeWhile_cons_of_neg (by simp [hend]), List.singleton_append,
        List.takeWhile_cons_of_neg (by simp [hend])]
      rfl
    · have hall : ∀ d ∈ latin1 (String.utf8EncodeChar c), decide (¬ isLineEnd d) = true := by
        intro d hd
        by_cases hc : c.toNat < 128
        · rw [latin1_ascii hc, List.mem_singleton] at hd
          simpa [hd] using hend
        · have hwide := (latin1_wide (c := c) (by omega)).2 d hd
          refine decide_eq_true fun hd' => ?_
          have := ascii_of_blank (lineEnd_le hd')
          omega
      rw [List.takeWhile_append_of_pos hall, ih, List.takeWhile_cons_of_pos (by simpa using hend), reread_cons]

section

variable {sep : List Char} (hsep : sep = ['\n'] ∨ sep = ['\r', '\n']) {fields : List (String × String)}
  (hfields : Fields fields) {props : List (String × String)}
  (hload : (logicalLines .start (fieldText sep fields)).mapM property = some props)

section

variable {value : String × String → String}
  (hvalue : ∀ q ∈ fields, (q.1, value q) ∈ props ∧
    (q.2.toList.map written).sum ≤ ((value q).toList.map held).sum)

include hsep hfields hload hvalue

/-- Values that hold as much as was written are all that the text is read as. -/
theorem sum_counted_eq :
    (fields.map fun q => (q.1, value q)).Nodup ∧ (fields.map fun q => (q.1, value q)) ⊆ props ∧
      (props.map counted).sum ≤ ((fields.map fun q => (q.1, value q)).map counted).sum ∧
      ((fields.map fun q => (q.1, value q)).map counted).sum ≤ (fields.map fieldWritten).sum := by
  have hnodup : (fields.map fun q => (q.1, value q)).Nodup :=
    List.Nodup.of_map Prod.fst (by rw [List.map_map]; exact hfields.nodup)
  have hsub : (fields.map fun q => (q.1, value q)) ⊆ props := by
    intro a ha
    obtain ⟨q, hq, rfl⟩ := List.mem_map.mp ha
    exact (hvalue q hq).1
  have hread := sum_load_le hload
  rw [sum_fieldText hsep hfields] at hread
  have hwritten : (fields.map fieldWritten).sum ≤
      ((fields.map fun q => (q.1, value q)).map counted).sum := by
    rw [List.map_map]
    exact List.sum_le_sum fun q hq => Nat.add_le_add_left (hvalue q hq).2 _
  have hpart := Weigh.sum_le_of_subset hnodup hsub counted
  exact ⟨hnodup, hsub, hread.trans hwritten, hpart.trans hread⟩

/-- No other property has a key that counts. -/
theorem mem_values {a : String × String} (ha : a ∈ props) (hcounts : (a.1.toList.map held).sum ≠ 0) :
    ∃ q ∈ fields, a = (q.1, value q) := by
  obtain ⟨hnodup, hsub, hsum, -⟩ := sum_counted_eq hsep hfields hload hvalue
  have hmem := Weigh.mem_of_sum_le hnodup hsub counted hsum ha (by unfold counted; omega)
  obtain ⟨q, hq, hqa⟩ := List.mem_map.mp hmem
  exact ⟨q, hq, hqa.symm⟩

/-- No value holds more than was written. -/
theorem sum_value_le {q : String × String} (hq : q ∈ fields) :
    ((value q).toList.map held).sum ≤ (q.2.toList.map written).sum := by
  obtain ⟨-, -, -, hsum⟩ := sum_counted_eq hsep hfields hload hvalue
  by_contra hlt
  rw [List.map_map] at hsum
  have hmore := List.sum_lt_sum fieldWritten (counted ∘ fun q => (q.1, value q))
    (fun q' hq' => Nat.add_le_add_left (hvalue q' hq').2 _)
    ⟨q, hq, Nat.add_lt_add_left (Nat.lt_of_not_le hlt) _⟩
  omega

end

include hsep in
/-- Without backslashes every field is read, with its first value. -/
theorem firstValue_mem (hkey : ∀ q ∈ fields, PlainKey q.1.toList)
    (hslash : ∀ q ∈ fields, '\\' ∉ q.2.toList) :
    ∃ props, (logicalLines .start (fieldText sep fields)).mapM property = some props ∧
      ∀ q ∈ fields, (q.1, firstValue q.2) ∈ props := by
  have hentries : ∀ p ∈ fields.map fun q => (q.1.toList, reread q.2.toList),
      PlainKey p.1 ∧ '\\' ∉ p.2 := by
    intro p hp
    obtain ⟨q, hq, rfl⟩ := List.mem_map.mp hp
    exact ⟨hkey q hq, not_mem_reread (hslash q hq)⟩
  have htext : '\\' ∉ fieldText sep fields := by
    intro hmem
    rcases mem_joinLines hmem with hmem | ⟨line, hline, hmem⟩
    · rcases hsep with rfl | rfl <;> revert hmem <;> decide
    · obtain ⟨p, hp, rfl⟩ := List.mem_map.mp hline
      obtain ⟨hpkey, hpvalue⟩ := hentries p hp
      rcases List.mem_append.mp hmem with hmem | hmem
      · exact hpkey.plain.not_mem hmem
      · exact hpvalue ((List.mem_cons.mp hmem).resolve_left (by decide))
  have hlines : ∀ line ∈ logicalLines .start (fieldText sep fields), '\\' ∉ line := by
    intro line hline hmem
    have hpart := (flatten_logicalLines .start _).subset (List.mem_flatten.mpr ⟨line, hline, hmem⟩)
    exact htext (List.mem_of_mem_filter hpart)
  obtain ⟨props, hprops⟩ := mapM_of_not_mem hlines
  refine ⟨props, hprops, fun q hq => ?_⟩
  have hline := mem_logicalLines hsep hentries _ (List.mem_map_of_mem hq)
  have hproperty := property_entry (hkey q hq) (plain_firstLine (not_mem_reread (hslash q hq))).not_mem
  rw [firstLine_reread, String.ofList_toList] at hproperty
  rw [firstLine_reread] at hline
  exact mem_of_mapM hprops hline hproperty

include hsep hfields hload in
/-- A value that comes back but for blanks is kept, where no value has a backslash. -/
theorem kept_of_trim {value : String × String → String}
    (hvalue : ∀ q ∈ fields, (q.1, value q) ∈ props ∧
      (q.2.toList.map written).sum ≤ ((value q).toList.map held).sum)
    (hslash : ∀ q ∈ fields, '\\' ∉ q.2.toList) {q : String × String} (hq : q ∈ fields)
    (htrim : trim (value q) = trim q.2) : Kept q.2.toList := by
  obtain ⟨props', hprops', hmem⟩ := firstValue_mem hsep hfields.key hslash
  rw [hload, Option.some.injEq] at hprops'
  subst hprops'
  obtain ⟨q', hq', hfirst⟩ := mem_values hsep hfields hload hvalue (hmem q hq) (hfields.counts q hq)
  have hkey : q.1 = q'.1 := (Prod.mk.inj hfirst).1
  have hsame : q = q' := List.inj_on_of_nodup_map hfields.nodup hq hq' hkey
  subst hsame
  have hvalueFirst : firstValue q.2 = value q := (Prod.mk.inj hfirst).2
  exact (kept_iff q.2).mpr ⟨hslash q hq, by rw [hvalueFirst, htrim]⟩

end

end Java.Properties
