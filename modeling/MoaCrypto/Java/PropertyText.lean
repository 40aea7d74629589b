import MoaCrypto.Java.Properties
import MoaCrypto.Lib.Weigh

/-!
# What a properties text can hold

`load` makes less of a text than was written: an escape is read as one character, a backslash that
ends a line is dropped, and so are comments.  Counted with `written`, no text is read as more than it
is, where what is read counts as `held` (`sum_load_le`).  Backslashes and line ends are `held` at
more than they are `written` at, so a value that has one needs more than its own line.
-/

namespace Java.Properties

open scoped List

def isLineEnd (c : Char) : Bool := c = '\n' || c = '\r'

/-! ## Counting characters -/

/-- What a character counts in a value that is read.  The full stop is what keys have, and the `u` pays,
with its backslash, for the backslash that an escape may be read as. -/
def held (c : Char) : ℕ :=
  if c = '\\' then 3 else if c = '.' ∨ c = 'u' ∨ c = '\n' ∨ c = '\r' then 1 else 0

/-- What a character counts in a logical line, where a backslash escapes. -/
def lined (c : Char) : ℕ := if c = '\\' then 2 else held c

/-- What a character counts in a text, where line ends end lines. -/
def written (c : Char) : ℕ := if c = '\n' ∨ c = '\r' then 0 else lined c

theorem held_le (c : Char) : held c ≤ 3 := by
  unfold held
  split_ifs <;> omega

theorem lined_le_held (c : Char) : lined c ≤ held c := by
  unfold lined
  split_ifs with h
  · rw [h]
    decide
  · exact Nat.le_refl _

theorem written_le_held (c : Char) : written c ≤ held c := by
  unfold written
  split_ifs
  · exact Nat.zero_le _
  · exact lined_le_held c

theorem held_escaped (c : Char) : held (escaped c) ≤ 2 + lined c := by
  have hcontrol : held '\t' = 0 ∧ held '\r' = 1 ∧ held '\n' = 1 ∧ held '\x0c' = 0 := by decide
  unfold escaped
  split_ifs
  · omega
  · omega
  · omega
  · omega
  · unfold lined
    split_ifs with h
    · rw [h]
      decide
    · omega

theorem held_eq_lined {c : Char} (h : c ≠ '\\') : held c = lined c := (if_neg h).symm

theorem lined_eq_written {c : Char} (hn : c ≠ '\n') (hr : c ≠ '\r') : lined c = written c :=
  (if_neg (by simp [hn, hr])).symm

theorem written_eq_zero {c : Char} (hslash : c ≠ '\\') (hdot : c ≠ '.') (hu : c ≠ 'u') : written c = 0 := by
  unfold written lined held
  split_ifs with hend hcounts
  · rfl
  · rcases hcounts with h | h | hends
    · exact absurd h hdot
    · exact absurd h hu
    · exact absurd hends hend
  · rfl

theorem sum_drop_le (f : Char → ℕ) (n : ℕ) (cs : List Char) : ((cs.drop n).map f).sum ≤ (cs.map f).sum :=
  ((List.drop_sublist n cs).map f).sum_le_sum fun _ _ => Nat.zero_le _

/-- Reading a key or a value. -/
theorem sum_convert_le {n : ℕ} {cs value : List Char} (h : convert n cs = some value) :
    (value.map held).sum ≤ (cs.map lined).sum := by
  induction n generalizing cs value with
  | zero =>
    cases h
    exact Nat.zero_le _
  | succ n ih =>
    cases cs with
    | nil =>
      cases h
      exact Nat.zero_le _
    | cons c cs =>
      by_cases hslash : c = '\\'
      · subst hslash
        have hlined : lined '\\' = 2 := rfl
        cases cs with
        | nil =>
          simp only [convert, if_true, Option.some.injEq] at h
          subst h
          exact Nat.zero_le _
        | cons e cs =>
          simp only [convert, if_true] at h
          by_cases hu : e = 'u'
          · rw [if_pos hu] at h
            subst hu
            obtain ⟨u, _, hrest⟩ := Option.bind_eq_some_iff.mp h
            obtain ⟨rest, hconvert, rfl⟩ := Option.map_eq_some_iff.mp hrest
            have hle := ih hconvert
            have hdrop := sum_drop_le lined 4 cs
            have hheld := held_le u
            have hletter : lined 'u' = 1 := rfl
            simp only [List.map_cons, List.sum_cons, hlined, hletter]
            omega
          · rw [if_neg hu] at h
            obtain ⟨rest, hconvert, rfl⟩ := Option.map_eq_some_iff.mp h
            have hle := ih hconvert
            have hescaped := held_escaped e
            simp only [List.map_cons, List.sum_cons, hlined]
            omega
      · simp only [convert, if_neg hslash] at h
        obtain ⟨rest, hconvert, rfl⟩ := Option.map_eq_some_iff.mp h
        have hle := ih hconvert
        simp only [List.map_cons, List.sum_cons, held_eq_lined hslash]
        omega

theorem sum_loadConvert_le {cs : List Char} {s : String} (h : loadConvert cs = some s) :
    (s.toList.map held).sum ≤ (cs.map lined).sum := by
  obtain ⟨value, hconvert, rfl⟩ := Option.map_eq_some_iff.mp h
  rw [String.toList_ofList]
  exact sum_convert_le hconvert

/-! ## Characters one by one -/

/-- What a character does to the reader, and the lines that it ends. -/
inductive Reads (r : LineReader) (c : Char) : List (List Char) → LineReader → Prop
  | skipped (h : r.skipLF ∧ c = '\n' ∨ r.skipWhiteSpace) : Reads r c [] { r with skipLF := false }
  | comment (h : c = '#' ∨ c = '!') : Reads r c []
      ⟨r.lineBuf, false, true, false, if r.skipWhiteSpace then false else r.appendedLineBegin,
        r.precedingBackslash, false⟩
  | letter (h : c ≠ '\n' ∧ c ≠ '\r') : Reads r c []
      ⟨c :: r.lineBuf, false, r.isCommentLine, false,
        if r.skipWhiteSpace then false else r.appendedLineBegin, c = '\\' ∧ ¬ r.precedingBackslash, false⟩
  | noLine (h : c = '\n' ∨ c = '\r') : Reads r c []
      ⟨[], true, false, true, if r.skipWhiteSpace then false else r.appendedLineBegin,
        r.precedingBackslash, false⟩
  | continued (h : r.precedingBackslash) : Reads r c []
      ⟨r.lineBuf.tail, true, false, false, true, false, c = '\r'⟩
  | line (h : c = '\n' ∨ c = '\r') : Reads r c [r.line] .start

theorem logicalLines_cons (r : LineReader) (c : Char) (cs : List Char) :
    ∃ lines r', Reads r c lines r' ∧ logicalLines r (c :: cs) = lines ++ logicalLines r' cs := by
  rw [logicalLines]
  by_cases hskipLF : r.skipLF ∧ c = '\n'
  · rw [if_pos hskipLF]
    exact ⟨_, _, .skipped (Or.inl hskipLF), rfl⟩
  rw [if_neg hskipLF]
  by_cases hskip : r.skipWhiteSpace ∧ (isBlank c ∨ (¬ r.appendedLineBegin ∧ (c = '\r' ∨ c = '\n')))
  · rw [if_pos hskip]
    exact ⟨_, _, .skipped (Or.inr hskip.1), rfl⟩
  rw [if_neg hskip]
  by_cases hcomment : r.isNewLine ∧ (c = '#' ∨ c = '!')
  · simp only [if_pos hcomment]
    exact ⟨_, _, .comment hcomment.2, rfl⟩
  simp only [if_neg hcomment]
  by_cases hletter : c ≠ '\n' ∧ c ≠ '\r'
  · rw [if_pos hletter]
    exact ⟨_, _, .letter hletter, rfl⟩
  rw [if_neg hletter]
  have hend : c = '\n' ∨ c = '\r' := by
    by_contra hno
    exact hletter (not_or.mp hno)
  by_cases hnoLine : r.isCommentLine ∨ r.lineBuf = []
  · rw [if_pos hnoLine]
    exact ⟨_, _, .noLine hend, rfl⟩
  rw [if_neg hnoLine]
  by_cases hlast : cs = []
  · rw [if_pos hlast, hlast]
    exact ⟨_, _, .line hend, rfl⟩
  rw [if_neg hlast]
  by_cases hslash : r.precedingBackslash
  · rw [if_pos hslash]
    exact ⟨_, _, .continued hslash, rfl⟩
  · rw [if_neg hslash]
    exact ⟨_, _, .line hend, rfl⟩

theorem LineReader.line_sublist (r : LineReader) : r.line <+ r.lineBuf.reverse := by
  rw [LineReader.line, List.reverse_sublist]
  split_ifs
  · exact List.tail_sublist _
  · exact List.Sublist.refl _

theorem Reads.sublist {r r' : LineReader} {c : Char} {lines : List (List Char)} (h : Reads r c lines r') :
    lines.flatten ++ r'.lineBuf.reverse <+ r.lineBuf.reverse ++ [c].filter fun c => ¬ isLineEnd c := by
  cases h with
  | skipped => exact List.sublist_append_left _ _
  | comment => exact List.sublist_append_left _ _
  | letter h =>
    have hletter : [c].filter (fun c => ¬ isLineEnd c) = [c] := by simp [isLineEnd, h]
    rw [hletter, ← List.reverse_cons]
    exact List.Sublist.refl _
  | noLine => exact List.nil_sublist _
  | continued => exact ((List.tail_sublist _).reverse).trans (List.sublist_append_left _ _)
  | line =>
    rw [List.flatten_singleton]
    exact (List.append_nil r.line ▸ r.line_sublist).trans (List.sublist_append_left _ _)

/-- The lines are a part of the text, without its line ends. -/
theorem flatten_logicalLines (r : LineReader) (cs : List Char) :
    (logicalLines r cs).flatten <+ r.lineBuf.reverse ++ cs.filter fun c => ¬ isLineEnd c := by
  induction cs generalizing r with
  | nil =>
    rw [logicalLines]
    split_ifs
    · exact List.nil_sublist _
    · rw [List.flatten_singleton]
      exact r.line_sublist.trans (List.sublist_append_left _ _)
  | cons c cs ih =>
    obtain ⟨lines, r', hreads, hlines⟩ := logicalLines_cons r c cs
    have hrest := (ih r').append_left lines.flatten
    rw [← List.append_assoc] at hrest
    rw [hlines, List.flatten_append, ← List.singleton_append, List.filter_append, ← List.append_assoc]
    exact hrest.trans (hreads.sublist.append_right _)

/-- The reader where no backslash was read. -/
structure LineReader.Natural (r : LineReader) : Prop where
  appended : r.appendedLineBegin = false
  slash : r.precedingBackslash = false
  skipLF : r.skipLF = false
  start : r.skipWhiteSpace = true → r = .start

theorem LineReader.natural_start : LineReader.start.Natural := ⟨rfl, rfl, rfl, fun _ => rfl⟩

theorem Reads.natural {r r' : LineReader} {c : Char} {lines : List (List Char)} (h : Reads r c lines r')
    (hr : r.Natural) (hc : c ≠ '\\') : r'.Natural ∧ ((c = '\n' ∨ c = '\r') → r' = .start) := by
  obtain ⟨happended, hslash, hskipLF, hstart⟩ := hr
  cases h with
  | skipped h =>
    have hr : r = .start := hstart (h.resolve_left (by simp [hskipLF]))
    rw [hr]
    exact ⟨LineReader.natural_start, fun _ => rfl⟩
  | comment h =>
    refine ⟨⟨by simp [happended], hslash, rfl, fun h => nomatch h⟩, ?_⟩
    rintro (rfl | rfl) <;> simp at h
  | letter h =>
    refine ⟨⟨by simp [happended], by simp [hc], rfl, fun h => nomatch h⟩, fun hend => ?_⟩
    exact absurd hend (not_or.mpr h)
  | noLine =>
    have hr : (⟨[], true, false, true, if r.skipWhiteSpace then false else r.appendedLineBegin,
        r.precedingBackslash, false⟩ : LineReader) = .start := by
      simp [happended, hslash, LineReader.start]
    rw [hr]
    exact ⟨LineReader.natural_start, fun _ => rfl⟩
  | continued h => simp [hslash] at h
  | line => exact ⟨LineReader.natural_start, fun _ => rfl⟩

/-- A text without a backslash leaves the reader without one. -/
theorem logicalLines_append {r : LineReader} (hr : r.Natural) {cs : List Char} (hcs : '\\' ∉ cs)
    (rest : List Char) :
    ∃ lines r', r'.Natural ∧ logicalLines r (cs ++ rest) = lines ++ logicalLines r' rest := by
  induction cs generalizing r with
  | nil => exact ⟨[], r, hr, rfl⟩
  | cons c cs ih =>
    obtain ⟨hc, hcs⟩ := List.ne_and_not_mem_of_not_mem_cons hcs
    obtain ⟨lines, r', hreads, hlines⟩ := logicalLines_cons r c (cs ++ rest)
    obtain ⟨lines', r'', hr'', hlines'⟩ := ih (hreads.natural hr (Ne.symm hc)).1 hcs
    exact ⟨lines ++ lines', r'', hr'', by rw [List.cons_append, hlines, hlines', List.append_assoc]⟩

/-- After a line end the next line starts. -/
theorem logicalLines_next {r : LineReader} (hr : r.Natural) {cs : List Char} (hcs : '\\' ∉ cs)
    (rest : List Char) :
    ∃ lines, logicalLines r (cs ++ '\n' :: rest) = lines ++ logicalLines .start rest := by
  obtain ⟨lines, r', hr', hlines⟩ := logicalLines_append hr hcs ('\n' :: rest)
  obtain ⟨lines', r'', hreads, hlines'⟩ := logicalLines_cons r' '\n' rest
  have hstart := (hreads.natural hr' (by decide)).2 (Or.inl rfl)
  exact ⟨lines ++ lines', by rw [hlines, hlines', hstart, List.append_assoc]⟩

/-! ## Properties -/

theorem sum_le_of_sublist (f : Char → ℕ) {cs ds : List Char} (h : cs <+ ds) :
    (cs.map f).sum ≤ (ds.map f).sum := (h.map f).sum_le_sum fun _ _ => Nat.zero_le _

/-- The separator at most is lost. -/
theorem splitKey_sublist (precedingBackslash : Bool) (cs : List Char) :
    (splitKey precedingBackslash cs).1 ++ (splitKey precedingBackslash cs).2.2 <+ cs := by
  induction cs generalizing precedingBackslash with
  | nil => exact List.Sublist.refl _
  | cons c cs ih =>
    rw [splitKey]
    split_ifs
    · exact List.sublist_cons_self c cs
    · exact List.sublist_cons_self c cs
    · exact (ih _).cons_cons c

/-- What a property counts. -/
def counted (p : String × String) : ℕ := (p.1.toList.map held).sum + (p.2.toList.map held).sum

theorem counted_le {line : List Char} {p : String × String} (h : property line = some p) :
    counted p ≤ (line.map lined).sum := by
  obtain ⟨key, hkey, hrest⟩ := Option.bind_eq_some_iff.mp h
  obtain ⟨value, hvalue, rfl⟩ := Option.map_eq_some_iff.mp hrest
  have hkeyLe := sum_loadConvert_le hkey
  have hvalueLe := sum_loadConvert_le hvalue
  have hskip := sum_le_of_sublist lined (skipSeparator_suffix (splitKey false line).2.1
    (splitKey false line).2.2).sublist
  have hsplit := sum_le_of_sublist lined (splitKey_sublist false line)
  rw [List.map_append, List.sum_append] at hsplit
  exact (Nat.add_le_add hkeyLe (hvalueLe.trans hskip)).trans hsplit

theorem sum_counted_le {lines : List (List Char)} {props : List (String × String)}
    (h : lines.mapM property = some props) : (props.map counted).sum ≤ (lines.flatten.map lined).sum := by
  induction lines generalizing props with
  | nil =>
    cases h
    exact Nat.le_refl _
  | cons line lines ih =>
    rw [List.mapM_cons] at h
    obtain ⟨p, hp, hrest⟩ := Option.bind_eq_some_iff.mp h
    obtain ⟨ps, hps, hprops⟩ := Option.bind_eq_some_iff.mp hrest
    cases hprops
    have hle := counted_le hp
    have hrestLe := ih hps
    simp only [List.map_cons, List.sum_cons, List.flatten_cons, List.map_append, List.sum_append]
    omega

theorem sum_written (cs : List Char) :
    ((cs.filter fun c => ¬ isLineEnd c).map lined).sum = (cs.map written).sum := by
  induction cs with
  | nil => rfl
  | cons c cs ih =>
    by_cases hend : c = '\n' ∨ c = '\r'
    · rw [List.filter_cons_of_neg (by simp [isLineEnd, hend]), ih, List.map_cons, List.sum_cons, written,
        if_pos hend, Nat.zero_add]
    · rw [List.filter_cons_of_pos (by simpa [isLineEnd] using hend), List.map_cons, List.sum_cons, ih,
        List.map_cons, List.sum_cons, written, if_neg hend]

/-- **No text is read as more than it is.** -/
theorem sum_load_le {cs : List Char} {props : List (String × String)}
    (h : (logicalLines .start cs).mapM property = some props) :
    (props.map counted).sum ≤ (cs.map written).sum := by
  have hlines := sum_le_of_sublist lined (flatten_logicalLines .start cs)
  have hprops := sum_counted_le h
  have hwritten := sum_written cs
  simp only [LineReader.start, List.reverse_nil, List.nil_append] at hlines
  unfold LineReader.start at hprops
  omega

/-- Backslashes and line ends are held at more than they are written at. -/
theorem plain_iff_sum_le {cs : List Char} :
    (cs.map held).sum ≤ (cs.map written).sum ↔ Plain cs := by
  refine ⟨fun hle c hc => ?_, fun hplain => ?_⟩
  · by_contra hbad
    have hlt : written c < held c := by
      have hcases : c = '\\' ∨ c = '\n' ∨ c = '\r' := by
        by_contra hno
        simp only [not_or] at hno
        exact hbad hno
      rcases hcases with rfl | rfl | rfl <;> decide
    have := List.sum_lt_sum written held (fun c _ => written_le_held c) ⟨c, hc, hlt⟩
    omega
  · refine Nat.le_of_eq (congrArg List.sum (List.map_congr_left fun c hc => ?_))
    obtain ⟨hslash, hn, hr⟩ := hplain c hc
    rw [held_eq_lined hslash, lined_eq_written hn hr]

end Java.Properties
