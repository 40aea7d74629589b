import MoaCrypto.Java.Text

/-!
# `java.util.Properties.load(InputStream)`

The bytes are read as ISO 8859-1.  A logical line may go over several natural lines, each but the
last ended by a backslash; lines that start with `#` or `!` are comments.  A line is cut into key and
value at the first `=`, `:` or blank; both may hold escapes.  `none` stands for the exception on a
malformed `\u` escape.  A text without any of these comes back as it was written, but for
characters outside ASCII (`load_lines`).
-/

namespace Java.Properties

def isBlank (c : Char) : Bool := c = ' ' || c = '\t' || c = '\x0c'

/-! ## Logical lines -/

/-- The locals of `LineReader.readLine`, with the characters of the line in reverse. -/
structure LineReader where
  lineBuf : List Char
  skipWhiteSpace : Bool
  isCommentLine : Bool
  isNewLine : Bool
  appendedLineBegin : Bool
  precedingBackslash : Bool
  skipLF : Bool

/-- At the start of a logical line. -/
def LineReader.start : LineReader := ⟨[], true, false, true, false, false, false⟩

/-- Within a line, behind a character other than a backslash. -/
def LineReader.within (buf : List Char) : LineReader := ⟨buf, false, false, false, false, false, false⟩

def LineReader.line (r : LineReader) : List Char :=
  (if r.precedingBackslash then r.lineBuf.tail else r.lineBuf).reverse

/-- The logical lines of the rest of the stream. -/
def logicalLines (r : LineReader) : List Char → List (List Char)
  | [] => if r.lineBuf = [] ∨ r.isCommentLine then [] else [r.line]
  | c :: cs =>
    if r.skipLF ∧ c = '\n' then logicalLines { r with skipLF := false } cs
    else if r.skipWhiteSpace ∧ (isBlank c ∨ (¬ r.appendedLineBegin ∧ (c = '\r' ∨ c = '\n'))) then
      logicalLines { r with skipLF := false } cs
    else
      let appended := if r.skipWhiteSpace then false else r.appendedLineBegin
      if r.isNewLine ∧ (c = '#' ∨ c = '!') then
        logicalLines ⟨r.lineBuf, false, true, false, appended, r.precedingBackslash, false⟩ cs
      else if c ≠ '\n' ∧ c ≠ '\r' then
        logicalLines ⟨c :: r.lineBuf, false, r.isCommentLine, false, appended,
          c = '\\' ∧ ¬ r.precedingBackslash, false⟩ cs
      else if r.isCommentLine ∨ r.lineBuf = [] then
        logicalLines ⟨[], true, false, true, appended, r.precedingBackslash, false⟩ cs
      else if cs = [] then [r.line]
      else if r.precedingBackslash then
        -- the line goes on, without the backslash
        logicalLines ⟨r.lineBuf.tail, true, false, false, true, false, c = '\r'⟩ cs
      else r.line :: logicalLines .start cs

@[simp] theorem logicalLines_skip (cs : List Char) :
    logicalLines .start ('\n' :: cs) = logicalLines .start cs := by
  rw [logicalLines]
  simp [LineReader.start]

/-! ## Keys and values -/

/-- The key, whether a separator ends it, and the rest; `precedingBackslash` escapes the first. -/
def splitKey (precedingBackslash : Bool) : List Char → List Char × Bool × List Char
  | [] => ([], false, [])
  | c :: cs =>
    if (c = '=' ∨ c = ':') ∧ ¬ precedingBackslash then ([], true, cs)
    else if isBlank c ∧ ¬ precedingBackslash then ([], false, cs)
    else
      let rest := splitKey (c = '\\' ∧ ¬ precedingBackslash) cs
      (c :: rest.1, rest.2)

/-- Blanks, and one separator if there was none yet. -/
def skipSeparator (hasSep : Bool) : List Char → List Char
  | [] => []
  | c :: cs =>
    if isBlank c then skipSeparator hasSep cs
    else if ¬ hasSep ∧ (c = '=' ∨ c = ':') then skipSeparator true cs
    else c :: cs

def hexDigitAscii (c : Char) : Option Nat :=
  if '0' ≤ c ∧ c ≤ '9' then some (c.toNat - 48)
  else if 'a' ≤ c ∧ c ≤ 'f' then some (c.toNat - 87)
  else if 'A' ≤ c ∧ c ≤ 'F' then some (c.toNat - 55)
  else none

/-- The `char` of a number; a surrogate, which is no character, is the replacement character. -/
def ofCodeUnit (n : Nat) : Char := if n.isValidChar then Char.ofNat n else '\uFFFD'

/-- The four digits of a `\u` escape. -/
def unicodeEscape (digits : List Char) : Option Char :=
  (digits.mapM hexDigitAscii).bind fun ds =>
    if ds.length = 4 then some (ofCodeUnit (ds.foldl (fun n d => 16 * n + d) 0)) else none

def escaped (c : Char) : Char :=
  if c = 't' then '\t' else if c = 'r' then '\r' else if c = 'n' then '\n'
  else if c = 'f' then '\x0c' else c

/-- `loadConvert`, with the number of characters as fuel. -/
def convert : Nat → List Char → Option (List Char)
  | 0, _ => some []
  | _, [] => some []
  | n + 1, c :: cs =>
    if c = '\\' then
      match cs with
      | [] => some []
      | e :: cs =>
        if e = 'u' then (unicodeEscape (cs.take 4)).bind fun u => (convert n (cs.drop 4)).map fun rest => u :: rest
        else (convert n cs).map fun rest => escaped e :: rest
    else (convert n cs).map fun rest => c :: rest

def loadConvert (cs : List Char) : Option String := (convert cs.length cs).map String.ofList

def property (line : List Char) : Option (String × String) :=
  let (key, hasSep, rest) := splitKey false line
  (loadConvert key).bind fun key => (loadConvert (skipSeparator hasSep rest)).map fun value => (key, value)

/-- Bytes as ISO 8859-1. -/
def latin1 (bytes : List UInt8) : List Char := bytes.map fun b => Char.ofNat b.toNat

/-- The properties in the order in which they are put. -/
def load (bytes : List UInt8) : Option (List (String × String)) :=
  (logicalLines .start (latin1 bytes)).mapM property

/-- The value that was put last. -/
def getProperty (props : List (String × String)) (key : String) : Option String :=
  (props.reverse.find? fun p => p.1 = key).map Prod.snd

/-! ## Plain lines -/

/-- A text without a backslash and without an end of line. -/
def Plain (cs : List Char) : Prop := ∀ c ∈ cs, c ≠ '\\' ∧ c ≠ '\n' ∧ c ≠ '\r'

theorem Plain.tail {c : Char} {cs : List Char} (h : Plain (c :: cs)) : Plain cs :=
  fun d hd => h d (List.mem_cons_of_mem c hd)

theorem Plain.append {cs ds : List Char} (hc : Plain cs) (hd : Plain ds) : Plain (cs ++ ds) := by
  intro c hmem
  rcases List.mem_append.mp hmem with h | h
  · exact hc c h
  · exact hd c h

/-- A character that can start a line, being neither a blank nor the sign of a comment. -/
def Starts (c : Char) : Prop := isBlank c = false ∧ c ≠ '#' ∧ c ≠ '!'

theorem logicalLines_start {c : Char} (hc : Starts c) {cs : List Char} (hplain : Plain (c :: cs))
    (rest : List Char) : logicalLines .start (c :: cs ++ rest) = logicalLines (.within [c]) (cs ++ rest) := by
  obtain ⟨hslash, hn, hr⟩ := hplain c List.mem_cons_self
  obtain ⟨hblank, hhash, hbang⟩ := hc
  rw [List.cons_append, logicalLines]
  simp [LineReader.start, LineReader.within, hslash, hn, hr, hblank, hhash, hbang]

theorem logicalLines_within {cs : List Char} (hplain : Plain cs) (buf rest : List Char) :
    logicalLines (.within buf) (cs ++ rest) = logicalLines (.within (cs.reverse ++ buf)) rest := by
  induction cs generalizing buf with
  | nil => rfl
  | cons c cs ih =>
    obtain ⟨hslash, hn, hr⟩ := hplain c List.mem_cons_self
    have hstep : logicalLines (.within buf) (c :: (cs ++ rest)) =
        logicalLines (.within (c :: buf)) (cs ++ rest) := by
      rw [logicalLines]
      simp [LineReader.within, hslash, hn, hr]
    rw [List.cons_append, hstep, ih hplain.tail, List.reverse_cons, List.append_assoc]
    rfl

/-- A plain line that ends the stream. -/
theorem logicalLines_last {c : Char} (hc : Starts c) {cs : List Char} (hplain : Plain (c :: cs)) :
    logicalLines .start (c :: cs) = [c :: cs] := by
  have hstart := logicalLines_start hc hplain []
  rw [List.append_nil, logicalLines_within hplain.tail, logicalLines] at hstart
  rw [hstart]
  simp [LineReader.within, LineReader.line]

/-- A plain line, its end and what comes after. -/
theorem logicalLines_line {c : Char} (hc : Starts c) {cs : List Char} (hplain : Plain (c :: cs))
    {sep : List Char} (hsep : sep = ['\n'] ∨ sep = ['\r', '\n']) {rest : List Char} (hrest : rest ≠ []) :
    logicalLines .start (c :: cs ++ sep ++ rest) = (c :: cs) :: logicalLines .start rest := by
  rw [List.append_assoc, logicalLines_start hc hplain, logicalLines_within hplain.tail]
  rcases hsep with rfl | rfl
  · rw [List.cons_append, logicalLines]
    simp [LineReader.within, LineReader.line, hrest]
  · rw [List.cons_append, List.cons_append, logicalLines]
    simp [LineReader.within, LineReader.line, logicalLines_skip]

/-! ## Plain properties -/

/-- A key that needs no escape. -/
structure PlainKey (key : List Char) : Prop where
  plain : Plain key
  separates : ∀ c ∈ key, c ≠ '=' ∧ c ≠ ':' ∧ isBlank c = false
  ne_nil : key ≠ []
  starts : ∀ c ∈ key.head?, Starts c

instance (cs : List Char) : Decidable (Plain cs) :=
  List.decidableBAll (fun c => c ≠ '\\' ∧ c ≠ '\n' ∧ c ≠ '\r') cs

instance (c : Char) : Decidable (Starts c) := inferInstanceAs (Decidable (_ ∧ _))

instance (key : List Char) : Decidable (PlainKey key) :=
  have : Decidable (∀ c ∈ key, c ≠ '=' ∧ c ≠ ':' ∧ isBlank c = false) := List.decidableBAll _ _
  have : Decidable (∀ c ∈ key.head?, Starts c) := Option.decidableForallMem _
  decidable_of_iff (Plain key ∧ (∀ c ∈ key, c ≠ '=' ∧ c ≠ ':' ∧ isBlank c = false) ∧ key ≠ [] ∧
      ∀ c ∈ key.head?, Starts c)
    ⟨fun h => ⟨h.1, h.2.1, h.2.2.1, h.2.2.2⟩, fun h => ⟨h.plain, h.separates, h.ne_nil, h.starts⟩⟩

theorem splitKey_plain {key : List Char} (hplain : Plain key)
    (hkey : ∀ c ∈ key, c ≠ '=' ∧ c ≠ ':' ∧ isBlank c = false) (value : List Char) :
    splitKey false (key ++ '=' :: value) = (key, true, value) := by
  induction key with
  | nil => simp [splitKey]
  | cons c key ih =>
    obtain ⟨heq, hcolon, hblank⟩ := hkey c List.mem_cons_self
    have hslash := (hplain c List.mem_cons_self).1
    have hrest := ih hplain.tail fun d hd => hkey d (List.mem_cons_of_mem c hd)
    rw [List.cons_append, splitKey]
    simp [heq, hcolon, hblank, hslash, hrest]

theorem convert_of_not_mem {cs : List Char} (h : '\\' ∉ cs) : convert cs.length cs = some cs := by
  induction cs with
  | nil => rfl
  | cons c cs ih =>
    obtain ⟨hc, hcs⟩ := List.ne_and_not_mem_of_not_mem_cons h
    simp [convert, Ne.symm hc, ih hcs]

theorem loadConvert_of_not_mem {cs : List Char} (h : '\\' ∉ cs) :
    loadConvert cs = some (String.ofList cs) := by
  rw [loadConvert, convert_of_not_mem h, Option.map_some]

theorem skipSeparator_suffix (hasSep : Bool) (cs : List Char) : skipSeparator hasSep cs <:+ cs := by
  induction cs generalizing hasSep with
  | nil => exact List.suffix_rfl
  | cons c cs ih =>
    rw [skipSeparator]
    split_ifs
    · exact (ih hasSep).trans (List.suffix_cons c cs)
    · exact (ih true).trans (List.suffix_cons c cs)
    · exact List.suffix_rfl

theorem skipSeparator_starts {value : List Char} (h : ∀ c ∈ value.head?, isBlank c = false) :
    skipSeparator true value = value := by
  cases value with
  | nil => rfl
  | cons c cs =>
    have hc := h c rfl
    rw [skipSeparator]
    simp [hc]

theorem Plain.not_mem {cs : List Char} (h : Plain cs) : '\\' ∉ cs := fun hmem => (h _ hmem).1 rfl

theorem property_entry {key value : List Char} (hkey : PlainKey key) (hvalue : '\\' ∉ value) :
    property (key ++ '=' :: value) = some (String.ofList key, String.ofList (skipSeparator true value)) := by
  have hskip : '\\' ∉ skipSeparator true value :=
    fun hmem => hvalue ((skipSeparator_suffix true value).subset hmem)
  rw [property, splitKey_plain hkey.plain hkey.separates]
  simp only [loadConvert_of_not_mem hkey.plain.not_mem, loadConvert_of_not_mem hskip]
  rfl

theorem property_plain {key value : List Char} (hkey : PlainKey key) (hvalue : Plain value)
    (hhead : ∀ c ∈ value.head?, isBlank c = false) :
    property (key ++ '=' :: value) = some (String.ofList key, String.ofList value) := by
  rw [property_entry hkey hvalue.not_mem, skipSeparator_starts hhead]

/-- The text of `key=value`. -/
def entry (p : List Char × List Char) : List Char := p.1 ++ '=' :: p.2

/-- Lines, each but the last ended by the separator. -/
def joinLines (sep : List Char) : List (List Char) → List Char
  | [] => []
  | [line] => line
  | line :: lines => line ++ sep ++ joinLines sep lines

/-- `sb.append(..)` for each of the lines, with the separator in between. -/
def appendLines (sep : String) : List String → String
  | [] => ""
  | [line] => line
  | line :: lines => line ++ sep ++ appendLines sep lines

theorem toList_appendLines (sep : String) (lines : List String) :
    (appendLines sep lines).toList = joinLines sep.toList (lines.map String.toList) := by
  induction lines with
  | nil => rfl
  | cons line lines ih =>
    cases lines with
    | nil => rfl
    | cons next lines =>
      rw [appendLines, String.toList_append, String.toList_append, ih]
      · rfl
      · simp

/-- A property that comes back as it is written. -/
structure PlainEntry (p : List Char × List Char) : Prop where
  key : PlainKey p.1
  value : Plain p.2
  head : ∀ c ∈ p.2.head?, isBlank c = false

theorem PlainKey.starts_entry {key value : List Char} (hkey : PlainKey key) (hvalue : Plain value) :
    ∃ c cs, entry (key, value) = c :: cs ∧ Starts c ∧ Plain (c :: cs) := by
  obtain ⟨c, cs, hcons⟩ := List.exists_cons_of_ne_nil hkey.ne_nil
  have hc : Starts c := hkey.starts c (by rw [hcons]; rfl)
  have hplain : Plain (entry (key, value)) :=
    hkey.plain.append fun d hd => by
      rcases List.mem_cons.mp hd with rfl | hd
      · decide
      · exact hvalue d hd
  have hentry : entry (key, value) = c :: (cs ++ '=' :: value) := by rw [entry, hcons, List.cons_append]
  exact ⟨c, _, hentry, hc, hentry ▸ hplain⟩

theorem PlainEntry.starts {p : List Char × List Char} (h : PlainEntry p) :
    ∃ c cs, entry p = c :: cs ∧ Starts c ∧ Plain (c :: cs) := h.key.starts_entry h.value

theorem entry_ne_nil (p : List Char × List Char) : entry p ≠ [] := by simp [entry]

theorem joinLines_ne_nil {sep line : List Char} (h : line ≠ []) (lines : List (List Char)) :
    joinLines sep (line :: lines) ≠ [] := by
  cases lines with
  | nil => exact h
  | cons next lines => simp [joinLines, h]

theorem logicalLines_joinLines_cons {sep : List Char} (hsep : sep = ['\n'] ∨ sep = ['\r', '\n'])
    {p : List Char × List Char} (hp : PlainEntry p) {line : List Char} (hline : line ≠ [])
    (lines : List (List Char)) :
    logicalLines .start (joinLines sep (entry p :: line :: lines)) =
      entry p :: logicalLines .start (joinLines sep (line :: lines)) := by
  obtain ⟨c, cs, hentry, hc, hplain⟩ := hp.starts
  show logicalLines .start (entry p ++ sep ++ joinLines sep (line :: lines)) = _
  rw [hentry, logicalLines_line hc hplain hsep (joinLines_ne_nil hline lines)]

theorem logicalLines_joinLines {sep : List Char} (hsep : sep = ['\n'] ∨ sep = ['\r', '\n'])
    {ps : List (List Char × List Char)} (hps : ∀ p ∈ ps, PlainEntry p) :
    logicalLines .start (joinLines sep (ps.map entry)) = ps.map entry := by
  induction ps with
  | nil => rfl
  | cons p ps ih =>
    have hp := hps p List.mem_cons_self
    have hrest := ih fun q hq => hps q (List.mem_cons_of_mem p hq)
    cases ps with
    | nil =>
      obtain ⟨c, cs, hentry, hc, hplain⟩ := hp.starts
      show logicalLines .start (entry p) = [entry p]
      rw [hentry, logicalLines_last hc hplain]
    | cons q ps =>
      rw [List.map_cons] at hrest
      rw [List.map_cons, List.map_cons, logicalLines_joinLines_cons hsep hp (entry_ne_nil q), hrest]

/-- Plain properties are loaded as they are written. -/
theorem mapM_property {ps : List (List Char × List Char)} (hps : ∀ p ∈ ps, PlainEntry p) :
    (ps.map entry).mapM property = some (ps.map fun p => (String.ofList p.1, String.ofList p.2)) := by
  induction ps with
  | nil => rfl
  | cons p ps ih =>
    obtain ⟨hkey, hvalue, hhead⟩ := hps p List.mem_cons_self
    rw [List.map_cons, List.mapM_cons, entry, property_plain hkey hvalue hhead,
      ih fun q hq => hps q (List.mem_cons_of_mem p hq)]
    rfl

/-! ## Texts written as UTF-8 -/

/-- A text, written as UTF-8, as `load` reads it. -/
def reread (cs : List Char) : List Char := latin1 (cs.flatMap String.utf8EncodeChar)

theorem latin1_utf8 (s : String) : latin1 (utf8 s) = reread s.toList := rfl

@[simp] theorem reread_nil : reread [] = [] := rfl

theorem reread_append (cs ds : List Char) : reread (cs ++ ds) = reread cs ++ reread ds := by
  rw [reread, reread, reread, latin1, List.flatMap_append, List.map_append]
  rfl

theorem reread_cons (c : Char) (cs : List Char) :
    reread (c :: cs) = latin1 (String.utf8EncodeChar c) ++ reread cs := by
  rw [reread, List.flatMap_cons, latin1, List.map_append]
  rfl

theorem toNat_latin1 (b : UInt8) : (Char.ofNat b.toNat).toNat = b.toNat := by
  have hb := b.toNat_lt
  have hvalid : b.toNat.isValidChar := Or.inl (by omega)
  rw [Char.ofNat, dif_pos hvalid]
  rfl

theorem latin1_ascii {c : Char} (h : c.toNat < 128) : latin1 (String.utf8EncodeChar c) = [c] := by
  rw [utf8EncodeChar_ascii h, latin1, List.map_singleton, UInt8.toNat_ofNat_of_lt' (by
    show c.toNat < 256
    omega), Char.ofNat_toNat]

/-- What is read for another character: two letters or more, none of ASCII. -/
theorem latin1_wide {c : Char} (h : 128 ≤ c.toNat) :
    2 ≤ (latin1 (String.utf8EncodeChar c)).length ∧
      ∀ d ∈ latin1 (String.utf8EncodeChar c), 128 ≤ d.toNat := by
  obtain ⟨hlength, hbytes⟩ := utf8EncodeChar_wide h
  refine ⟨by rwa [latin1, List.length_map], ?_⟩
  intro d hd
  obtain ⟨b, hb, rfl⟩ := List.mem_map.mp hd
  rw [toNat_latin1]
  exact hbytes b hb

/-- The text is of ASCII characters. -/
def Ascii (cs : List Char) : Prop := ∀ c ∈ cs, c.toNat < 128

instance (cs : List Char) : Decidable (Ascii cs) := List.decidableBAll (fun c : Char => c.toNat < 128) cs

theorem mem_reread {cs : List Char} {d : Char} (h : d ∈ reread cs) : d ∈ cs ∨ 128 ≤ d.toNat := by
  induction cs with
  | nil => cases h
  | cons c cs ih =>
    rw [reread_cons] at h
    rcases List.mem_append.mp h with h | h
    · by_cases hc : c.toNat < 128
      · rw [latin1_ascii hc, List.mem_singleton] at h
        exact Or.inl (h ▸ List.mem_cons_self)
      · exact Or.inr ((latin1_wide (by omega)).2 d h)
    · exact (ih h).imp_left (List.mem_cons_of_mem c)

theorem reread_ascii {cs : List Char} (h : Ascii cs) : reread cs = cs := by
  induction cs with
  | nil => rfl
  | cons c cs ih =>
    rw [reread_cons, latin1_ascii (h c List.mem_cons_self), ih fun d hd => h d (List.mem_cons_of_mem c hd)]
    rfl

theorem length_reread (cs : List Char) : cs.length ≤ (reread cs).length := by
  induction cs with
  | nil => exact Nat.le_refl 0
  | cons c cs ih =>
    rw [reread_cons, List.length_append, List.length_cons]
    by_cases hc : c.toNat < 128
    · rw [latin1_ascii hc, List.length_singleton]
      omega
    · have := (latin1_wide (c := c) (by omega)).1
      omega

/-- Only a text of ASCII characters comes back as it was. -/
theorem reread_eq_self {cs : List Char} : reread cs = cs ↔ Ascii cs := by
  refine ⟨fun h c hc => ?_, reread_ascii⟩
  by_contra hwide
  obtain ⟨before, after, rfl⟩ := List.append_of_mem hc
  have hlen := congrArg List.length h
  rw [reread_append, reread_cons] at hlen
  simp only [List.length_append, List.length_cons] at hlen
  have hbefore := length_reread before
  have hafter := length_reread after
  have := (latin1_wide (c := c) (by omega)).1
  omega

theorem Plain.reread {cs : List Char} (h : Plain cs) : Plain (reread cs) := by
  intro d hd
  rcases mem_reread hd with hd | hwide
  · exact h d hd
  · refine ⟨?_, ?_, ?_⟩ <;>
    · rintro rfl
      revert hwide
      decide

theorem head_reread {cs : List Char} {d : Char} (h : d ∈ (reread cs).head?) :
    d ∈ cs.head? ∨ 128 ≤ d.toNat := by
  cases cs with
  | nil => cases h
  | cons c cs =>
    by_cases hc : c.toNat < 128
    · rw [reread_cons, latin1_ascii hc] at h
      exact Or.inl h
    · obtain ⟨hlen, hwide⟩ := latin1_wide (c := c) (by omega)
      refine Or.inr (hwide d ?_)
      rw [reread_cons, List.head?_append_of_ne_nil _ (by rintro hnil; rw [hnil] at hlen; cases hlen)] at h
      exact List.mem_of_mem_head? h

theorem last_reread {cs : List Char} {d : Char} (h : d ∈ (reread cs).getLast?) :
    d ∈ cs.getLast? ∨ 128 ≤ d.toNat := by
  rcases List.eq_nil_or_concat' cs with rfl | ⟨before, c, rfl⟩
  · cases h
  · have hsplit : Properties.reread (before ++ [c]) =
        Properties.reread before ++ latin1 (String.utf8EncodeChar c) := by
      rw [reread_append, reread_cons, reread_nil, List.append_nil]
    rw [hsplit] at h
    by_cases hc : c.toNat < 128
    · rw [latin1_ascii hc, List.getLast?_concat] at h
      rw [List.getLast?_concat]
      exact Or.inl h
    · obtain ⟨hlen, hwide⟩ := latin1_wide (c := c) (by omega)
      refine Or.inr (hwide d ?_)
      rw [List.getLast?_append_of_ne_nil _ (by rintro hnil; rw [hnil] at hlen; cases hlen)] at h
      exact List.mem_of_mem_getLast? h

theorem PlainEntry.reread {p : List Char × List Char} (h : PlainEntry p) :
    PlainEntry (p.1, reread p.2) := by
  refine ⟨h.key, h.value.reread, fun d hd => ?_⟩
  rcases head_reread hd with hd | hwide
  · exact h.head d hd
  · unfold isBlank
    simp only [Bool.or_eq_false_iff, decide_eq_false_iff_not]
    refine ⟨⟨?_, ?_⟩, ?_⟩ <;>
    · rintro rfl
      revert hwide
      decide

theorem reread_entry {p : List Char × List Char} (h : Ascii p.1) :
    reread (entry p) = entry (p.1, reread p.2) := by
  rw [entry, reread_append, reread_ascii h, reread_cons, latin1_ascii (by decide)]
  rfl

theorem reread_joinLines {sep : List Char} (hsep : Ascii sep) {ps : List (List Char × List Char)}
    (hps : ∀ p ∈ ps, Ascii p.1) :
    reread (joinLines sep (ps.map entry)) =
      joinLines sep ((ps.map fun p => (p.1, reread p.2)).map entry) := by
  induction ps with
  | nil => rfl
  | cons p ps ih =>
    have hp := reread_entry (hps p List.mem_cons_self)
    have hrest := ih fun q hq => hps q (List.mem_cons_of_mem p hq)
    cases ps with
    | nil => exact hp
    | cons q ps =>
      show reread (entry p ++ sep ++ joinLines sep ((q :: ps).map entry)) = _
      rw [reread_append, reread_append, hp, reread_ascii hsep, hrest]
      rfl

/-- Plain entries, written as UTF-8 in lines, are loaded with their values reread. -/
theorem load_lines {sep : List Char} (hsep : sep = ['\n'] ∨ sep = ['\r', '\n'])
    {ps : List (List Char × List Char)} (hps : ∀ p ∈ ps, Ascii p.1 ∧ PlainEntry p) {text : String}
    (htext : text.toList = joinLines sep (ps.map entry)) :
    load (utf8 text) = some (ps.map fun p => (String.ofList p.1, String.ofList (reread p.2))) := by
  have hascii : Ascii sep := by
    rcases hsep with rfl | rfl <;> decide
  have hplain : ∀ p ∈ ps.map fun p => (p.1, reread p.2), PlainEntry p := by
    intro p hp
    obtain ⟨q, hq, rfl⟩ := List.mem_map.mp hp
    exact (hps q hq).2.reread
  rw [load, latin1_utf8, htext, reread_joinLines hascii fun p hp => (hps p hp).1,
    logicalLines_joinLines hsep hplain, mapM_property hplain, List.map_map]
  rfl

end Java.Properties
