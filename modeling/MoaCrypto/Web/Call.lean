import MoaCrypto.Web.Url

/-!
# Calls with string literals

A script that is one call of a function whose arguments are string literals in single quotes, as the grammar
of JavaScript reads it: `readCall` gives the name and the values of the literals, in UTF-16.  A call whose
literals are made by putting quotes around texts, in a URL, is read with these texts exactly if each of them is
`Plain` (`isCall_iff`).
-/

namespace Web

/-! ## String literals -/

def octalValue (c : Char) : Option Nat := if '0' ≤ c ∧ c ≤ '7' then some (c.toNat - 0x30) else none

/-- The value of a legacy octal escape after its first digit, and what is after it. -/
def readOctal (a : Nat) : List Char → Nat × List Char
  | [] => (a, [])
  | b :: cs =>
    match octalValue b, cs with
    | none, cs => (a, b :: cs)
    | some y, [] => (8 * a + y, [])
    | some y, c :: cs =>
      match octalValue c with
      | none => (8 * a + y, c :: cs)
      | some z => if a ≤ 3 then (64 * a + 8 * y + z, cs) else (8 * a + y, c :: cs)

/-- The digits of `\u{..}` after the brace. -/
def readCodePoint (cs : List Char) : Option (Nat × List Char) :=
  let digits := cs.takeWhile fun c => (hexValue c).isSome
  let n := digits.foldl (fun n c => 16 * n + (hexValue c).getD 0) 0
  match cs.dropWhile fun c => (hexValue c).isSome with
  | '}' :: rest => if digits ≠ [] ∧ n ≤ 0x10FFFF then some (n, rest) else none
  | _ => none

/-- The character that an escape of one character stands for. -/
def singleEscape : Char → Nat
  | 'b' => 0x08
  | 't' => 0x09
  | 'n' => 0x0A
  | 'v' => 0x0B
  | 'f' => 0x0C
  | 'r' => 0x0D
  | c => c.toNat

def isLineTerminator (c : Char) : Bool := c = '\n' || c = '\r' || c = '\u2028' || c = '\u2029'

/-- A line break after a backslash, which counts as one with a carriage return before it. -/
def skipLine (c : Char) : List Char → List Char
  | '\n' :: cs => if c = '\r' then cs else '\n' :: cs
  | cs => cs

/-- The code units of an escape, after the backslash, and what is after it. -/
def readEscape : List Char → Option (List UInt16 × List Char)
  | 'x' :: a :: b :: cs => (escapedByte a b).map fun byte => ([byte.toUInt16], cs)
  | 'x' :: _ => none
  | 'u' :: '{' :: cs => (readCodePoint cs).map fun (n, rest) => (unitsOf n, rest)
  | 'u' :: a :: b :: x :: y :: cs =>
    match escapedByte a b, escapedByte x y with
    | some high, some low => some ([UInt16.ofNat (0x100 * high.toNat + low.toNat)], cs)
    | _, _ => none
  | 'u' :: _ => none
  | c :: cs =>
    if isLineTerminator c then some ([], skipLine c cs)
    else
      match octalValue c with
      | some a => some ([UInt16.ofNat (readOctal a cs).1], (readOctal a cs).2)
      | none => some (unitsOf (singleEscape c), cs)
  | [] => none

/-- The value of a literal, after its opening quote, and what is after its closing one; every step takes a
character at least.  Of the line terminators only a line feed and a carriage return may not stand in it. -/
def readLiteral : Nat → List Char → Option (List UInt16 × List Char)
  | 0, _ => none
  | _ + 1, [] => none
  | n + 1, c :: cs =>
    if c = '\'' then some ([], cs)
    else if c = '\\' then do
      let (v, cs) ← readEscape cs
      let (w, rest) ← readLiteral n cs
      some (v ++ w, rest)
    else if c = '\n' ∨ c = '\r' then none
    else do
      let (w, rest) ← readLiteral n cs
      some (unitsOf c.toNat ++ w, rest)

/-! ## Calls -/

/-- White space and line breaks between tokens. -/
def isSpace (c : Char) : Bool :=
  c = '\t' || c = '\u000B' || c = '\u000C' || c = ' ' || c = '\u00A0' || c = '\uFEFF' || isLineTerminator c ||
    c = '\u1680' || ('\u2000' ≤ c && c ≤ '\u200A') || c = '\u202F' || c = '\u205F' || c = '\u3000'

def skipSpaces (cs : List Char) : List Char := cs.dropWhile isSpace

/-- The values of the arguments, after the opening parenthesis, and what is after the closing one. -/
def readArguments : Nat → List Char → Option (List (List UInt16) × List Char)
  | 0, _ => none
  | n + 1, cs =>
    match skipSpaces cs with
    | '\'' :: cs => do
      let (v, cs) ← readLiteral (cs.length + 1) cs
      match skipSpaces cs with
      | ',' :: cs => do
        let (vs, rest) ← readArguments n cs
        some (v :: vs, rest)
      | ')' :: cs => some ([v], cs)
      | _ => none
    | _ => none

def isIdentifierPart (c : Char) : Bool := c.isAlphanum || c = '_' || c = '$'

/-- The name and the arguments of a script that is one call. -/
def readCall (cs : List Char) : Option (List Char × List (List UInt16)) :=
  match cs.dropWhile isIdentifierPart with
  | '(' :: rest => do
    let (args, rest) ← readArguments rest.length rest
    if skipSpaces rest = [] then some (cs.takeWhile isIdentifierPart, args) else none
  | _ => none

example : readCall "f('a\\x41', '\\u{1F600}')".toList = some (['f'], [[0x61, 0x41], [0xD83D, 0xDE00]]) := by decide

/-! ## What an escape takes -/

theorem readOctal_used (a : Nat) (cs : List Char) :
    ∃ digits, cs = digits ++ (readOctal a cs).2 ∧ '\'' ∉ digits := by
  have hne : ∀ {c n}, octalValue c = some n → '\'' ≠ c := by
    rintro c n h rfl
    cases h
  match cs with
  | [] => exact ⟨[], rfl, List.not_mem_nil⟩
  | b :: cs =>
    cases hb : octalValue b with
    | none => exact ⟨[], by simp [readOctal, hb], List.not_mem_nil⟩
    | some y =>
      have hone : '\'' ∉ [b] := by simpa using hne hb
      match cs with
      | [] => exact ⟨[b], by simp [readOctal, hb], hone⟩
      | c :: cs =>
        cases hc : octalValue c with
        | none => exact ⟨[b], by simp [readOctal, hb, hc], hone⟩
        | some z =>
          by_cases ha : a ≤ 3
          · refine ⟨[b, c], by simp [readOctal, hb, hc, ha], ?_⟩
            simp [hne hb, hne hc]
          · exact ⟨[b], by simp [readOctal, hb, hc, ha], hone⟩

theorem readCodePoint_used {cs rest : List Char} {n : Nat} (h : readCodePoint cs = some (n, rest)) :
    ∃ digits, cs = digits ++ rest ∧ '\'' ∉ digits ∧ digits ≠ [] := by
  have hsplit := List.takeWhile_append_dropWhile (p := fun c => (hexValue c).isSome) (l := cs)
  unfold readCodePoint at h
  split at h
  · rename_i rest' hdrop
    obtain ⟨-, hrest⟩ := Option.ite_none_right_eq_some.mp h
    rw [Option.some.injEq, Prod.mk.injEq] at hrest
    rw [hdrop, hrest.2] at hsplit
    refine ⟨cs.takeWhile (fun c => (hexValue c).isSome) ++ ['}'], ?_, ?_, by simp⟩
    · rw [List.append_assoc, List.singleton_append, hsplit]
    · intro hmem
      rcases List.mem_append.mp hmem with hdigit | hbrace
      · exact absurd (List.all_eq_true.mp List.all_takeWhile _ hdigit) (by decide)
      · exact absurd (List.mem_singleton.mp hbrace) (by decide)
  · cases h

theorem escapedByte_used {a b : Char} {byte : UInt8} (h : escapedByte a b = some byte) :
    '\'' ≠ a ∧ '\'' ≠ b := by
  obtain ⟨x, hx, y, hy, -⟩ : ∃ x, hexValue a = some x ∧ ∃ y, hexValue b = some y ∧ _ := by
    simpa [escapedByte, Option.bind_eq_some_iff] using h
  refine ⟨?_, ?_⟩
  · rintro rfl
    cases hx
  · rintro rfl
    cases hy

theorem size_singleEscape (c : Char) : (unitsOf (singleEscape c)).length ≤ (unitsOf c.toNat).length := by
  have hone := (length_unitsOf c.toNat).1
  unfold singleEscape
  split
  case h_7 => exact le_rfl
  all_goals exact hone

/-- An escape is one character and others that are no quotes. -/
theorem readEscape_used {cs rest : List Char} {v : List UInt16} (h : readEscape cs = some (v, rest)) :
    ∃ c more, cs = c :: (more ++ rest) ∧ '\'' ∉ more ∧ v.length ≤ size (c :: more) := by
  have hsize : ∀ c more, 1 + more.length ≤ size (c :: more) := by
    intro c more
    have hlength := length_le_size (c :: more)
    rw [List.length_cons] at hlength
    omega
  unfold readEscape at h
  split at h
  · rename_i a b cs
    obtain ⟨byte, hbyte, hrest⟩ := Option.map_eq_some_iff.mp h
    rw [Prod.mk.injEq] at hrest
    obtain ⟨rfl, rfl⟩ := hrest
    have hused := escapedByte_used hbyte
    exact ⟨'x', [a, b], rfl, by simp [hused], le_trans (by simp) (hsize _ _)⟩
  · cases h
  · rename_i cs
    obtain ⟨⟨n, rest'⟩, hpoint, hrest⟩ := Option.map_eq_some_iff.mp h
    rw [Prod.mk.injEq] at hrest
    obtain ⟨rfl, rfl⟩ := hrest
    obtain ⟨digits, rfl, hquote, hne⟩ := readCodePoint_used hpoint
    refine ⟨'u', '{' :: digits, rfl, by simp [hquote], le_trans (length_unitsOf n).2 (le_trans ?_ (hsize _ _))⟩
    rw [List.length_cons]
    omega
  · rename_i a b x y cs _
    split at h
    · rename_i high low hhigh hlow
      rw [Option.some.injEq, Prod.mk.injEq] at h
      obtain ⟨rfl, rfl⟩ := h
      have hfirst := escapedByte_used hhigh
      have hlast := escapedByte_used hlow
      exact ⟨'u', [a, b, x, y], rfl, by simp [hfirst, hlast], le_trans (by simp) (hsize _ _)⟩
    · cases h
  · cases h
  · rename_i c cs _ _ _ _ _
    split at h
    · rw [Option.some.injEq, Prod.mk.injEq] at h
      obtain ⟨rfl, rfl⟩ := h
      unfold skipLine
      split
      · split
        · exact ⟨c, ['\n'], rfl, by decide, by simp⟩
        · exact ⟨c, [], rfl, List.not_mem_nil, by simp⟩
      · exact ⟨c, [], rfl, List.not_mem_nil, by simp⟩
    · split at h
      · rename_i a _
        rw [Option.some.injEq, Prod.mk.injEq] at h
        obtain ⟨rfl, rfl⟩ := h
        obtain ⟨digits, hcs, hquote⟩ := readOctal_used a cs
        exact ⟨c, digits, by rw [← hcs], hquote, le_trans (by simp) (hsize _ _)⟩
      · rw [Option.some.injEq, Prod.mk.injEq] at h
        obtain ⟨rfl, rfl⟩ := h
        exact ⟨c, [], rfl, List.not_mem_nil, by simpa using size_singleEscape c⟩
  · cases h

/-- An escape whose first character is one of a text ends in the text: no escape runs over a quote. -/
theorem readEscape_append {x : Char} {cs tail rest : List Char} {v : List UInt16}
    (h : readEscape (x :: (cs ++ '\'' :: tail)) = some (v, rest)) :
    ∃ more cs', cs = more ++ cs' ∧ rest = cs' ++ '\'' :: tail ∧ v.length ≤ size (x :: more) := by
  obtain ⟨y, more, hused, hmore, hv⟩ := readEscape_used h
  rw [List.cons.injEq] at hused
  obtain ⟨rfl, hused⟩ := hused
  rcases List.append_eq_append_iff.mp hused with ⟨taken, hmoreEq, htail⟩ | ⟨cs', hcs, hrest⟩
  · cases taken with
    | nil => exact ⟨more, [], by simpa using hmoreEq.symm, htail.symm, hv⟩
    | cons z taken =>
      rw [List.cons_append, List.cons.injEq] at htail
      exact absurd (by rw [hmoreEq, ← htail.1]; simp) hmore
  · exact ⟨more, cs', hcs, hrest, hv⟩

/-! ## Literals -/

/-- A literal made of a text and a quote after it.  Either it ends in the text or at the quote, and then its value is
at most as long as the text, and shorter unless it is all of the text as it stands; or a backslash at the end of
the text escapes the quote, and the literal runs on. -/
theorem readLiteral_cases {n : Nat} {cs tail rest : List Char} {v : List UInt16}
    (h : readLiteral n (cs ++ '\'' :: tail) = some (v, rest)) :
    (v.length ≤ size cs ∧ (size cs ≤ v.length → rest = tail ∧ '\'' ∉ cs ∧ '\\' ∉ cs)) ∨
      ∃ before v' w m, cs = before ++ ['\\'] ∧ v = v' ++ 0x27 :: w ∧ readLiteral m tail = some (w, rest) := by
  induction n generalizing cs v with
  | zero => cases h
  | succ n ih =>
    cases cs with
    | nil =>
      rw [List.nil_append, readLiteral, if_pos rfl, Option.some.injEq, Prod.mk.injEq] at h
      obtain ⟨rfl, rfl⟩ := h
      exact Or.inl ⟨le_rfl, fun _ => ⟨rfl, List.not_mem_nil, List.not_mem_nil⟩⟩
    | cons c cs =>
      have hc := (length_unitsOf c.toNat).1
      rw [List.cons_append, readLiteral] at h
      split at h
      · -- a quote in the text ends the literal too early
        rw [Option.some.injEq, Prod.mk.injEq] at h
        obtain ⟨rfl, -⟩ := h
        refine Or.inl ⟨Nat.zero_le _, fun hle => ?_⟩
        rw [size_cons, List.length_nil] at hle
        omega
      · rename_i hquote
        split at h
        · rename_i hslash
          subst hslash
          obtain ⟨⟨e, rest'⟩, hescape, h⟩ := Option.bind_eq_some_iff.mp h
          obtain ⟨⟨w, rest''⟩, hliteral, h⟩ := Option.bind_eq_some_iff.mp h
          rw [Option.some.injEq, Prod.mk.injEq] at h
          obtain ⟨rfl, rfl⟩ := h
          cases cs with
          | nil =>
            -- the backslash is the last character
            have hafter : readEscape ('\'' :: tail) = some ([0x27], tail) := rfl
            rw [List.nil_append, hafter, Option.some.injEq, Prod.mk.injEq] at hescape
            obtain ⟨rfl, rfl⟩ := hescape
            exact Or.inr ⟨[], [], w, n, rfl, rfl, hliteral⟩
          | cons x cs =>
            obtain ⟨more, cs', rfl, rfl, he⟩ := readEscape_append hescape
            rcases ih hliteral with ⟨hw, -⟩ | ⟨before, v', w', m, rfl, rfl, hrest⟩
            · -- the escape gives less than it takes
              refine Or.inl ?_
              rw [List.length_append, size_cons, ← List.cons_append, size_append]
              exact ⟨by omega, fun hle => by omega⟩
            · refine Or.inr ⟨'\\' :: x :: more ++ before, e ++ v', w', m, ?_, ?_, hrest⟩
              · simp
              · rw [List.append_assoc]
        · rename_i hslash
          split at h
          · cases h
          · obtain ⟨⟨w, rest'⟩, hliteral, h⟩ := Option.bind_eq_some_iff.mp h
            rw [Option.some.injEq, Prod.mk.injEq] at h
            obtain ⟨rfl, rfl⟩ := h
            rcases ih hliteral with ⟨hw, hall⟩ | ⟨before, v', w', m, rfl, rfl, hrest⟩
            · refine Or.inl ?_
              rw [List.length_append, size_cons]
              refine ⟨by omega, fun hle => ?_⟩
              obtain ⟨htail, hq, hs⟩ := hall (by omega)
              exact ⟨htail, List.not_mem_cons_of_ne_of_not_mem (Ne.symm hquote) hq,
                List.not_mem_cons_of_ne_of_not_mem (Ne.symm hslash) hs⟩
            · exact Or.inr ⟨c :: before, unitsOf c.toNat ++ v', w', m, rfl, by rw [List.append_assoc], hrest⟩

/-- What a literal in a URL may hold so that it is read as it stands. -/
structure Plain (cs : List Char) : Prop extends Unchanged cs where
  quote : '\'' ∉ cs
  backslash : '\\' ∉ cs

instance : DecidablePred Plain := fun cs =>
  decidable_of_iff (Unchanged cs ∧ (cs.all fun c => c != '\'' && c != '\\') = true) <| by
    rw [List.all_eq_true]
    constructor
    · rintro ⟨hunchanged, hall⟩
      exact { toUnchanged := hunchanged, quote := fun hc => absurd (hall _ hc) (by decide),
              backslash := fun hc => absurd (hall _ hc) (by decide) }
    · intro h
      refine ⟨h.toUnchanged, fun c hc => ?_⟩
      have hquote : c ≠ '\'' := fun he => h.quote (he ▸ hc)
      have hslash : c ≠ '\\' := fun he => h.backslash (he ▸ hc)
      simp [hquote, hslash]

theorem readLiteral_plain {cs : List Char} (h : Plain cs) (tail : List Char) {n : Nat} (hn : cs.length < n) :
    readLiteral n (cs ++ '\'' :: tail) = some (utf16 cs, tail) := by
  have hall : ∀ c ∈ cs, c ≠ '\'' ∧ c ≠ '\\' ∧ ¬(c = '\n' ∨ c = '\r') := by
    intro c hc
    refine ⟨fun he => h.quote (he ▸ hc), fun he => h.backslash (he ▸ hc), ?_⟩
    have hbreak := h.breaks c hc
    rintro (rfl | rfl) <;> exact absurd hbreak (by decide)
  clear h
  induction n generalizing cs with
  | zero => omega
  | succ n ih =>
    cases cs with
    | nil => rfl
    | cons c cs =>
      obtain ⟨⟨hquote, hslash, hline⟩, hrest⟩ := List.forall_mem_cons.mp hall
      rw [List.length_cons] at hn
      rw [List.cons_append, readLiteral, if_neg hquote, if_neg hslash, if_neg hline, ih (by omega) hrest]
      rfl

/-! ## Calls in a URL -/

/-- Arguments in quotes, with the closing parenthesis. -/
def arguments : List Char → List (List Char) → List Char
  | a, [] => '\'' :: (a ++ ['\'', ')'])
  | a, b :: args => '\'' :: (a ++ '\'' :: ',' :: ' ' :: arguments b args)

theorem received_append {d : Utf8Decoder} {c : Char} (hc : c ≠ '%') (hdigit : hexValue c = none)
    (hbreak : isBreak c = false) (cs ds : List Char) :
    received d (cs ++ c :: ds) = received d cs ++ c :: received d ds := by
  have hkept : withoutBreaks (c :: ds) = c :: withoutBreaks ds := by simp [withoutBreaks, hbreak]
  rw [received, withoutBreaks_append, hkept, percentDecode_append d hc hdigit, received, received]

theorem received_nil (d : Utf8Decoder) : received d [] = [] := d.decode_nil

theorem received_cons {d : Utf8Decoder} {c : Char} (hc : c ≠ '%') (hdigit : hexValue c = none)
    (hbreak : isBreak c = false) (ds : List Char) : received d (c :: ds) = c :: received d ds := by
  have h := received_append (d := d) hc hdigit hbreak [] ds
  rwa [List.nil_append, received_nil, List.nil_append] at h

/-- The quotes and commas arrive as they were sent. -/
theorem received_arguments (d : Utf8Decoder) (a : List Char) (args : List (List Char)) :
    received d (arguments a args) = arguments (received d a) (args.map (received d)) := by
  have hquote (cs ds : List Char) : received d (cs ++ '\'' :: ds) = received d cs ++ '\'' :: received d ds :=
    received_append (by decide) (by decide) (by decide) cs ds
  induction args generalizing a with
  | nil =>
    rw [arguments, received_cons (by decide) (by decide) (by decide), hquote,
      received_cons (by decide) (by decide) (by decide), received_nil]
    rfl
  | cons b args ih =>
    rw [arguments, received_cons (by decide) (by decide) (by decide), hquote,
      received_cons (by decide) (by decide) (by decide), received_cons (by decide) (by decide) (by decide), ih]
    rfl

theorem unitsOf_last {n : Nat} (h : (unitsOf n).getLast? = some 0x20) : n = 0x20 := by
  unfold unitsOf at h
  split at h
  · rw [List.getLast?_singleton, Option.some.injEq] at h
    have hvalue := congrArg UInt16.toNat h
    rw [UInt16.toNat_ofNat', show (0x20 : UInt16).toNat = 0x20 from rfl] at hvalue
    omega
  · -- the second half of a pair is no space
    rw [List.getLast?_cons_cons, List.getLast?_singleton, Option.some.injEq] at h
    have hvalue := congrArg UInt16.toNat h
    rw [UInt16.toNat_ofNat', show (0x20 : UInt16).toNat = 0x20 from rfl] at hvalue
    omega

theorem utf16_last {cs : List Char} {v : List UInt16} (h : utf16 cs = v ++ [0x20]) :
    ∃ before, cs = before ++ [' '] := by
  rcases List.eq_nil_or_concat' cs with rfl | ⟨before, c, rfl⟩
  · exact absurd h (by simp)
  · have hlast : (utf16 (before ++ [c])).getLast? = some 0x20 := by rw [h, List.getLast?_concat]
    have hne : unitsOf c.toNat ≠ [] := List.length_pos_iff.mp (length_unitsOf c.toNat).1
    rw [utf16_append, utf16_cons, utf16_nil, List.append_nil, List.getLast?_append_of_ne_nil _ hne] at hlast
    have hc : c = ' ' := by rw [← Char.ofNat_toNat c, unitsOf_last hlast]
    exact ⟨before, by rw [hc]⟩

theorem arguments_eq (a : List Char) (args : List (List Char)) : ∃ cs, arguments a args = '\'' :: (a ++ cs) := by
  cases args with
  | nil => exact ⟨_, rfl⟩
  | cons b args => exact ⟨_, rfl⟩

@[simp] theorem skipSpaces_cons {c : Char} (hc : isSpace c = false) (cs : List Char) :
    skipSpaces (c :: cs) = c :: cs := by
  rw [skipSpaces, List.dropWhile_cons_of_neg (by simp [hc])]

theorem readArguments_last (n : Nat) {cs tail : List Char} {v : List UInt16}
    (h : readLiteral (cs.length + 1) cs = some (v, ')' :: tail)) :
    readArguments (n + 1) ('\'' :: cs) = some ([v], tail) := by
  rw [readArguments, skipSpaces_cons (by decide)]
  simp only [h, Option.bind_eq_bind, Option.bind_some]
  rw [skipSpaces_cons (by decide)]
  rfl

theorem readArguments_next (n : Nat) {cs tail : List Char} {v : List UInt16}
    (h : readLiteral (cs.length + 1) cs = some (v, ',' :: ' ' :: '\'' :: tail)) :
    readArguments (n + 1) ('\'' :: cs) =
      (readArguments n ('\'' :: tail)).map fun p => (v :: p.1, p.2) := by
  have hspace : readArguments n (' ' :: '\'' :: tail) = readArguments n ('\'' :: tail) := by
    cases n with
    | zero => rfl
    | succ n => rfl
  rw [readArguments, skipSpaces_cons (by decide)]
  simp only [h, Option.bind_eq_bind, Option.bind_some]
  rw [skipSpaces_cons (by decide)]
  simp only [hspace]
  cases readArguments n ('\'' :: tail) <;> rfl

/-- The first literal of arguments that are read. -/
theorem readArguments_first {n : Nat} {cs rest : List Char} {v : List UInt16} {vs : List (List UInt16)}
    (h : readArguments n ('\'' :: cs) = some (v :: vs, rest)) :
    ∃ tail, readLiteral (cs.length + 1) cs = some (v, tail) := by
  cases n with
  | zero => cases h
  | succ n =>
    rw [readArguments, skipSpaces_cons (by decide)] at h
    obtain ⟨⟨v', tail⟩, hliteral, h⟩ := Option.bind_eq_some_iff.mp h
    refine ⟨tail, ?_⟩
    simp only at h
    split at h
    · obtain ⟨⟨vs', rest'⟩, -, h⟩ := Option.bind_eq_some_iff.mp h
      cases h
      exact hliteral
    · cases h
      exact hliteral
    · cases h

/-- An argument whose literal has the text that was sent is plain, unless the literal runs on to something other
than a space. -/
theorem plain_of_readLiteral {d : Utf8Decoder} {a tail rest : List Char} {n : Nat}
    (h : readLiteral n (received d a ++ '\'' :: tail) = some (utf16 a, rest))
    (hrun : ∀ {m w rest}, readLiteral m tail = some (w, rest) → ∃ v, w = v ++ [0x20]) :
    Plain a ∧ rest = tail := by
  rcases readLiteral_cases h with ⟨hle, hall⟩ | ⟨before, v, w, m, hlast, hvalue, hliteral⟩
  · obtain ⟨hrest, hquote, hslash⟩ := hall (size_received_le d a)
    have hunchanged : Unchanged a := unchanged_of_size hle
    rw [received_of_unchanged hunchanged] at hquote hslash
    exact ⟨{ toUnchanged := hunchanged, quote := hquote, backslash := hslash }, hrest⟩
  · obtain ⟨w', rfl⟩ := hrun hliteral
    obtain ⟨before', rfl⟩ := utf16_last (show utf16 a = (v ++ 0x27 :: w') ++ [0x20] by rw [hvalue]; simp)
    rw [received_append (by decide) (by decide) (by decide), received_nil] at hlast
    exact absurd (List.append_inj' hlast rfl).2 (by decide)

theorem plain_of_readArguments {d : Utf8Decoder} {n : Nat} {a : List Char} {args : List (List Char)}
    {rest : List Char}
    (h : readArguments n (arguments (received d a) (args.map (received d))) = some ((a :: args).map utf16, rest)) :
    ∀ b ∈ a :: args, Plain b := by
  induction args generalizing n a with
  | nil =>
    obtain ⟨tail, hliteral⟩ := readArguments_first h
    refine List.forall_mem_singleton.mpr (plain_of_readLiteral hliteral ?_).1
    -- nothing ends a literal after the parenthesis
    intro m w rest hclose
    match m with
    | 0 => cases hclose
    | 1 => cases hclose
    | m + 2 => cases hclose
  | cons b args ih =>
    obtain ⟨cs, hcs⟩ := arguments_eq (received d b) (args.map (received d))
    obtain ⟨tail, hliteral⟩ := readArguments_first h
    obtain ⟨ha, rfl⟩ := plain_of_readLiteral hliteral (by
      -- a literal that runs on ends at the quote of the next one
      intro m w rest hnext
      rw [hcs] at hnext
      match m with
      | 0 => cases hnext
      | 1 => cases hnext
      | 2 => cases hnext
      | m + 3 =>
        cases hnext
        exact ⟨[0x2C], rfl⟩)
    cases n with
    | zero => cases h
    | succ n =>
      rw [hcs] at hliteral
      change readArguments (n + 1) ('\'' :: (received d a ++ '\'' :: ',' :: ' ' ::
        arguments (received d b) (args.map (received d)))) = _ at h
      rw [hcs, readArguments_next n hliteral, ← hcs] at h
      obtain ⟨⟨vs, rest'⟩, hargs, h⟩ := Option.map_eq_some_iff.mp h
      cases h
      exact List.forall_mem_cons.mpr ⟨ha, ih hargs⟩

theorem readArguments_plain {a : List Char} {args : List (List Char)} (h : ∀ b ∈ a :: args, Plain b) {n : Nat}
    (hn : args.length < n) : readArguments n (arguments a args) = some ((a :: args).map utf16, []) := by
  induction args generalizing n a with
  | nil =>
    have ha := List.forall_mem_singleton.mp h
    match n, hn with
    | n + 1, _ => exact readArguments_last n (readLiteral_plain ha [')'] (by rw [List.length_append]; omega))
  | cons b args ih =>
    obtain ⟨ha, hargs⟩ := List.forall_mem_cons.mp h
    match n, hn with
    | n + 1, hn =>
      obtain ⟨cs, hcs⟩ := arguments_eq b args
      have hliteral := readLiteral_plain ha (',' :: ' ' :: arguments b args)
        (n := (a ++ '\'' :: ',' :: ' ' :: arguments b args).length + 1) (by rw [List.length_append]; omega)
      rw [hcs] at hliteral
      rw [List.length_cons] at hn
      rw [arguments, hcs, readArguments_next n hliteral, ← hcs, ih hargs (by omega)]
      rfl

theorem length_lt_arguments (a : List Char) (args : List (List Char)) :
    args.length < (arguments a args).length := by
  induction args generalizing a with
  | nil => exact Nat.succ_pos _
  | cons b args ih =>
    have hrest := ih b
    rw [arguments, List.length_cons, List.length_cons, List.length_append, List.length_cons, List.length_cons,
      List.length_cons]
    omega

/-! ## The call that arrives -/

/-- The URL that calls a function with texts in quotes. -/
def callUrl (name a : String) (args : List String) : String :=
  scheme ++ (name ++ ("(" ++ String.ofList (arguments a.toList (args.map String.toList))))

theorem toList_callUrl (name a : String) (args : List String) : (callUrl name a args).toList =
    scheme.toList ++ (name.toList ++ '(' :: arguments a.toList (args.map String.toList)) := by
  have hparen : "(".toList = ['('] := rfl
  rw [callUrl, String.toList_append, String.toList_append, String.toList_append, hparen, String.toList_ofList]
  rfl

/-- The script of the URL is one call of the function, and its arguments are these texts. -/
def IsCall (d : Utf8Decoder) (url name : String) (args : List String) : Prop :=
  (scriptOfUrl d url).bind readCall = some (name.toList, args.map fun a => utf16 a.toList)

instance (d : Utf8Decoder) (url name : String) (args : List String) : Decidable (IsCall d url name args) :=
  inferInstanceAs (Decidable (_ = _))

/-- What a name may hold so that it is read as it stands in a URL. -/
def isName (name : String) : Bool := name.toList.all isIdentifierPart

theorem hasEscape_of_not_mem {cs : List Char} (h : '%' ∉ cs) : hasEscape cs = false := by
  induction cs with
  | nil => rfl
  | cons c cs ih =>
    rw [List.mem_cons, not_or] at h
    rw [hasEscape]
    · exact ih h.2
    · rintro a b cs' rfl
      exact absurd rfl h.1

theorem unchanged_of_isIdentifierPart {cs : List Char} (h : ∀ c ∈ cs, isIdentifierPart c = true) : Unchanged cs where
  breaks c hc := by
    have hpart := h c hc
    unfold isBreak
    rw [Bool.eq_false_iff]
    intro hbreak
    rcases (by simpa [or_assoc] using hbreak : c = '\t' ∨ c = '\n' ∨ c = '\r') with rfl | rfl | rfl <;>
      exact absurd hpart (by decide)
  escape := hasEscape_of_not_mem fun hc => absurd (h _ hc) (by decide)

theorem plain_of_isIdentifierPart {cs : List Char} (h : ∀ c ∈ cs, isIdentifierPart c = true) : Plain cs where
  toUnchanged := unchanged_of_isIdentifierPart h
  quote := fun hc => absurd (h _ hc) (by decide)
  backslash := fun hc => absurd (h _ hc) (by decide)

theorem plain_of_isName {name : String} (h : isName name = true) : Plain name.toList :=
  plain_of_isIdentifierPart (List.all_eq_true.mp h)

theorem scriptOfUrl_callUrl (d : Utf8Decoder) {name : String} (hname : isName name = true) (a : String)
    (args : List String) : scriptOfUrl d (callUrl name a args) = some (name.toList ++ '(' ::
      arguments (received d a.toList) ((args.map String.toList).map (received d))) := by
  have hunchanged := unchanged_of_isIdentifierPart (List.all_eq_true.mp hname)
  have hscheme : withoutBreaks scheme.toList = scheme.toList := by decide
  have hscript := received_append (d := d) (c := '(') (by decide) (by decide) (by decide) name.toList
    (arguments a.toList (args.map String.toList))
  rw [received_of_unchanged hunchanged, received_arguments] at hscript
  rw [scriptOfUrl, toList_callUrl, withoutBreaks_append, hscheme,
    if_pos (List.isPrefixOf_iff_prefix.mpr (List.prefix_append ..)), List.drop_left]
  exact congrArg some hscript

theorem scriptOfUrl_unchanged (d : Utf8Decoder) {name : String} (hname : isName name = true) {a : String}
    {args : List String} (h : ∀ b ∈ a :: args, Unchanged b.toList) : scriptOfUrl d (callUrl name a args) =
      some (name.toList ++ '(' :: arguments a.toList (args.map String.toList)) := by
  obtain ⟨ha, hargs⟩ := List.forall_mem_cons.mp h
  have hrest : (args.map String.toList).map (received d) = args.map String.toList := by
    rw [List.map_map]
    exact List.map_congr_left fun b hb => received_of_unchanged (hargs b hb)
  rw [scriptOfUrl_callUrl d hname, received_of_unchanged ha, hrest]

theorem readCall_name {name : List Char} (hname : ∀ c ∈ name, isIdentifierPart c = true) (rest : List Char)
    (args : List (List UInt16)) : readCall (name ++ '(' :: rest) = some (name, args) ↔
      ∃ after, readArguments rest.length rest = some (args, after) ∧ skipSpaces after = [] := by
  have hafter : (name ++ '(' :: rest).dropWhile isIdentifierPart = '(' :: rest := by
    rw [List.dropWhile_append_of_pos hname]
    rfl
  have hbefore : (name ++ '(' :: rest).takeWhile isIdentifierPart = name := by
    rw [List.takeWhile_append_of_pos hname, List.takeWhile_cons_of_neg (by decide), List.append_nil]
  unfold readCall
  rw [hafter, hbefore]
  simp only [Option.bind_eq_bind, Option.bind_eq_some_iff, Option.ite_none_right_eq_some, Prod.exists]
  constructor
  · rintro ⟨args', after, hargs, hend, h⟩
    cases h
    exact ⟨after, hargs, hend⟩
  · rintro ⟨after, hargs, hend⟩
    exact ⟨args, after, hargs, hend, rfl⟩

/-- A call in a URL arrives exactly if every argument is plain. -/
theorem isCall_iff (d : Utf8Decoder) {name : String} (hname : isName name = true) (a : String) (args : List String) :
    IsCall d (callUrl name a args) name (a :: args) ↔ ∀ b ∈ a :: args, Plain b.toList := by
  have hvalues : (a :: args).map (fun b => utf16 b.toList) = (a.toList :: args.map String.toList).map utf16 := by
    rw [List.map_cons, List.map_cons, List.map_map]
    rfl
  have hlists : (∀ b ∈ a :: args, Plain b.toList) ↔ ∀ b ∈ a.toList :: args.map String.toList, Plain b := by
    rw [List.forall_mem_cons, List.forall_mem_cons, List.forall_mem_map]
  constructor
  · intro h
    rw [IsCall, scriptOfUrl_callUrl d hname, Option.bind_some, readCall_name (List.all_eq_true.mp hname),
      hvalues] at h
    obtain ⟨after, hargs, -⟩ := h
    exact hlists.mpr (plain_of_readArguments hargs)
  · intro h
    rw [IsCall, scriptOfUrl_unchanged d hname fun b hb => (h b hb).toUnchanged, Option.bind_some,
      readCall_name (List.all_eq_true.mp hname), hvalues]
    exact ⟨[], readArguments_plain (hlists.mp h) (length_lt_arguments ..), rfl⟩

end Web
