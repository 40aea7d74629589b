import Mathlib.Algebra.Order.Field.Rat
import Mathlib.Algebra.Order.Field.Power
import Mathlib.Tactic.Ring
import Mathlib.Tactic.Positivity
import Mathlib.Tactic.FieldSimp
import Mathlib.Tactic.Linarith

/-!
# Java's numbers in strings: `Integer.valueOf` and `BigDecimal`

`Character.digit` knows the decimal digits of the basic plane (a `char` above it
is a surrogate, never a digit).  `Integer.valueOf` takes an optional sign and
digits and rejects what an `int` cannot hold.  A `BigDecimal` is an unscaled
integer and an `int` scale; `new BigDecimal(String)` takes an optional sign,
digits with at most one point, and an optional exponent; `toString` is the
canonical form, in scientific notation where the scale is negative or the number
very small.  `none` stands for `NumberFormatException` (of the two parsers) or
`ArithmeticException` (of `add`, where aligning needs more than `int` digits).

    toRat_add, toRat_subtract, compareTo_lt       arithmetic is that of the rationals
    valueOf_toString          a decimal's text is an int exactly if its scale is 0 and it fits
    ofString_toString         and then reads back as the same decimal
-/

namespace Java

/-! ## Digits -/

/-- The digit zeros of the basic plane; each starts ten consecutive digits. -/
def digitZeros : List Nat :=
  [0x0030, 0x0660, 0x06F0, 0x07C0, 0x0966, 0x09E6, 0x0A66, 0x0AE6, 0x0B66, 0x0BE6, 0x0C66, 0x0CE6,
    0x0D66, 0x0DE6, 0x0E50, 0x0ED0, 0x0F20, 0x1040, 0x1090, 0x17E0, 0x1810, 0x1946, 0x19D0, 0x1A80,
    0x1A90, 0x1B50, 0x1BB0, 0x1C40, 0x1C50, 0xA620, 0xA8D0, 0xA900, 0xA9D0, 0xA9F0, 0xAA50, 0xABF0,
    0xFF10]

/-- `Character.digit(c, 10)`. -/
def digit (c : Char) : Option Nat :=
  (digitZeros.find? fun z => z ≤ c.toNat && c.toNat < z + 10).map fun z => c.toNat - z

/-- The digits `cs` read after the number `acc`. -/
def digitsFrom (acc : Nat) : List Char → Option Nat
  | [] => some acc
  | c :: cs =>
    match digit c with
    | some d => digitsFrom (10 * acc + d) cs
    | none => none

/-- The decimal text of an integer (`Integer.toString`, `BigInteger.toString`). -/
def intDigits (n : Int) : List Char :=
  if n < 0 then '-' :: Nat.toDigits 10 n.natAbs else Nat.toDigits 10 n.natAbs

theorem digit_ascii (c : Char) (h : c.isDigit = true) : digit c = some (c.toNat - '0'.toNat) := by
  simp only [Char.isDigit, Bool.and_eq_true, decide_eq_true_eq, ge_iff_le, UInt32.le_iff_toNat_le] at h
  have h1 : 48 ≤ c.toNat := h.1
  have h2 : c.toNat ≤ 57 := h.2
  have h3 : (decide (0x0030 ≤ c.toNat) && decide (c.toNat < 0x0030 + 10)) = true := by
    simp only [Bool.and_eq_true, decide_eq_true_eq]; omega
  simp only [digit, digitZeros, List.find?_cons, h3, Option.map_some]
  rfl

theorem digitsFrom_ascii (cs : List Char) (h : ∀ c ∈ cs, c.isDigit = true) (acc : Nat) :
    digitsFrom acc cs = some (Nat.ofDigitChars 10 cs acc) := by
  induction cs generalizing acc with
  | nil => rfl
  | cons c cs ih =>
    simp only [digitsFrom, digit_ascii c (h c List.mem_cons_self), Nat.ofDigitChars_cons]
    exact ih (fun d hd => h d (List.mem_cons_of_mem _ hd)) _

theorem digitsFrom_none {cs : List Char} {c : Char} (hc : c ∈ cs) (hd : digit c = none) (acc : Nat) :
    digitsFrom acc cs = none := by
  induction cs generalizing acc with
  | nil => cases hc
  | cons b cs ih =>
    rcases List.mem_cons.mp hc with rfl | hc
    · simp only [digitsFrom, hd]
    · cases hb : digit b with
      | none => simp only [digitsFrom, hb]
      | some d => simp only [digitsFrom, hb]; exact ih hc _

theorem isDigit_toDigits {n : Nat} {c : Char} (h : c ∈ Nat.toDigits 10 n) : c.isDigit = true :=
  Nat.isDigit_of_mem_toDigits (by decide) (by decide) h

theorem digitsFrom_toDigits (n : Nat) : digitsFrom 0 (Nat.toDigits 10 n) = some n := by
  rw [digitsFrom_ascii _ (fun _ => isDigit_toDigits), Nat.ofDigitChars_ten_toDigits]

/-! ## `Integer.valueOf` -/

/-- What a Java `int` holds. -/
def IsInt (n : Int) : Prop := -2147483648 ≤ n ∧ n ≤ 2147483647

instance (n : Int) : Decidable (IsInt n) := inferInstanceAs (Decidable (_ ∧ _))

/-- An optional sign and what follows it. -/
def splitSign : List Char → Bool × List Char
  | '-' :: cs => (true, cs)
  | '+' :: cs => (false, cs)
  | cs => (false, cs)

def applySign (neg : Bool) (n : Nat) : Int := if neg then -(n : Int) else n

/-- `Integer.valueOf(s)`. -/
def Integer.valueOf (s : String) : Option Int :=
  let (neg, cs) := splitSign s.toList
  if cs = [] then none
  else (digitsFrom 0 cs).bind fun n =>
    if IsInt (applySign neg n) then some (applySign neg n) else none

theorem splitSign_digit {cs : List Char} (h : ∀ c ∈ cs, c.isDigit = true) :
    splitSign cs = (false, cs) := by
  unfold splitSign
  split
  · exact absurd (h '-' List.mem_cons_self) (by decide)
  · exact absurd (h '+' List.mem_cons_self) (by decide)
  · rfl

theorem splitSign_intDigits (n : Int) :
    splitSign (intDigits n) = (decide (n < 0), Nat.toDigits 10 n.natAbs) := by
  unfold intDigits
  split
  · next h => simp [splitSign, h]
  · next h => rw [splitSign_digit (fun _ => isDigit_toDigits)]; simp [h]

theorem applySign_natAbs (n : Int) : applySign (decide (n < 0)) n.natAbs = n := by
  unfold applySign
  by_cases h : n < 0
  · simp only [h, decide_true, if_true]; omega
  · simp only [h, decide_false, Bool.false_eq_true, if_false]; omega

/-- An integer's own text is read back if it fits. -/
theorem valueOf_intDigits (n : Int) :
    Integer.valueOf (String.ofList (intDigits n)) = if IsInt n then some n else none := by
  simp only [Integer.valueOf, String.toList_ofList, splitSign_intDigits,
    Nat.toDigits_ne_nil, if_false, digitsFrom_toDigits, Option.bind_some, applySign_natAbs]

theorem isInt_of_valueOf {s : String} {n : Int} (h : Integer.valueOf s = some n) : IsInt n := by
  rw [Integer.valueOf] at h
  obtain ⟨neg, cs⟩ := splitSign s.toList
  simp only at h
  split_ifs at h
  obtain ⟨k, -, h⟩ := Option.bind_eq_some_iff.mp h
  split_ifs at h with hint
  cases h
  exact hint

/-- A text with a character that is neither its leading sign nor a digit is rejected. -/
theorem valueOf_none {s : String} {c : Char} (hc : c ∈ (splitSign s.toList).2)
    (hd : digit c = none) : Integer.valueOf s = none := by
  unfold Integer.valueOf
  simp only [digitsFrom_none hc hd, Option.bind_none, ite_self]

/-! ## `BigDecimal` -/

/-- An unscaled value and a scale: `unscaled * 10 ^ (-scale)`. -/
structure BigDecimal where
  unscaled : Int
  scale : Int
  isInt : IsInt scale
  deriving DecidableEq

namespace BigDecimal

/-- `BigDecimal.ZERO`. -/
def zero : BigDecimal := ⟨0, 0, by decide⟩

/-- The exponent after `e` or `E`: an optional sign and at least one digit. -/
def parseExp (cs : List Char) : Option Int :=
  let (neg, ds) := splitSign cs
  if ds = [] then none
  else (digitsFrom 0 ds).bind fun n =>
    if IsInt (applySign neg n) then some (applySign neg n) else none

/-- The digit loop of the constructor: `u` is the number read so far, `scl` the
digits read after the point, `dot` whether the point was read, `any` whether a
digit was. -/
def scan : List Char → Nat → Int → Bool → Bool → Option (Nat × Int)
  | [], u, scl, _, any => if any then some (u, scl) else none
  | c :: cs, u, scl, dot, any =>
    match digit c with
    | some d => scan cs (10 * u + d) (if dot then scl + 1 else scl) dot true
    | none =>
      if c = '.' then (if dot then none else scan cs u scl true any)
      else if c = 'e' ∨ c = 'E' then
        (parseExp cs).bind fun e => if any then some (u, scl - e) else none
      else none

/-- `new BigDecimal(s)`. -/
def ofString (s : String) : Option BigDecimal :=
  let (neg, cs) := splitSign s.toList
  (scan cs 0 0 false false).bind fun r =>
    if h : IsInt r.2 then some ⟨applySign neg r.1, r.2, h⟩ else none

/-- The unscaled value at the scale `s` (not below the decimal's own). -/
def rescaled (d : BigDecimal) (s : Int) : Int := d.unscaled * 10 ^ (s - d.scale).toNat

/-- Raising to the scale `s` needs more zeros than `checkScale` lets through. -/
def RaiseFails (d : BigDecimal) (s : Int) : Prop := d.unscaled ≠ 0 ∧ 2147483647 < s - d.scale

instance (d : BigDecimal) (s : Int) : Decidable (d.RaiseFails s) :=
  inferInstanceAs (Decidable (_ ∧ _))

theorem isInt_max {m n : Int} (hm : IsInt m) (hn : IsInt n) : IsInt (max m n) := by
  unfold IsInt at *; omega

def add (a b : BigDecimal) : Option BigDecimal :=
  let s := max a.scale b.scale
  if a.RaiseFails s ∨ b.RaiseFails s then none
  else some ⟨a.rescaled s + b.rescaled s, s, isInt_max a.isInt b.isInt⟩

def negate (d : BigDecimal) : BigDecimal := ⟨-d.unscaled, d.scale, d.isInt⟩

def subtract (a b : BigDecimal) : Option BigDecimal := a.add b.negate

def compareTo (a b : BigDecimal) : Ordering :=
  compare (a.rescaled (max a.scale b.scale)) (b.rescaled (max a.scale b.scale))

/-- `layoutChars`: the digits `coeff` of the unscaled value laid out at a scale other than 0. -/
def layoutChars (coeff : List Char) (scale : Int) : List Char :=
  let adjusted : Int := -scale + ((coeff.length : Int) - 1)
  if 0 ≤ scale ∧ -6 ≤ adjusted then
    let pad : Int := scale - coeff.length
    if 0 ≤ pad then '0' :: '.' :: (List.replicate pad.toNat '0' ++ coeff)
    else coeff.take (-pad).toNat ++ '.' :: coeff.drop (-pad).toNat
  else
    coeff.take 1 ++ (if 1 < coeff.length then '.' :: coeff.drop 1 else []) ++
      (if adjusted ≠ 0 then 'E' :: ((if 0 < adjusted then ['+'] else []) ++ intDigits adjusted)
       else [])

/-- `d.toString()`. -/
def toString (d : BigDecimal) : String :=
  if d.scale = 0 then String.ofList (intDigits d.unscaled)
  else
    let body := layoutChars (Nat.toDigits 10 d.unscaled.natAbs) d.scale
    String.ofList (if d.unscaled < 0 then '-' :: body else body)

/-- The number a decimal denotes. -/
def toRat (d : BigDecimal) : ℚ := d.unscaled * (10 : ℚ) ^ (-d.scale)

/-! ### Arithmetic -/

theorem rescaled_toRat (d : BigDecimal) {s : Int} (hs : d.scale ≤ s) :
    (d.rescaled s : ℚ) * (10 : ℚ) ^ (-s) = d.toRat := by
  have hten : (10 : ℚ) ≠ 0 := by norm_num
  have hpow : (10 : ℚ) ^ (s - d.scale).toNat = (10 : ℚ) ^ (s - d.scale) := by
    rw [← zpow_natCast, Int.toNat_of_nonneg (by omega)]
  unfold rescaled toRat
  push_cast
  rw [hpow, mul_assoc, ← zpow_add₀ hten]
  congr 2
  ring

theorem toRat_zero : zero.toRat = 0 := by simp [zero, toRat]

theorem toRat_negate (d : BigDecimal) : d.negate.toRat = -d.toRat := by
  simp [negate, toRat]

theorem add_scale {a b c : BigDecimal} (h : a.add b = some c) : c.scale = max a.scale b.scale := by
  simp only [add] at h
  split at h
  · cases h
  · cases h; rfl

theorem toRat_add {a b c : BigDecimal} (h : a.add b = some c) : c.toRat = a.toRat + b.toRat := by
  simp only [add] at h
  split at h
  · cases h
  · cases h
    rw [← rescaled_toRat a (le_max_left a.scale b.scale),
      ← rescaled_toRat b (le_max_right a.scale b.scale), ← add_mul, ← Int.cast_add]
    rfl

theorem toRat_subtract {a b c : BigDecimal} (h : a.subtract b = some c) :
    c.toRat = a.toRat - b.toRat := by
  rw [toRat_add h, toRat_negate, sub_eq_add_neg]

theorem subtract_scale {a b c : BigDecimal} (h : a.subtract b = some c) :
    c.scale = max a.scale b.scale :=
  add_scale (b := b.negate) h

/-- Numbers without fraction digits are always added. -/
theorem add_of_scale_zero {a b : BigDecimal} (ha : a.scale = 0) (hb : b.scale = 0) :
    ∃ c, a.add b = some c := by
  have hraise (d : BigDecimal) (hd : d.scale = 0) : ¬ d.RaiseFails (max a.scale b.scale) := by
    rintro ⟨-, h⟩
    omega
  unfold add
  rw [if_neg fun h => h.elim (hraise a ha) (hraise b hb)]
  exact ⟨_, rfl⟩

/-- The sum of `acc` and the decimals `ds`, added one after the other. -/
def sumFrom (acc : BigDecimal) : List BigDecimal → Option BigDecimal
  | [] => some acc
  | d :: ds => (acc.add d).bind fun acc' => sumFrom acc' ds

theorem toRat_sumFrom {acc s : BigDecimal} {ds : List BigDecimal} (h : sumFrom acc ds = some s) :
    s.toRat = acc.toRat + (ds.map toRat).sum := by
  induction ds generalizing acc with
  | nil =>
    cases h
    simp
  | cons d ds ih =>
    simp only [sumFrom, Option.bind_eq_some_iff] at h
    obtain ⟨acc', hadd, hrest⟩ := h
    rw [ih hrest, toRat_add hadd, List.map_cons, List.sum_cons, add_assoc]

/-- A sum has no fraction digits exactly if none of its terms has any. -/
theorem scale_sumFrom {acc s : BigDecimal} {ds : List BigDecimal} (h : sumFrom acc ds = some s) :
    acc.scale ≤ s.scale ∧ (s.scale ≤ 0 ↔ acc.scale ≤ 0 ∧ ∀ d ∈ ds, d.scale ≤ 0) := by
  induction ds generalizing acc with
  | nil =>
    cases h
    exact ⟨le_refl _, by simp⟩
  | cons d ds ih =>
    simp only [sumFrom, Option.bind_eq_some_iff] at h
    obtain ⟨acc', hadd, hrest⟩ := h
    obtain ⟨hle, hiff⟩ := ih hrest
    have hmax : acc'.scale = max acc.scale d.scale := add_scale hadd
    constructor
    · omega
    · rw [hiff, hmax]
      constructor
      · rintro ⟨h1, h2⟩
        refine ⟨by omega, ?_⟩
        intro e he
        rcases List.mem_cons.mp he with rfl | he
        · omega
        · exact h2 e he
      · rintro ⟨h1, h2⟩
        have h3 := h2 d List.mem_cons_self
        exact ⟨by omega, fun e he => h2 e (List.mem_cons_of_mem _ he)⟩

/-- `compareTo` compares the numbers denoted. -/
theorem compareTo_lt (a b : BigDecimal) : a.compareTo b = .lt ↔ a.toRat < b.toRat := by
  have hpos : (0 : ℚ) < (10 : ℚ) ^ (-(max a.scale b.scale)) := by positivity
  unfold compareTo
  rw [compare_lt_iff_lt, ← rescaled_toRat a (le_max_left a.scale b.scale),
    ← rescaled_toRat b (le_max_right a.scale b.scale), mul_lt_mul_iff_left₀ hpos, Int.cast_lt]

theorem toRat_of_scale_zero {d : BigDecimal} (h : d.scale = 0) : d.toRat = d.unscaled := by
  simp [toRat, h]

/-! ### Text -/

theorem scan_ascii {cs : List Char} (h : ∀ c ∈ cs, c.isDigit = true) (u : Nat) (any : Bool)
    (hany : any = true ∨ cs ≠ []) :
    scan cs u 0 false any = some (Nat.ofDigitChars 10 cs u, 0) := by
  induction cs generalizing u any with
  | nil =>
    rcases hany with rfl | hne
    · rfl
    · exact absurd rfl hne
  | cons c cs ih =>
    simp only [scan, digit_ascii c (h c List.mem_cons_self), Nat.ofDigitChars_cons]
    exact ih (fun d hd => h d (List.mem_cons_of_mem _ hd)) _ true (Or.inl rfl)

/-- An integral decimal reads back from its own text. -/
theorem ofString_toString {d : BigDecimal} (h : d.scale = 0) : ofString d.toString = some d := by
  obtain ⟨u, s, hint⟩ := d
  simp only at h
  subst h
  have hscan : scan (Nat.toDigits 10 u.natAbs) 0 0 false false = some (u.natAbs, 0) := by
    rw [scan_ascii (fun _ => isDigit_toDigits) 0 false (Or.inr Nat.toDigits_ne_nil),
      Nat.ofDigitChars_ten_toDigits]
  simp only [toString, ofString, if_true, String.toList_ofList, splitSign_intDigits, hscan,
    Option.bind_some, dif_pos hint, applySign_natAbs]

/-- A layout shows a point or an exponent after its first character. -/
theorem mem_layoutChars {coeff : List Char} (scale : Int) (hne : coeff ≠ []) :
    ∃ a l, layoutChars coeff scale = a :: l ∧ (a ∈ coeff ∨ a = '0') ∧ ('.' ∈ l ∨ 'E' ∈ l) := by
  obtain ⟨a, l, rfl⟩ := List.exists_cons_of_ne_nil hne
  unfold layoutChars
  simp only
  split
  · next hplain =>
    split
    · exact ⟨_, _, rfl, Or.inr rfl, Or.inl List.mem_cons_self⟩
    · next hpad =>
      obtain ⟨n, hn⟩ : ∃ n, (-(scale - ((a :: l).length : Int))).toNat = n + 1 :=
        ⟨(-(scale - ((a :: l).length : Int))).toNat - 1, by omega⟩
      rw [hn]
      exact ⟨a, l.take n ++ '.' :: l.drop n, by simp, Or.inl List.mem_cons_self,
        Or.inl (by simp)⟩
  · next hsci =>
    simp only [List.take_succ_cons, List.take_zero, List.cons_append, List.nil_append]
    refine ⟨a, _, rfl, Or.inl List.mem_cons_self, ?_⟩
    have hadj : -scale + (((a :: l).length : Int) - 1) ≠ 0 := by
      simp only [List.length_cons] at hsci ⊢
      push_cast at hsci ⊢
      omega
    rw [if_pos hadj]
    exact Or.inr (by simp)

theorem digit_point : digit '.' = none := by decide

theorem digit_E : digit 'E' = none := by decide

/-- **A decimal's text as an `int`.**  `Integer.valueOf` takes the text of a decimal
exactly if the scale is 0 and the unscaled value fits an `int`. -/
theorem valueOf_toString (d : BigDecimal) :
    Integer.valueOf d.toString = if d.scale = 0 ∧ IsInt d.unscaled then some d.unscaled else none := by
  by_cases hs : d.scale = 0
  · rw [toString, if_pos hs, valueOf_intDigits]
    simp only [hs, true_and]
  · rw [if_neg (fun h => hs h.1), toString, if_neg hs]
    obtain ⟨a, l, hlay, ha, hl⟩ := mem_layoutChars d.scale
      (Nat.toDigits_ne_nil (n := d.unscaled.natAbs) (b := 10))
    have hdig : a.isDigit = true := by
      rcases ha with ha | rfl
      · exact isDigit_toDigits ha
      · decide
    have hsign : splitSign (a :: l) = (false, a :: l) := by
      unfold splitSign
      split
      · next h => cases h; exact absurd hdig (by decide)
      · next h => cases h; exact absurd hdig (by decide)
      · rfl
    have hmem : '.' ∈ (splitSign (if d.unscaled < 0 then '-' :: a :: l else a :: l)).2 ∨
        'E' ∈ (splitSign (if d.unscaled < 0 then '-' :: a :: l else a :: l)).2 := by
      split
      · exact hl.imp (List.mem_cons_of_mem _) (List.mem_cons_of_mem _)
      · rw [hsign]; exact hl.imp (List.mem_cons_of_mem _) (List.mem_cons_of_mem _)
    rw [hlay]
    rcases hmem with hmem | hmem
    · exact valueOf_none (by rw [String.toList_ofList]; exact hmem) digit_point
    · exact valueOf_none (by rw [String.toList_ofList]; exact hmem) digit_E

example : (ofString "-12.50").map toString = some "-12.50" := by decide

end BigDecimal

end Java
