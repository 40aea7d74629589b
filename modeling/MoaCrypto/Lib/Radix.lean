import Mathlib.Data.Nat.Digits.Lemmas

/-!
# Numbers in a base, most significant digit first

`Nat.digits` read from the other end.  Zeros in front do not count (`ofRadix_zeros_append`); a list
of digits without a zero in front is the one that its number has (`radix_ofRadix`).
-/

namespace Radix

variable {b : Nat}

/-- The number that the digits denote. -/
def ofRadix (b : Nat) (ds : List Nat) : Nat := Nat.ofDigits b ds.reverse

/-- The digits of a number, none for zero. -/
def radix (b n : Nat) : List Nat := (Nat.digits b n).reverse

theorem ofRadix_radix (b n : Nat) : ofRadix b (radix b n) = n := by
  rw [ofRadix, radix, List.reverse_reverse, Nat.ofDigits_digits]

theorem lt_of_mem_radix (hb : 1 < b) {n d : Nat} (h : d ∈ radix b n) : d < b :=
  Nat.digits_lt_base hb (List.mem_reverse.mp h)

theorem radix_eq_nil {n : Nat} : radix b n = [] ↔ n = 0 := by
  rw [radix, List.reverse_eq_nil_iff, Nat.digits_eq_nil_iff_eq_zero]

/-- The first digit of a number is not zero. -/
theorem head_radix_ne_zero {n : Nat} {d : Nat} {ds : List Nat} (h : radix b n = d :: ds) : d ≠ 0 := by
  have hdigits : Nat.digits b n = ds.reverse ++ [d] := by
    rw [← List.reverse_cons, ← h, radix, List.reverse_reverse]
  have hn : n ≠ 0 := by
    rintro rfl
    rw [Nat.digits_zero] at hdigits
    simp at hdigits
  have hlast := Nat.getLast_digit_ne_zero b hn
  simpa [hdigits] using hlast

theorem radix_ofRadix (hb : 1 < b) {ds : List Nat} (hlt : ∀ d ∈ ds, d < b)
    (hhead : ∀ d rest, ds = d :: rest → d ≠ 0) : radix b (ofRadix b ds) = ds := by
  rw [radix, ofRadix, Nat.digits_ofDigits b hb, List.reverse_reverse]
  · exact fun d hd => hlt d (List.mem_reverse.mp hd)
  · intro hne
    cases ds with
    | nil => exact absurd rfl hne
    | cons d rest =>
      rw [List.getLast_reverse, List.head_cons]
      exact hhead d rest rfl

theorem ofRadix_zeros_append (b k : Nat) (ds : List Nat) :
    ofRadix b (List.replicate k 0 ++ ds) = ofRadix b ds := by
  rw [ofRadix, List.reverse_append, List.reverse_replicate, Nat.ofDigits_append_replicate_zero, ofRadix]

/-- Every list is copies of `z` in front of a list that does not start with it. -/
theorem exists_replicate_append {α : Type} (z : α) (l : List α) :
    ∃ k rest, l = List.replicate k z ++ rest ∧ ∀ a l', rest = a :: l' → a ≠ z := by
  classical
  induction l with
  | nil => exact ⟨0, [], rfl, by simp⟩
  | cons a l ih =>
    by_cases ha : a = z
    · obtain ⟨k, rest, rfl, hrest⟩ := ih
      exact ⟨k + 1, rest, by rw [ha]; rfl, hrest⟩
    · refine ⟨0, a :: l, rfl, ?_⟩
      rintro a' l' h
      rw [← (List.cons.inj h).1]
      exact ha

/-! ## A fixed number of digits -/

/-- The last `w` digits of a number. -/
def fixedRadix (b : Nat) : Nat → Nat → List Nat
  | 0, _ => []
  | w + 1, n => fixedRadix b w (n / b) ++ [n % b]

@[simp]
theorem length_fixedRadix (b w n : Nat) : (fixedRadix b w n).length = w := by
  induction w generalizing n with
  | zero => rfl
  | succ w ih => rw [fixedRadix, List.length_append, ih, List.length_singleton]

theorem lt_of_mem_fixedRadix (hb : 0 < b) {w n d : Nat} (h : d ∈ fixedRadix b w n) : d < b := by
  induction w generalizing n with
  | zero => cases h
  | succ w ih =>
    rcases List.mem_append.1 h with h | h
    · exact ih h
    · rw [List.mem_singleton.1 h]
      exact Nat.mod_lt _ hb

theorem ofRadix_concat (b : Nat) (ds : List Nat) (d : Nat) : ofRadix b (ds ++ [d]) = b * ofRadix b ds + d := by
  rw [ofRadix, List.reverse_append, List.reverse_singleton, List.singleton_append, Nat.ofDigits_cons, ofRadix,
    Nat.add_comm]

theorem ofRadix_fixedRadix (b w n : Nat) (h : n < b ^ w) : ofRadix b (fixedRadix b w n) = n := by
  induction w generalizing n with
  | zero =>
    rw [Nat.pow_zero] at h
    rw [show n = 0 by omega]
    rfl
  | succ w ih =>
    have hdiv : n / b < b ^ w := Nat.div_lt_of_lt_mul (by rwa [Nat.pow_succ, Nat.mul_comm] at h)
    rw [fixedRadix, ofRadix_concat, ih _ hdiv, Nat.div_add_mod]

/-- The digits of two numbers one after the other are those of one number. -/
theorem fixedRadix_append (hb : 0 < b) (w v x : Nat) {y : Nat} (hy : y < b ^ v) :
    fixedRadix b (w + v) (x * b ^ v + y) = fixedRadix b w x ++ fixedRadix b v y := by
  induction v generalizing y with
  | zero =>
    rw [Nat.pow_zero] at hy
    rw [show y = 0 by omega, Nat.pow_zero, Nat.mul_one]
    simp [fixedRadix]
  | succ v ih =>
    have hdiv : y / b < b ^ v := Nat.div_lt_of_lt_mul (by rwa [Nat.pow_succ, Nat.mul_comm] at hy)
    have hsplit : x * b ^ (v + 1) + y = b * (x * b ^ v) + y := by rw [Nat.pow_succ]; ring
    rw [← Nat.add_assoc, fixedRadix, fixedRadix, hsplit, Nat.mul_add_div hb, Nat.mul_add_mod, ih hdiv,
      List.append_assoc]

/-- Each digit in base `b * b` is two in base `b`. -/
theorem fixedRadix_square (b w n : Nat) :
    fixedRadix b (2 * w) n = (fixedRadix (b * b) w n).flatMap fun d => [d / b, d % b] := by
  induction w generalizing n with
  | zero => rfl
  | succ w ih =>
    have hlow : n % (b * b) % b = n % b := Nat.mod_mul_left_mod n b b
    have hhigh : n % (b * b) / b = n / b % b := Nat.mod_mul_right_div_self n b b
    rw [show 2 * (w + 1) = 2 * w + 1 + 1 by omega, fixedRadix, fixedRadix, fixedRadix, List.flatMap_append, ← ih,
      Nat.div_div_eq_div_mul, List.flatMap_singleton, hlow, hhigh, List.append_assoc]
    rfl

end Radix
