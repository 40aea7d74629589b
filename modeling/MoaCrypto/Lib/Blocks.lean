import Mathlib.Data.List.Induction

/-!
# A list in blocks of `n`

Items come one at a time into a block, and a block that has `n` of them is put away: the full
blocks and the part of a block that is left (`split`).  The two are the only ones that make up the
list (`split_eq`), whatever the items are.
-/

namespace Blocks

variable {α : Type} {n : Nat}

/-- One item more. -/
def push (n : Nat) (p : List (List α) × List α) (x : α) : List (List α) × List α :=
  if p.2.length + 1 = n then (p.1 ++ [p.2 ++ [x]], []) else (p.1, p.2 ++ [x])

/-- The full blocks of a list, and what is left. -/
def split (n : Nat) (xs : List α) : List (List α) × List α := xs.foldl (push n) ([], [])

/-- The blocks `bs` and the rest `r` make up `xs`. -/
structure IsSplit (n : Nat) (xs : List α) (bs : List (List α)) (r : List α) : Prop where
  eq : bs.flatten ++ r = xs
  full : ∀ b ∈ bs, b.length = n
  left : r.length < n

theorem split_concat (xs : List α) (x : α) : split n (xs ++ [x]) = push n (split n xs) x := by
  rw [split, List.foldl_append, List.foldl_cons, List.foldl_nil, ← split]

theorem IsSplit.push {xs : List α} {bs : List (List α)} {r : List α} (h : IsSplit n xs bs r) (x : α) :
    IsSplit n (xs ++ [x]) (push n (bs, r) x).1 (push n (bs, r) x).2 := by
  obtain ⟨heq, hfull, hleft⟩ := h
  have hn : 0 < n := by omega
  by_cases hlast : r.length + 1 = n
  · rw [Blocks.push, if_pos hlast]
    refine ⟨by simp [← heq], ?_, hn⟩
    intro b hb
    rcases List.mem_append.1 hb with hb | hb
    · exact hfull b hb
    · rw [List.mem_singleton.1 hb, List.length_append, List.length_singleton]
      exact hlast
  · rw [Blocks.push, if_neg hlast]
    refine ⟨by simp [← heq], hfull, ?_⟩
    have hmore : (r ++ [x]).length < n := by
      rw [List.length_append, List.length_singleton]
      omega
    exact hmore

theorem isSplit_split (hn : 0 < n) (xs : List α) : IsSplit n xs (split n xs).1 (split n xs).2 := by
  induction xs using List.reverseRecOn with
  | nil => exact ⟨rfl, by simp [split], hn⟩
  | append_singleton xs x ih =>
    rw [split_concat]
    exact ih.push x

/-- Fewer items than a block still needs stay in it. -/
theorem foldl_push_of_lt (bs : List (List α)) (l r : List α) (h : r.length + l.length < n) :
    l.foldl (push n) (bs, r) = (bs, r ++ l) := by
  induction l generalizing r with
  | nil => simp
  | cons x l ih =>
    rw [List.length_cons] at h
    have hpush : push n (bs, r) x = (bs, r ++ [x]) := if_neg (by simp only; omega)
    rw [List.foldl_cons, hpush, ih _ (by rw [List.length_append, List.length_singleton]; omega)]
    simp

/-- As many items as a block has make one. -/
theorem foldl_push_block (bs : List (List α)) (b : List α) (hn : 0 < n) (h : b.length = n) :
    b.foldl (push n) (bs, []) = (bs ++ [b], []) := by
  have hne : b ≠ [] := by
    rintro rfl
    simp only [List.length_nil] at h
    omega
  obtain ⟨l, x, rfl⟩ : ∃ l x, b = l ++ [x] := ⟨_, _, (List.dropLast_concat_getLast hne).symm⟩
  rw [List.length_append, List.length_singleton] at h
  rw [List.foldl_append, foldl_push_of_lt bs l [] (by simp only [List.length_nil]; omega), List.nil_append]
  exact if_pos h

theorem foldl_push_flatten (bs cs : List (List α)) (hn : 0 < n) (h : ∀ b ∈ bs, b.length = n) :
    bs.flatten.foldl (push n) (cs, []) = (cs ++ bs, []) := by
  induction bs generalizing cs with
  | nil => simp
  | cons b bs ih =>
    rw [List.flatten_cons, List.foldl_append,
      foldl_push_block cs b hn (h b List.mem_cons_self),
      ih _ fun b' hb' => h b' (List.mem_cons_of_mem _ hb')]
    simp

/-- A list splits in one way. -/
theorem split_eq {xs : List α} {bs : List (List α)} {r : List α} (h : IsSplit n xs bs r) :
    split n xs = (bs, r) := by
  obtain ⟨rfl, hfull, hleft⟩ := h
  have hn : 0 < n := by omega
  rw [split, List.foldl_append, foldl_push_flatten bs [] hn hfull, List.nil_append,
    foldl_push_of_lt bs r [] (by simpa using hleft), List.nil_append]

/-- With as many items after it as make whole blocks of its rest, a list is whole blocks. -/
theorem split_append {xs ys : List α} {cs : List (List α)} (hn : 0 < n)
    (hcs : cs.flatten = (split n xs).2 ++ ys) (hfull : ∀ c ∈ cs, c.length = n) :
    split n (xs ++ ys) = ((split n xs).1 ++ cs, []) := by
  have h := isSplit_split hn xs
  refine split_eq ⟨?_, ?_, hn⟩
  · rw [List.flatten_append, hcs, List.append_nil, ← List.append_assoc, h.eq]
  · intro b hb
    rcases List.mem_append.1 hb with hb | hb
    · exact h.full b hb
    · exact hfull b hb

theorem length_eq {xs : List α} {bs : List (List α)} {r : List α} (h : IsSplit n xs bs r) :
    xs.length = n * bs.length + r.length := by
  obtain ⟨rfl, hfull, -⟩ := h
  rw [List.length_append, List.length_flatten]
  congr 1
  induction bs with
  | nil => rfl
  | cons b bs ih =>
    rw [List.map_cons, List.sum_cons, hfull b List.mem_cons_self,
      ih fun b' hb' => hfull b' (List.mem_cons_of_mem _ hb'), List.length_cons, Nat.mul_succ, Nat.add_comm]

/-- Lists of one length have as many blocks, and as much is left of them. -/
theorem length_split (hn : 0 < n) (xs : List α) :
    (split n xs).1.length = xs.length / n ∧ (split n xs).2.length = xs.length % n := by
  have h := isSplit_split hn xs
  have hlen := length_eq h
  have hleft := h.left
  rw [hlen, Nat.mul_add_div hn, Nat.mul_add_mod, Nat.div_eq_of_lt hleft, Nat.mod_eq_of_lt hleft]
  exact ⟨rfl, rfl⟩

end Blocks
