import Mathlib.Algebra.Order.BigOperators.Group.List
import Mathlib.Algebra.BigOperators.Group.List.Basic
import Mathlib.Data.List.Dedup
import Mathlib.Data.List.Perm.Subperm
import Mathlib.Tactic.Abel

/-!
# Weights of the rows of a list

`weigh w p l` is the sum of the weights `w` of the members of `l` that meet `p`.
`weigh_keys` splits such a sum by a key: the members whose key is among the
distinct keys `ks` weigh what those of each single key weigh together.  Distinct members that weigh
as much as the whole list are all of it that has a weight (`mem_of_sum_le`).
-/

namespace Weigh

variable {α κ M : Type*} [AddCommMonoid M]

/-- The weight of the members of `l` that meet `p`. -/
def weigh (w : α → M) (p : α → Prop) [DecidablePred p] (l : List α) : M :=
  (l.map fun a => if p a then w a else 0).sum

section

variable (w : α → M) (p q : α → Prop) [DecidablePred p] [DecidablePred q]

@[simp] theorem weigh_nil : weigh w p [] = 0 := rfl

@[simp] theorem weigh_cons (a : α) (l : List α) :
    weigh w p (a :: l) = (if p a then w a else 0) + weigh w p l := by
  simp [weigh]

theorem weigh_append (l m : List α) : weigh w p (l ++ m) = weigh w p l + weigh w p m := by
  simp [weigh]

theorem weigh_congr {l : List α} (h : ∀ a ∈ l, p a ↔ q a) : weigh w p l = weigh w q l := by
  unfold weigh
  congr 1
  apply List.map_congr_left
  intro a ha
  exact if_congr (h a ha) rfl rfl

/-- A change of the members that keeps their weights. -/
theorem weigh_map (f : α → α) (hf : ∀ a, w (f a) = w a) (l : List α)
    [DecidablePred fun a => p (f a)] : weigh w p (l.map f) = weigh w (fun a => p (f a)) l := by
  unfold weigh
  rw [List.map_map]
  congr 1
  apply List.map_congr_left
  intro a _
  simp only [Function.comp_apply, hf]

theorem weigh_split (l : List α) :
    weigh w p l = weigh w (fun a => p a ∧ q a) l + weigh w (fun a => p a ∧ ¬ q a) l := by
  induction l with
  | nil => simp
  | cons a l ih =>
    simp only [weigh_cons, ih]
    by_cases hp : p a
    · by_cases hq : q a
      · simp only [hp, hq, and_self, not_true_eq_false, and_false, if_true, if_false, zero_add]
        abel
      · simp only [hp, hq, and_false, not_false_eq_true, and_self, if_true, if_false, zero_add]
        abel
    · simp only [hp, false_and, if_false, zero_add]

theorem weigh_all {l : List α} (h : ∀ a ∈ l, p a) : weigh w p l = (l.map w).sum := by
  unfold weigh
  congr 1
  apply List.map_congr_left
  intro a ha
  rw [if_pos (h a ha)]

theorem weigh_none {l : List α} (h : ∀ a ∈ l, ¬ p a) : weigh w p l = 0 := by
  induction l with
  | nil => rfl
  | cons a l ih =>
    rw [weigh_cons, if_neg (h a List.mem_cons_self), zero_add]
    exact ih fun b hb => h b (List.mem_cons_of_mem _ hb)

end

/-- **By key.**  The members with a key in `ks`, key by key. -/
theorem weigh_keys [DecidableEq κ] (w : α → M) (p : α → Prop) [DecidablePred p] (key : α → κ)
    {ks : List κ} (hks : ks.Nodup) (l : List α) :
    weigh w (fun a => p a ∧ key a ∈ ks) l =
      (ks.map fun k => weigh w (fun a => p a ∧ key a = k) l).sum := by
  induction ks with
  | nil =>
    rw [List.map_nil, List.sum_nil]
    exact weigh_none _ _ fun a _ h => by simp at h
  | cons k ks ih =>
    rw [List.nodup_cons] at hks
    rw [List.map_cons, List.sum_cons, ← ih hks.2,
      weigh_split w (fun a => p a ∧ key a ∈ k :: ks) (fun a => key a = k)]
    congr 1
    · apply weigh_congr
      intro a _
      constructor
      · rintro ⟨⟨hp, -⟩, hk⟩; exact ⟨hp, hk⟩
      · rintro ⟨hp, hk⟩; exact ⟨⟨hp, by rw [hk]; exact List.mem_cons_self⟩, hk⟩
    · apply weigh_congr
      intro a _
      constructor
      · rintro ⟨⟨hp, hm⟩, hk⟩
        rcases List.mem_cons.mp hm with h | h
        · exact absurd h hk
        · exact ⟨hp, h⟩
      · rintro ⟨hp, hm⟩
        refine ⟨⟨hp, List.mem_cons_of_mem _ hm⟩, ?_⟩
        intro hk
        rw [hk] at hm
        exact hks.1 hm

section

variable [PartialOrder M] [IsOrderedAddMonoid M] (w : α → M)
  (p q : α → Prop) [DecidablePred p] [DecidablePred q]

theorem weigh_nonneg {l : List α} (hw : ∀ a ∈ l, 0 ≤ w a) : 0 ≤ weigh w p l := by
  apply List.sum_nonneg
  intro x hx
  obtain ⟨a, ha, rfl⟩ := List.mem_map.mp hx
  show 0 ≤ if p a then w a else 0
  split
  · exact hw a ha
  · exact le_refl 0

theorem weigh_mono {l : List α} (hw : ∀ a ∈ l, 0 ≤ w a) (hpq : ∀ a ∈ l, p a → q a) :
    weigh w p l ≤ weigh w q l := by
  apply List.sum_le_sum
  intro a ha
  by_cases hp : p a
  · rw [if_pos hp, if_pos (hpq a ha hp)]
  · rw [if_neg hp]
    split
    · exact hw a ha
    · exact le_refl 0

/-- One member weighs at most what all do. -/
theorem le_weigh {l : List α} (hw : ∀ a ∈ l, 0 ≤ w a) {a : α} (ha : a ∈ l) (hp : p a) :
    w a ≤ weigh w p l := by
  induction l with
  | nil => cases ha
  | cons b l ih =>
    rw [weigh_cons]
    rcases List.mem_cons.mp ha with rfl | ha
    · rw [if_pos hp]
      exact le_add_of_nonneg_right
        (weigh_nonneg w p fun c hc => hw c (List.mem_cons_of_mem _ hc))
    · have h1 := ih (fun c hc => hw c (List.mem_cons_of_mem _ hc)) ha
      have h2 : 0 ≤ if p b then w b else 0 := by
        split
        · exact hw b List.mem_cons_self
        · exact le_refl 0
      exact le_trans h1 (le_add_of_nonneg_left h2)

end

/-! ## Distinct members -/

section

variable {l m : List α} (hnodup : l.Nodup) (hsub : l ⊆ m) (w : α → ℕ)

include hnodup hsub

theorem exists_perm_append : ∃ rest, m.Perm (l ++ rest) := by
  obtain ⟨m', hperm, hsublist⟩ := List.subperm_iff.mp (List.subperm_of_subset hnodup hsub)
  obtain ⟨rest, hrest⟩ := hsublist.exists_perm_append
  exact ⟨rest, hperm.symm.trans hrest⟩

theorem sum_le_of_subset : (l.map w).sum ≤ (m.map w).sum := by
  obtain ⟨rest, hperm⟩ := exists_perm_append hnodup hsub
  rw [(hperm.map w).sum_eq, List.map_append, List.sum_append]
  exact Nat.le_add_right _ _

theorem mem_of_sum_le (hsum : (m.map w).sum ≤ (l.map w).sum) {a : α} (ha : a ∈ m) (hw : w a ≠ 0) :
    a ∈ l := by
  obtain ⟨rest, hperm⟩ := exists_perm_append hnodup hsub
  rw [(hperm.map w).sum_eq, List.map_append, List.sum_append] at hsum
  have hrest : (rest.map w).sum = 0 := by omega
  rcases List.mem_append.mp (hperm.mem_iff.mp ha) with hl | hrestmem
  · exact hl
  · exact absurd (List.sum_eq_zero_iff_forall_eq_nat.mp hrest (w a) (List.mem_map_of_mem hrestmem)) hw

end

end Weigh
