import MoaCrypto.Java.Text
import Mathlib.Data.List.Basic
import Mathlib.Data.List.DropRight

/-!
# `java.util.StringTokenizer` and `String.split`

The tokens of a text are its parts between the delimiters; empty parts are skipped.
A text that is put together with a delimiter in between has the tokens of both parts
(`tokens_append`).  `split` keeps empty parts, but not at the end.
-/

namespace Java

/-- What `nextToken` returns, call after call, for `new StringTokenizer(s, delim)`. -/
def tokens (delim : Char) (s : String) : List String :=
  ((s.toList.splitOn delim).filter fun part => part ≠ []).map String.ofList

theorem tokens_append (delim : Char) (s t : String) :
    tokens delim (s ++ String.ofList [delim] ++ t) = tokens delim s ++ tokens delim t := by
  rw [tokens, toList_separated, List.splitOn_append_cons_self, List.filter_append, List.map_append]
  rfl

/-- Three tokens with delimiters in between. -/
theorem tokens_three {delim : Char} {x y z : String} (hx : tokens delim x = [x]) (hy : tokens delim y = [y])
    (hz : tokens delim z = [z]) :
    tokens delim (x ++ String.ofList [delim] ++ y ++ String.ofList [delim] ++ z) = [x, y, z] := by
  rw [tokens_append, tokens_append, hx, hy, hz]
  rfl

/-- A text without delimiters is one token, or none. -/
theorem tokens_of_not_mem {delim : Char} {s : String} (h : delim ∉ s.toList) :
    tokens delim s = if s = "" then [] else [s] := by
  rw [tokens, List.splitOn_eq_singleton h]
  by_cases hs : s = ""
  · subst hs
    rfl
  · have hne : s.toList ≠ [] := fun he => hs (String.toList_eq_nil_iff.mp he)
    rw [if_neg hs, List.filter_cons_of_pos (by simpa using hne), List.filter_nil, List.map_cons,
      List.map_nil, String.ofList_toList]

theorem not_mem_of_mem_splitOn {delim : Char} {cs part : List Char}
    (h : part ∈ cs.splitOn delim) : delim ∉ part := by
  induction cs generalizing part with
  | nil =>
    rw [List.splitOn_nil, List.mem_singleton] at h
    rw [h]
    exact List.not_mem_nil
  | cons c cs ih =>
    rw [List.splitOn_cons_eq_if_modifyHead] at h
    by_cases hc : (c == delim) = true
    · rw [if_pos hc] at h
      rcases List.mem_cons.mp h with rfl | h
      · exact List.not_mem_nil
      · exact ih h
    · rw [if_neg hc] at h
      obtain ⟨head, parts, hparts⟩ := List.exists_cons_of_ne_nil (List.splitOn_ne_nil delim cs)
      rw [hparts, List.modifyHead_cons] at h
      rcases List.mem_cons.mp h with rfl | h
      · have hhead : delim ∉ head := ih (by rw [hparts]; exact List.mem_cons_self)
        intro hmem
        rcases List.mem_cons.mp hmem with hd | hmem
        · exact hc (by simp [hd])
        · exact hhead hmem
      · exact ih (by rw [hparts]; exact List.mem_cons_of_mem _ h)

/-- A token is not empty and has no delimiter. -/
theorem token_of_mem {delim : Char} {s t : String} (h : t ∈ tokens delim s) :
    delim ∉ t.toList ∧ t ≠ "" := by
  unfold tokens at h
  obtain ⟨part, hpart, rfl⟩ := List.mem_map.mp h
  obtain ⟨hmem, hne⟩ := List.mem_filter.mp hpart
  refine ⟨?_, ?_⟩
  · rw [String.toList_ofList]
    exact not_mem_of_mem_splitOn hmem
  · intro he
    have hnil : part = [] := by rw [← String.toList_ofList (l := part), he]; rfl
    exact absurd hnil (by simpa using hne)

/-- `s.split` with an expression for one character. -/
def split (delim : Char) (s : String) : List String :=
  if delim ∈ s.toList then ((s.toList.splitOn delim).rdropWhile fun part => part = []).map String.ofList
  else [s]

/-- Nothing is dropped where the last part is not empty. -/
theorem split_of_last {delim : Char} {s : String} {parts : List (List Char)} {last : String} (hmem : delim ∈ s.toList)
    (hparts : s.toList.splitOn delim = parts ++ [last.toList]) (hne : last ≠ "") :
    split delim s = parts.map String.ofList ++ [last] := by
  have hlast : ¬ last.toList = [] := fun he => hne (String.toList_eq_nil_iff.mp he)
  rw [split, if_pos hmem, hparts, List.rdropWhile_concat_neg _ _ _ (by simpa using hlast), List.map_append,
    List.map_singleton, String.ofList_toList]

theorem split_two {delim : Char} {x y : String} (hx : delim ∉ x.toList) (hy : delim ∉ y.toList) (hne : y ≠ "") :
    split delim (x ++ String.ofList [delim] ++ y) = [x, y] := by
  have hparts : (x ++ String.ofList [delim] ++ y).toList.splitOn delim = [x.toList] ++ [y.toList] := by
    rw [toList_separated, List.splitOn_append_cons_self, List.splitOn_eq_singleton hx, List.splitOn_eq_singleton hy]
  rw [split_of_last (by simp) hparts hne, List.map_singleton, String.ofList_toList, List.singleton_append]

theorem split_three {delim : Char} {x y z : String} (hx : delim ∉ x.toList) (hy : delim ∉ y.toList)
    (hz : delim ∉ z.toList) (hne : z ≠ "") :
    split delim (x ++ String.ofList [delim] ++ y ++ String.ofList [delim] ++ z) = [x, y, z] := by
  have hparts : (x ++ String.ofList [delim] ++ y ++ String.ofList [delim] ++ z).toList.splitOn delim =
      [x.toList, y.toList] ++ [z.toList] := by
    rw [toList_separated, List.splitOn_append_cons_self, toList_separated, List.splitOn_append_cons_self,
      List.splitOn_eq_singleton hx, List.splitOn_eq_singleton hy, List.splitOn_eq_singleton hz]
    rfl
  rw [split_of_last (by simp) hparts hne, List.map_cons, List.map_singleton, String.ofList_toList,
    String.ofList_toList]
  rfl

/-- A token is its own only token. -/
theorem tokens_token {delim : Char} {s t : String} (h : t ∈ tokens delim s) :
    tokens delim t = [t] := by
  obtain ⟨hdelim, hne⟩ := token_of_mem h
  rw [tokens_of_not_mem hdelim, if_neg hne]

theorem mem_of_mem_splitOn {delim c : Char} {cs part : List Char} (h : part ∈ cs.splitOn delim)
    (hc : c ∈ part) : c ∈ cs := by
  induction cs generalizing part with
  | nil =>
    rw [List.splitOn_nil, List.mem_singleton] at h
    rwa [h] at hc
  | cons d cs ih =>
    rw [List.splitOn_cons_eq_if_modifyHead] at h
    split at h
    · rcases List.mem_cons.mp h with rfl | h
      · exact absurd hc List.not_mem_nil
      · exact List.mem_cons_of_mem _ (ih h hc)
    · obtain ⟨head, parts, hparts⟩ := List.exists_cons_of_ne_nil (List.splitOn_ne_nil delim cs)
      rw [hparts, List.modifyHead_cons] at h
      rw [hparts] at ih
      rcases List.mem_cons.mp h with rfl | h
      · rcases List.mem_cons.mp hc with rfl | hc
        · exact List.mem_cons_self
        · exact List.mem_cons_of_mem _ (ih List.mem_cons_self hc)
      · exact List.mem_cons_of_mem _ (ih (List.mem_cons_of_mem _ h) hc)

/-- A token's characters are those of the text. -/
theorem mem_of_mem_token {delim c : Char} {s t : String} (h : t ∈ tokens delim s) (hc : c ∈ t.toList) :
    c ∈ s.toList := by
  unfold tokens at h
  obtain ⟨part, hpart, rfl⟩ := List.mem_map.mp h
  rw [String.toList_ofList] at hc
  exact mem_of_mem_splitOn (List.mem_filter.mp hpart).1 hc

/-- The text after the last delimiter. -/
theorem exists_last_part (delim : Char) (cs : List Char) :
    delim ∉ cs ∨ ∃ before part, cs = before ++ delim :: part ∧ delim ∉ part := by
  induction cs with
  | nil => exact Or.inl List.not_mem_nil
  | cons c cs ih =>
    rcases ih with hnot | ⟨before, part, rfl, hpart⟩
    · by_cases hc : c = delim
      · subst hc
        exact Or.inr ⟨[], cs, rfl, hnot⟩
      · exact Or.inl fun h => (List.mem_cons.mp h).elim (fun h => hc h.symm) hnot
    · exact Or.inr ⟨c :: before, part, rfl, hpart⟩

/-- A part without delimiters right after a text is a token, or prolongs the last one. -/
theorem tokens_append_part {delim : Char} (s : String) {t : String} (ht : delim ∉ t.toList) (hne : t ≠ "") :
    tokens delim (s ++ t) = tokens delim s ++ [t] ∨
      ∃ init last, tokens delim s = init ++ [last] ∧ tokens delim (s ++ t) = init ++ [last ++ t] := by
  have hone : ∀ part : String, delim ∉ part.toList → tokens delim (part ++ t) = [part ++ t] := by
    intro part hpart
    have hnot : delim ∉ (part ++ t).toList := by
      rw [String.toList_append]
      exact fun h => (List.mem_append.mp h).elim hpart ht
    rw [tokens_of_not_mem hnot, if_neg]
    intro h
    rw [String.append_eq_empty_iff] at h
    exact hne h.2
  have hpart : ∀ part : String, delim ∉ part.toList →
      tokens delim part = [] ∧ part = "" ∨ tokens delim part = [part] := by
    intro part hnot
    rw [tokens_of_not_mem hnot]
    by_cases h : part = ""
    · exact Or.inl ⟨if_pos h, h⟩
    · exact Or.inr (if_neg h)
  rcases exists_last_part delim s.toList with hnot | ⟨before, part, hs, hnot⟩
  · rw [hone s hnot]
    rcases hpart s hnot with ⟨htokens, rfl⟩ | htokens
    · left
      rw [htokens, String.empty_append]
      rfl
    · exact Or.inr ⟨[], s, htokens, rfl⟩
  · have hs' : s = String.ofList before ++ String.ofList [delim] ++ String.ofList part := by
      rw [← String.toList_inj, toList_separated, hs, String.toList_ofList, String.toList_ofList]
    have hnot' : delim ∉ (String.ofList part).toList := by rwa [String.toList_ofList]
    have happend := tokens_append delim (String.ofList before) (String.ofList part ++ t)
    rw [← String.append_assoc, ← hs', hone _ hnot'] at happend
    rw [happend]
    have htokens := tokens_append delim (String.ofList before) (String.ofList part)
    rw [← hs'] at htokens
    rw [htokens]
    rcases hpart _ hnot' with ⟨hempty, hnil⟩ | hlast
    · left
      rw [hempty, hnil, String.empty_append, List.append_nil]
    · exact Or.inr ⟨_, String.ofList part, by rw [hlast], rfl⟩

end Java
