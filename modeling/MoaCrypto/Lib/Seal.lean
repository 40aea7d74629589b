import Mathlib.Data.List.Basic

/-!
# Records under a MAC

A `Seal` puts the texts of a record one after the other, without a separator, and takes a MAC of the whole
under a key that is made of the record.  Where neither the MAC nor the key tells two records
apart their texts are the same exactly if they have the same lengths (`Agree.texts_eq_iff`): what moves from
the end of a text to the front of the next is not seen (`text_eq_of_shift`).
-/

structure Seal (R K M : Type) where
  texts : R → List String
  key : R → Option K
  mac : (text : String) → K → M

namespace Seal

variable {R K M : Type} (S : Seal R K M)

/-- The text under the MAC. -/
def text (r : R) : String := String.join (S.texts r)

/-- The MAC of a record. -/
def sealed (r : R) : Option M := (S.key r).map (S.mac (S.text r))

/-- Text by text as many characters. -/
def SameLengths (r r' : R) : Prop := (S.texts r).map String.length = (S.texts r').map String.length

instance (r r' : R) : Decidable (S.SameLengths r r') := inferInstanceAs (Decidable (_ = _))

/-- The same text under the same key. -/
structure Agree (r r' : R) : Prop where
  text : S.text r = S.text r'
  key : S.key r = S.key r'

/-- The MACs of two records, if they are the same, are of the same text under the same key. -/
def NoCollision (r r' : R) : Prop :=
  ∀ k k', S.key r = some k → S.key r' = some k' →
    S.mac (S.text r) k = S.mac (S.text r') k' → S.text r = S.text r' ∧ k = k'

variable {S} {r r' : R}

theorem Agree.texts_eq_iff (h : S.Agree r r') : S.texts r = S.texts r' ↔ S.SameLengths r r' := by
  constructor
  · intro htexts
    unfold SameLengths
    rw [htexts]
  · intro hlengths
    have hflat : ((S.texts r).map String.toList).flatten = ((S.texts r').map String.toList).flatten := by
      have htext : (String.join (S.texts r)).toList = (String.join (S.texts r')).toList :=
        congrArg String.toList h.text
      rwa [String.toList_join, String.toList_join, List.flatMap_def, List.flatMap_def] at htext
    have hsizes : ((S.texts r).map String.toList).map List.length =
        ((S.texts r').map String.toList).map List.length := by
      rw [List.map_map, List.map_map]
      exact hlengths
    exact List.map_injective_iff.mpr (fun _ _ => String.toList_injective)
      (List.eq_iff_flatten_eq.mpr ⟨hflat, hsizes⟩)

/-- Two records with one MAC have the same text and the same key. -/
theorem NoCollision.agree (h : S.NoCollision r r') {m : M} (hr : S.sealed r = some m)
    (hr' : S.sealed r' = some m) : S.Agree r r' := by
  obtain ⟨k, hk, hm⟩ := Option.map_eq_some_iff.mp hr
  obtain ⟨k', hk', hm'⟩ := Option.map_eq_some_iff.mp hr'
  obtain ⟨htext, rfl⟩ := h k k' hk hk' (hm.trans hm'.symm)
  exact ⟨htext, hk.trans hk'.symm⟩

/-- Two records that agree have one MAC. -/
theorem Agree.sealed_eq (h : S.Agree r r') : S.sealed r = S.sealed r' := by
  unfold sealed
  rw [h.text, h.key]

/-- Characters that move between neighbours are not seen. -/
theorem text_eq_of_shift (front : List String) {back : List String} {a b a' b' : String}
    (hr : S.texts r = front ++ a :: b :: back)
    (hr' : S.texts r' = front ++ a' :: b' :: back) (h : a ++ b = a' ++ b') : S.text r = S.text r' := by
  have hmove : a ++ (b ++ String.join back) = a' ++ (b' ++ String.join back) := by
    rw [← String.append_assoc, h, String.append_assoc]
  unfold text
  rw [hr, hr', String.join_append, String.join_append, String.join_cons, String.join_cons, String.join_cons,
    String.join_cons, hmove]

end Seal
