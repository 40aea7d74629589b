import Mathlib.Algebra.Ring.Nat
import MoaCrypto.Lib.Run

/-!
# Messages in flight

Messages are delivered in any order, once each, or lost; what a delivery sends is in flight from then
on.  Some of the messages are counted where they are sent.  Where the cost of a message covers what
it sets off, the counted messages and the costs of those in flight never grow together (`run_le`), so
that no run sends more of them than the first messages can pay for.
-/

namespace Flight

open StepRun

variable {M R : Type}

structure Net (M : Type) where
  inFlight : List M
  sent : Nat

/-- The `i`-th message in flight is delivered, to whom and how `r` says, or it is lost. -/
inductive Event (R : Type)
  | deliver (i : Nat) (r : R)
  | lose (i : Nat)

variable (handle : R → M → List M) (counts : M → Nat)

def total (f : M → Nat) (ms : List M) : Nat := (ms.map f).sum

def Net.start (ms : List M) : Net M := ⟨ms, total counts ms⟩

def step (s : Net M) : Event R → Net M
  | .deliver i r =>
    match s.inFlight[i]? with
    | none => s
    | some m => ⟨s.inFlight.eraseIdx i ++ handle r m, s.sent + total counts (handle r m)⟩
  | .lose i => { s with inFlight := s.inFlight.eraseIdx i }

@[simp]
theorem total_append (f : M → Nat) (ms ns : List M) : total f (ms ++ ns) = total f ms + total f ns := by
  rw [total, List.map_append, List.sum_append, total, total]

theorem total_eraseIdx (f : M → Nat) {ms : List M} {i : Nat} {m : M} (h : ms[i]? = some m) :
    total f (ms.eraseIdx i) + f m = total f ms := by
  induction ms generalizing i with
  | nil => cases h
  | cons a ms ih =>
    cases i with
    | zero =>
      cases h
      rw [List.eraseIdx_cons_zero, total, total, List.map_cons, List.sum_cons, Nat.add_comm]
    | succ i =>
      have hrest := ih (show ms[i]? = some m from h)
      unfold total at hrest ⊢
      rw [List.eraseIdx_cons_succ, List.map_cons, List.sum_cons, List.map_cons, List.sum_cons, ← hrest,
        Nat.add_assoc]

theorem total_eraseIdx_le (f : M → Nat) (ms : List M) (i : Nat) : total f (ms.eraseIdx i) ≤ total f ms := by
  cases h : ms[i]? with
  | none => exact Nat.le_of_eq (congrArg (total f) (List.eraseIdx_of_length_le (List.getElem?_eq_none_iff.1 h)))
  | some m =>
    rw [← total_eraseIdx f h]
    exact Nat.le_add_right _ _

theorem total_one (ms : List M) : total (fun _ => 1) ms = ms.length := by
  induction ms with
  | nil => rfl
  | cons m ms ih =>
    unfold total at ih ⊢
    rw [List.map_cons, List.sum_cons, ih, List.length_cons, Nat.add_comm]

/-- What has been sent and what is in flight stay within a budget. -/
def Within (cost : M → Nat) (bound : Nat) (s : Net M) : Prop := s.sent + total cost s.inFlight ≤ bound

section
variable {handle counts} {cost : M → Nat}
  (hcost : ∀ r m, total counts (handle r m) + total cost (handle r m) ≤ cost m)
include hcost

/-- **Step.**  A delivery spends the cost of its message. -/
theorem step_within {bound : Nat} {s : Net M} (e : Event R) (h : Within cost bound s) :
    Within cost bound (step handle counts s e) := by
  unfold Within at h ⊢
  cases e with
  | deliver i r =>
    rw [step]
    cases hm : s.inFlight[i]? with
    | none => exact h
    | some m =>
      have herase := total_eraseIdx cost hm
      have hspent := hcost r m
      simp only [total_append]
      omega
  | lose i =>
    have herase := total_eraseIdx_le cost s.inFlight i
    simp only [step]
    omega

/-- **Run.**  No run sends more counted messages than the first messages are worth. -/
theorem run_le (ms : List M) (es : List (Event R)) :
    (run (step handle counts) (.start counts ms) es).sent ≤ total counts ms + total cost ms := by
  have hstart : Within cost (total counts ms + total cost ms) (.start counts ms) := Nat.le_refl _
  have hrun : Within cost (total counts ms + total cost ms) (run (step handle counts) (.start counts ms) es) :=
    invariant_run _ (fun _ e h _ => step_within hcost e h) hstart
      (along_of_forall (D := fun _ _ => True) _ (fun _ _ => trivial) _ es)
  exact Nat.le_trans (Nat.le_add_right _ _) hrun

end

/-- All messages in flight have the property `P`. -/
def AllInFlight (P : M → Prop) (s : Net M) : Prop := ∀ m ∈ s.inFlight, P m

/-- What holds of the first messages and is kept by every delivery holds of all messages in flight. -/
theorem along_inFlight {P : M → Prop} (hkeep : ∀ r m, P m → ∀ m' ∈ handle r m, P m') {ms : List M}
    (hms : ∀ m ∈ ms, P m) (es : List (Event R)) :
    Along (step handle counts) (fun s _ => AllInFlight P s) (.start counts ms) es := by
  have hstep (s : Net M) (e : Event R) (h : AllInFlight P s) : AllInFlight P (step handle counts s e) := by
    cases e with
    | deliver i r =>
      rw [step]
      cases hm : s.inFlight[i]? with
      | none => exact h
      | some m =>
        intro m' hm'
        rcases List.mem_append.1 hm' with hm' | hm'
        · exact h m' (List.mem_of_mem_eraseIdx hm')
        · exact hkeep r m (h m (List.mem_of_getElem? hm)) m' hm'
    | lose i => exact fun m hm => h m (List.mem_of_mem_eraseIdx hm)
  have hstart : AllInFlight P (.start counts ms) := hms
  exact (invariant_at _ (fun s e h _ => hstep s e h) hstart
    (along_of_forall (D := fun _ _ => True) _ (fun _ _ => trivial) _ es)).mono _ fun _ _ h => h.1

/-! ## How long a run is -/

/-- The message that the event is about is in flight. -/
def Happens (s : Net M) : Event R → Prop
  | .deliver i _ => i < s.inFlight.length
  | .lose i => i < s.inFlight.length

/-- Where all messages are counted, every event takes one of them out of flight. -/
theorem length_run {s : Net M} {es : List (Event R)}
    (h : Along (step handle fun _ => 1) Happens s es) :
    es.length + (run (step handle fun _ => 1) s es).inFlight.length + s.sent =
      (run (step handle fun _ => 1) s es).sent + s.inFlight.length := by
  induction es generalizing s with
  | nil => rw [run_nil, List.length_nil, Nat.zero_add, Nat.add_comm]
  | cons e es ih =>
    have hrest := ih h.2
    rw [run_cons, List.length_cons]
    cases e with
    | deliver i r =>
      have hi : i < s.inFlight.length := h.1
      have herase := List.length_eraseIdx_of_lt hi
      simp only [step, List.getElem?_eq_getElem hi, List.length_append, total_one] at hrest ⊢
      omega
    | lose i =>
      have hi : i < s.inFlight.length := h.1
      have herase := List.length_eraseIdx_of_lt hi
      simp only [step] at hrest ⊢
      omega

/-- No more can happen than messages are sent. -/
theorem length_le_sent {ms : List M} {es : List (Event R)}
    (h : Along (step handle fun _ => 1) Happens (.start (fun _ => 1) ms) es) :
    es.length ≤ (run (step handle fun _ => 1) (.start (fun _ => 1) ms) es).sent := by
  have hlength := length_run handle h
  simp only [Net.start, total_one] at hlength ⊢
  omega

end Flight
