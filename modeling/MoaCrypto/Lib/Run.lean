import Mathlib.Data.List.Basic

/-!
# Runs of a step function

`run step s ls` takes the steps `ls` one after the other from state `s`;
`Along step D s ls` says that each of them meets the condition `D` in the state
it is taken from.  An invariant kept by every step that meets `D` holds in every
state of such a run (`invariant_run`).
-/

namespace StepRun

variable {S L : Type} (step : S → L → S)

/-- The state after the steps `ls`. -/
def run (s : S) (ls : List L) : S := ls.foldl step s

/-- Every step of `ls` meets `D` in the state it is taken from. -/
def Along (D : S → L → Prop) : S → List L → Prop
  | _, [] => True
  | s, l :: ls => D s l ∧ Along D (step s l) ls

instance Along.decidable (D : S → L → Prop) [∀ s l, Decidable (D s l)] :
    (s : S) → (ls : List L) → Decidable (Along step D s ls)
  | _, [] => isTrue trivial
  | s, l :: ls =>
    have := Along.decidable D (step s l) ls
    inferInstanceAs (Decidable (D s l ∧ Along step D (step s l) ls))

@[simp] theorem run_nil (s : S) : run step s [] = s := rfl

@[simp] theorem run_cons (s : S) (l : L) (ls : List L) :
    run step s (l :: ls) = run step (step s l) ls := rfl

theorem run_append (s : S) (ls ms : List L) :
    run step s (ls ++ ms) = run step (run step s ls) ms := List.foldl_append

theorem along_append (D : S → L → Prop) (s : S) (ls ms : List L) :
    Along step D s (ls ++ ms) ↔ Along step D s ls ∧ Along step D (run step s ls) ms := by
  induction ls generalizing s with
  | nil => simp [Along]
  | cons l ls ih => simp only [List.cons_append, Along, run_cons, ih, and_assoc]

theorem Along.mono {D D' : S → L → Prop} (hD : ∀ s l, D s l → D' s l) {s : S} {ls : List L}
    (h : Along step D s ls) : Along step D' s ls := by
  induction ls generalizing s with
  | nil => trivial
  | cons l ls ih => exact ⟨hD _ _ h.1, ih h.2⟩

theorem Along.and {D D' : S → L → Prop} {s : S} {ls : List L} (h : Along step D s ls)
    (h' : Along step D' s ls) : Along step (fun s l => D s l ∧ D' s l) s ls := by
  induction ls generalizing s with
  | nil => trivial
  | cons l ls ih => exact ⟨⟨h.1, h'.1⟩, ih h.2 h'.2⟩

theorem along_of_forall {D : S → L → Prop} (hD : ∀ s l, D s l) (s : S) (ls : List L) :
    Along step D s ls := by
  induction ls generalizing s with
  | nil => trivial
  | cons l ls ih => exact ⟨hD s l, ih _⟩

/-- A condition on the steps alone. -/
theorem along_of_mem {D : L → Prop} (s : S) {ls : List L} (h : ∀ l ∈ ls, D l) :
    Along step (fun _ l => D l) s ls := by
  induction ls generalizing s with
  | nil => trivial
  | cons l ls ih => exact ⟨h l List.mem_cons_self, ih _ fun l' hl' => h l' (List.mem_cons_of_mem _ hl')⟩

/-- **Invariant rule.**  What every step meeting `D` keeps holds after a run of such steps. -/
theorem invariant_run {D : S → L → Prop} {Inv : S → Prop}
    (hstep : ∀ s l, Inv s → D s l → Inv (step s l)) {s : S} {ls : List L} (hs : Inv s)
    (hD : Along step D s ls) : Inv (run step s ls) := by
  induction ls generalizing s with
  | nil => exact hs
  | cons l ls ih => exact ih (hstep s l hs hD.1) hD.2

/-- Every step of the run is taken from a state in which the invariant holds. -/
theorem invariant_at {D : S → L → Prop} {Inv : S → Prop}
    (hstep : ∀ s l, Inv s → D s l → Inv (step s l)) {s : S} {ls : List L} (hs : Inv s)
    (hD : Along step D s ls) : Along step (fun s l => Inv s ∧ D s l) s ls := by
  induction ls generalizing s with
  | nil => trivial
  | cons l ls ih => exact ⟨⟨hs, hD.1⟩, ih (hstep s l hs hD.1) hD.2⟩

/-! ## Simulation -/

section

variable {T A : Type} (answer : S → L → A) {step' : T → L → T} {answer' : T → L → A}

/-- What the steps answer, each in the state it is taken from. -/
def answers : S → List L → List A
  | _, [] => []
  | s, l :: ls => answer s l :: answers (step s l) ls

variable {step answer}

/-- **Simulation rule.**  If related states answer a step that meets `D` in the same way and are
related after it, a run of such steps ends in related states, with the same answers. -/
theorem simulation {R : S → T → Prop} {D : S → L → Prop}
    (hstep : ∀ s t l, R s t → D s l → answer s l = answer' t l ∧ R (step s l) (step' t l))
    {s : S} {t : T} (hs : R s t) {ls : List L} (hD : Along step D s ls) :
    answers step answer s ls = answers step' answer' t ls ∧ R (run step s ls) (run step' t ls) := by
  induction ls generalizing s t with
  | nil => exact ⟨rfl, hs⟩
  | cons l ls ih =>
    obtain ⟨hanswer, hnext⟩ := hstep s t l hs hD.1
    obtain ⟨hanswers, hend⟩ := ih hnext hD.2
    exact ⟨by rw [answers, answers, hanswer, hanswers], hend⟩

end

end StepRun
