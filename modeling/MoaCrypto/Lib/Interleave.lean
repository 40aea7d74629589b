import MoaCrypto.Lib.Prog
import MoaCrypto.Lib.Run
import Mathlib.Logic.Function.Basic

/-!
# Interleaved programs on one store

Threads `i : ι`, each a `Prog`, share a store.  A step of thread `i` performs its
next query atomically and moves the thread on; a thread that has ended does
nothing.  A schedule (a list of threads) determines the run, so a statement about
every schedule is one about every interleaving.  The log keeps every query with
its answer, the newest first.

`track next m i log` is the state of thread `i`'s monitor after its events in the
log; `follows_step` carries a thread's `Follows` property through any step, which
is how facts about one program are used at any point of any interleaving.
-/

namespace QueryProg

/-- A query performed by a thread, with its answer. -/
structure Event (ι Q : Type) (A : Q → Type) where
  thread : ι
  query : Q
  answer : A query

/-- The shared store, what every thread has left to do, and what has been done. -/
structure Config (ι : Type) {Q : Type} (A : Q → Type) (E ρ σ : Type) where
  store : σ
  thread : ι → Prog Q A E ρ
  log : List (Event ι Q A)

namespace Config

variable {ι Q : Type} [DecidableEq ι] {A : Q → Type} {E ρ σ : Type}

/-- All threads about to start. -/
def start (s : σ) (p : ι → Prog Q A E ρ) : Config ι A E ρ σ := ⟨s, p, []⟩

/-- Thread `i` performs its next query. -/
def step (h : (q : Q) → σ → A q × σ) (c : Config ι A E ρ σ) (i : ι) : Config ι A E ρ σ :=
  match c.thread i with
  | .ret _ => c
  | .fail _ => c
  | .ask q k =>
    { store := (h q c.store).2
      thread := Function.update c.thread i (k (h q c.store).1)
      log := ⟨i, q, (h q c.store).1⟩ :: c.log }

/-- The run of a schedule. -/
def exec (h : (q : Q) → σ → A q × σ) (c : Config ι A E ρ σ) (sched : List ι) : Config ι A E ρ σ :=
  StepRun.run (step h) c sched

/-- Thread `i` is about to ask `q`. -/
def Asks (c : Config ι A E ρ σ) (i : ι) (q : Q) : Prop := ∃ k, c.thread i = .ask q k

/-- The next query of thread `i`, if it has not ended. -/
def nextQuery (c : Config ι A E ρ σ) (i : ι) : Option Q :=
  match c.thread i with
  | .ask q _ => some q
  | _ => none

omit [DecidableEq ι] in
theorem Asks.nextQuery {c : Config ι A E ρ σ} {i : ι} {q : Q} (h : Asks c i q) :
    c.nextQuery i = some q := by
  obtain ⟨k, hk⟩ := h
  rw [Config.nextQuery, hk]

/-- Thread `i` has not ended. -/
def Live (c : Config ι A E ρ σ) (i : ι) : Prop := ∃ q, Asks c i q

theorem step_of_ask (h : (q : Q) → σ → A q × σ) {c : Config ι A E ρ σ} {i : ι} {q : Q}
    {k : A q → Prog Q A E ρ} (hi : c.thread i = .ask q k) :
    step h c i =
      { store := (h q c.store).2
        thread := Function.update c.thread i (k (h q c.store).1)
        log := ⟨i, q, (h q c.store).1⟩ :: c.log } := by
  simp only [step, hi]

theorem store_step (h : (q : Q) → σ → A q × σ) {c : Config ι A E ρ σ} {i : ι} {q : Q}
    {k : A q → Prog Q A E ρ} (hi : c.thread i = .ask q k) :
    (step h c i).store = (h q c.store).2 := by rw [step_of_ask h hi]

theorem log_step (h : (q : Q) → σ → A q × σ) {c : Config ι A E ρ σ} {i : ι} {q : Q}
    {k : A q → Prog Q A E ρ} (hi : c.thread i = .ask q k) :
    (step h c i).log = ⟨i, q, (h q c.store).1⟩ :: c.log := by rw [step_of_ask h hi]

/-- **Step inversion.**  A step does nothing, or performs the thread's next query. -/
theorem step_cases (h : (q : Q) → σ → A q × σ) (c : Config ι A E ρ σ) (i : ι) :
    (step h c i = c ∧ ¬ Live c i) ∨
    ∃ q k, c.thread i = .ask q k ∧ step h c i =
      { store := (h q c.store).2
        thread := Function.update c.thread i (k (h q c.store).1)
        log := ⟨i, q, (h q c.store).1⟩ :: c.log } := by
  cases hi : c.thread i with
  | ret r => exact .inl ⟨by simp only [step, hi], by rintro ⟨q, k, hk⟩; rw [hi] at hk; cases hk⟩
  | fail e => exact .inl ⟨by simp only [step, hi], by rintro ⟨q, k, hk⟩; rw [hi] at hk; cases hk⟩
  | ask q k => exact .inr ⟨q, k, rfl, step_of_ask h hi⟩

theorem thread_step_ne (h : (q : Q) → σ → A q × σ) (c : Config ι A E ρ σ) {i j : ι} (hij : j ≠ i) :
    (step h c i).thread j = c.thread j := by
  rcases step_cases h c i with ⟨hs, -⟩ | ⟨q, k, -, hs⟩
  · rw [hs]
  · rw [hs]; exact Function.update_of_ne hij _ _

theorem live_step_ne (h : (q : Q) → σ → A q × σ) (c : Config ι A E ρ σ) {i j : ι} (hij : j ≠ i) :
    Live (step h c i) j ↔ Live c j := by
  unfold Live Asks
  rw [thread_step_ne h c hij]

/-! ## Monitors of the threads -/

variable {M : Type} (next : M → (q : Q) → A q → M)

/-- The monitor of thread `i`, started in `m`, after its events in the log. -/
def track (m : M) (i : ι) : List (Event ι Q A) → M
  | [] => m
  | e :: log => if e.thread = i then next (track m i log) e.query e.answer else track m i log

@[simp] theorem track_nil (m : M) (i : ι) : track next m i ([] : List (Event ι Q A)) = m := rfl

@[simp] theorem track_cons_self (m : M) (i : ι) (q : Q) (a : A q) (log : List (Event ι Q A)) :
    track next m i (⟨i, q, a⟩ :: log) = next (track next m i log) q a := if_pos rfl

theorem track_cons_ne (m : M) {i j : ι} (hij : i ≠ j) (q : Q) (a : A q)
    (log : List (Event ι Q A)) : track next m j (⟨i, q, a⟩ :: log) = track next m j log := if_neg hij

/-- Another thread's step does not move the monitor. -/
theorem track_step_ne (h : (q : Q) → σ → A q × σ) (c : Config ι A E ρ σ) (m : M) {i j : ι}
    (hij : j ≠ i) : track next m j (step h c i).log = track next m j c.log := by
  rcases step_cases h c i with ⟨hs, -⟩ | ⟨q, k, -, hs⟩
  · rw [hs]
  · rw [hs]
    exact track_cons_ne next m (Ne.symm hij) _ _ _

variable {next} {may : M → Q → Prop} {fin : ι → M → Except E ρ → Prop} {m : ι → M}

/-- Every thread follows its monitor, from where its events in the log have brought it. -/
def AllFollow (may : M → Q → Prop) (next : M → (q : Q) → A q → M)
    (fin : ι → M → Except E ρ → Prop) (m : ι → M) (c : Config ι A E ρ σ) : Prop :=
  ∀ i, Prog.Follows may next (fin i) (track next (m i) i c.log) (c.thread i)

/-- A step keeps every thread on its monitor. -/
theorem follows_step (h : (q : Q) → σ → A q × σ) (c : Config ι A E ρ σ) (i : ι)
    (hc : AllFollow may next fin m c) : AllFollow may next fin m (step h c i) := by
  rcases step_cases h c i with ⟨hs, -⟩ | ⟨q, k, hi, hs⟩
  · rwa [hs]
  · rw [hs]
    intro j
    by_cases hij : i = j
    · subst hij
      have hf := hc i
      rw [hi] at hf
      simp only [track_cons_self, Function.update_self]
      exact hf.2 _
    · rw [track_cons_ne next (m j) hij]
      simp only [Function.update_of_ne (Ne.symm hij)]
      exact hc j

/-- What a thread is about to ask is allowed by its monitor. -/
theorem AllFollow.allowed {c : Config ι A E ρ σ} (hc : AllFollow may next fin m c) {i : ι} {q : Q}
    (hi : Asks c i q) : may (track next (m i) i c.log) q := by
  obtain ⟨k, hk⟩ := hi
  have hf := hc i
  rw [hk] at hf
  exact hf.1

end Config

end QueryProg
