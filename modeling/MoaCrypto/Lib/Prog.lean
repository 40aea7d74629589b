import Mathlib.Data.List.Basic

/-!
# Programs over atomic queries

`Prog Q A E ρ` is a program that talks to a shared store only through queries
`q : Q`, each answered by a value of `A q`; between two queries it computes on
its own.  It ends with a result (`ret`) or an exception (`fail`).

* `run h p s`: the program alone, from store `s`, every query answered by `h`.
* `Ends h ok err p s`: that run ends with a result that `ok` accepts or an exception
  that `err` accepts, each with the store it leaves.
* `Uses`: every query the program may ask is allowed (`run_of_uses`: a program
  that asks only reads leaves the store as it was).
* `Follows may next fin m p`: a monitor state `m` moves with every answer, the
  program asks only what the monitor allows, and ends only where `fin` holds.
-/

namespace QueryProg

/-- A program over queries `Q` with answers `A`, exceptions `E` and results `ρ`. -/
inductive Prog (Q : Type) (A : Q → Type) (E ρ : Type) : Type
  | ret (r : ρ) : Prog Q A E ρ
  | fail (e : E) : Prog Q A E ρ
  | ask (q : Q) (k : A q → Prog Q A E ρ) : Prog Q A E ρ

namespace Prog

variable {Q : Type} {A : Q → Type} {E ρ τ σ : Type}

/-! ## Sequencing -/

def bind : Prog Q A E ρ → (ρ → Prog Q A E τ) → Prog Q A E τ
  | ret r, f => f r
  | fail e, _ => fail e
  | ask q k, f => ask q fun a => bind (k a) f

instance : Monad (Prog Q A E) where
  pure := ret
  bind := bind

/-- One query, its answer the result. -/
def query (q : Q) : Prog Q A E (A q) := ask q ret

/-- The value of an optional computation, or the exception `e`. -/
def orFail (e : E) : Option ρ → Prog Q A E ρ
  | some r => ret r
  | none => fail e

/-- `try p catch e => f e`. -/
def tryCatch : Prog Q A E ρ → (E → Prog Q A E ρ) → Prog Q A E ρ
  | ret r, _ => ret r
  | fail e, f => f e
  | ask q k, f => ask q fun a => tryCatch (k a) f

@[simp] theorem ret_bind (r : ρ) (f : ρ → Prog Q A E τ) : (ret r >>= f) = f r := rfl

@[simp] theorem fail_bind (e : E) (f : ρ → Prog Q A E τ) : (fail e >>= f) = fail e := rfl

@[simp] theorem query_bind (q : Q) (f : A q → Prog Q A E τ) :
    (query q >>= f) = ask q f := rfl

@[simp] theorem orFail_some (e : E) (r : ρ) : (orFail e (some r) : Prog Q A E ρ) = ret r := rfl

@[simp] theorem orFail_none (e : E) : (orFail e none : Prog Q A E ρ) = fail e := rfl

/-! ## Running alone -/

/-- Run to the end from store `s`, each query answered and performed by `h`. -/
def run (h : (q : Q) → σ → A q × σ) : Prog Q A E ρ → σ → Except E ρ × σ
  | ret r, s => (.ok r, s)
  | fail e, s => (.error e, s)
  | ask q k, s => run h (k (h q s).1) (h q s).2

@[simp] theorem run_ret (h : (q : Q) → σ → A q × σ) (r : ρ) (s : σ) :
    run h (ret r : Prog Q A E ρ) s = (.ok r, s) := rfl

@[simp] theorem run_fail (h : (q : Q) → σ → A q × σ) (e : E) (s : σ) :
    run h (fail e : Prog Q A E ρ) s = (.error e, s) := rfl

@[simp] theorem run_ask (h : (q : Q) → σ → A q × σ) (q : Q) (k : A q → Prog Q A E ρ) (s : σ) :
    run h (ask q k) s = run h (k (h q s).1) (h q s).2 := rfl

/-- A sequence runs its first part and, if that returns, its second part from there. -/
theorem run_bind (h : (q : Q) → σ → A q × σ) (p : Prog Q A E ρ) (f : ρ → Prog Q A E τ) (s : σ) :
    run h (p >>= f) s =
      match run h p s with
      | (.ok r, s') => run h (f r) s'
      | (.error e, s') => (.error e, s') := by
  induction p generalizing s with
  | ret r => rfl
  | fail e => rfl
  | ask q k ih => exact ih _ _

theorem run_bind_ok (h : (q : Q) → σ → A q × σ) {p : Prog Q A E ρ} {f : ρ → Prog Q A E τ}
    {s s' : σ} {r : ρ} (hp : run h p s = (.ok r, s')) : run h (p >>= f) s = run h (f r) s' := by
  rw [run_bind, hp]

theorem run_bind_error (h : (q : Q) → σ → A q × σ) {p : Prog Q A E ρ} {f : ρ → Prog Q A E τ}
    {s s' : σ} {e : E} (hp : run h p s = (.error e, s')) : run h (p >>= f) s = (.error e, s') := by
  rw [run_bind, hp]

/-- A sequence returns exactly if both its parts do, one after the other. -/
theorem run_bind_eq_ok (h : (q : Q) → σ → A q × σ) {p : Prog Q A E ρ} {f : ρ → Prog Q A E τ}
    {s s' : σ} {r : τ} :
    run h (p >>= f) s = (.ok r, s') ↔
      ∃ a s₁, run h p s = (.ok a, s₁) ∧ run h (f a) s₁ = (.ok r, s') := by
  rw [run_bind]
  constructor
  · intro hr
    rcases hp : run h p s with ⟨_ | a, s₁⟩
    · rw [hp] at hr; cases hr
    · rw [hp] at hr; exact ⟨a, s₁, rfl, hr⟩
  · rintro ⟨a, s₁, hp, hr⟩
    rw [hp]; exact hr

theorem run_orFail_bind_eq_ok (h : (q : Q) → σ → A q × σ) {e : E} {o : Option ρ}
    {f : ρ → Prog Q A E τ} {s s' : σ} {r : τ} :
    run h (orFail e o >>= f) s = (.ok r, s') ↔ ∃ a, o = some a ∧ run h (f a) s = (.ok r, s') := by
  cases o with
  | none => simp
  | some a => simp

/-- A catch handler runs from the store in which the body failed. -/
theorem run_tryCatch (h : (q : Q) → σ → A q × σ) (p : Prog Q A E ρ) (f : E → Prog Q A E ρ) (s : σ) :
    run h (tryCatch p f) s =
      match run h p s with
      | (.ok r, s') => (.ok r, s')
      | (.error e, s') => run h (f e) s' := by
  induction p generalizing s with
  | ret r => rfl
  | fail e => rfl
  | ask q k ih => exact ih _ _

/-! ## Where a run ends -/

/-- Alone from `s`, the program returns a result that `ok` accepts or throws what `err` accepts,
each with the store that the run leaves. -/
def Ends (h : (q : Q) → σ → A q × σ) (ok : ρ → σ → Prop) (err : E → σ → Prop)
    (p : Prog Q A E ρ) (s : σ) : Prop :=
  match run h p s with
  | (.ok r, s') => ok r s'
  | (.error e, s') => err e s'

section Ends

variable {h : (q : Q) → σ → A q × σ} {ok : τ → σ → Prop} {err : E → σ → Prop}

theorem Ends.mono {ok' : τ → σ → Prop} {err' : E → σ → Prop} {p : Prog Q A E τ} {s : σ}
    (hp : Ends h ok' err' p s) (hok : ∀ r s', ok' r s' → ok r s')
    (herr : ∀ e s', err' e s' → err e s') : Ends h ok err p s := by
  unfold Ends at hp ⊢
  rcases hr : run h p s with ⟨e | r, s'⟩
  · rw [hr] at hp
    exact herr e s' hp
  · rw [hr] at hp
    exact hok r s' hp

theorem Ends.bind {mid : ρ → σ → Prop} {p : Prog Q A E ρ} {f : ρ → Prog Q A E τ} {s : σ}
    (hp : Ends h mid err p s) (hf : ∀ r s', mid r s' → Ends h ok err (f r) s') :
    Ends h ok err (p >>= f) s := by
  unfold Ends at hp ⊢
  rw [run_bind]
  rcases hr : run h p s with ⟨e | r, s'⟩
  · rw [hr] at hp
    exact hp
  · rw [hr] at hp
    exact hf r s' hp

theorem Ends.bind_ok {p : Prog Q A E ρ} {f : ρ → Prog Q A E τ} {s s' : σ} {r : ρ}
    (hp : run h p s = (.ok r, s')) (hf : Ends h ok err (f r) s') : Ends h ok err (p >>= f) s := by
  unfold Ends
  rw [run_bind_ok h hp]
  exact hf

theorem Ends.query_bind {q : Q} {f : A q → Prog Q A E τ} {s : σ}
    (hf : Ends h ok err (f (h q s).1) (h q s).2) : Ends h ok err (query q >>= f) s := hf

/-- An optional value that is missing ends the run where it stands. -/
theorem Ends.orFail_bind {e : E} {o : Option ρ} {f : ρ → Prog Q A E τ} {s : σ}
    (hnone : o = none → err e s) (hsome : ∀ r, o = some r → Ends h ok err (f r) s) :
    Ends h ok err (orFail e o >>= f) s := by
  cases o with
  | none => exact hnone rfl
  | some r => exact hsome r rfl

theorem Ends.orFail_bind_some {e : E} {o : Option ρ} {r : ρ} {f : ρ → Prog Q A E τ} {s : σ}
    (ho : o = some r) (hf : Ends h ok err (f r) s) : Ends h ok err (orFail e o >>= f) s := by
  rw [ho]
  exact hf

theorem Ends.ite {c : Prop} [Decidable c] {p p' : Prog Q A E τ} {s : σ}
    (hp : c → Ends h ok err p s) (hp' : ¬ c → Ends h ok err p' s) :
    Ends h ok err (if c then p else p') s := by
  by_cases hc : c
  · rw [if_pos hc]
    exact hp hc
  · rw [if_neg hc]
    exact hp' hc

/-- What the body returns stands; from what it throws, the handler goes on. -/
theorem Ends.tryCatch {mid : E → σ → Prop} {p : Prog Q A E τ} {f : E → Prog Q A E τ} {s : σ}
    (hp : Ends h ok mid p s) (hf : ∀ e s', mid e s' → Ends h ok err (f e) s') :
    Ends h ok err (Prog.tryCatch p f) s := by
  unfold Ends at hp ⊢
  rw [run_tryCatch]
  rcases hr : run h p s with ⟨e | r, s'⟩
  · rw [hr] at hp
    exact hf e s' hp
  · rw [hr] at hp
    exact hp

/-- A program of which no exception is accepted returns. -/
theorem Ends.returns {p : Prog Q A E τ} {s : σ} (hp : Ends h ok (fun _ _ => False) p s) :
    ∃ r s', run h p s = (.ok r, s') ∧ ok r s' := by
  unfold Ends at hp
  rcases hr : run h p s with ⟨e | r, s'⟩
  · rw [hr] at hp
    exact hp.elim
  · rw [hr] at hp
    exact ⟨r, s', rfl, hp⟩

end Ends

/-! ## What a program may ask -/

/-- Every query the program can reach is allowed. -/
def Uses (allowed : Q → Prop) : Prog Q A E ρ → Prop
  | ret _ => True
  | fail _ => True
  | ask q k => allowed q ∧ ∀ a, Uses allowed (k a)

theorem Uses.bind {allowed : Q → Prop} {p : Prog Q A E ρ} {f : ρ → Prog Q A E τ}
    (hp : Uses allowed p) (hf : ∀ r, Uses allowed (f r)) : Uses allowed (p >>= f) := by
  induction p with
  | ret r => exact hf r
  | fail e => trivial
  | ask q k ih => exact ⟨hp.1, fun a => ih a (hp.2 a)⟩

theorem Uses.query {allowed : Q → Prop} {q : Q} (hq : allowed q) :
    Uses allowed (Prog.query q : Prog Q A E (A q)) := ⟨hq, fun _ => trivial⟩

theorem Uses.orFail {allowed : Q → Prop} (e : E) (o : Option ρ) :
    Uses allowed (Prog.orFail e o : Prog Q A E ρ) := by
  cases o <;> trivial

theorem Uses.mono {allowed allowed' : Q → Prop} (h : ∀ q, allowed q → allowed' q) {p : Prog Q A E ρ}
    (hp : Uses allowed p) : Uses allowed' p := by
  induction p with
  | ret r => trivial
  | fail e => trivial
  | ask q k ih => exact ⟨h q hp.1, fun a => ih a (hp.2 a)⟩

/-- **Frame.**  A relation kept by every allowed query is kept by the whole run. -/
theorem run_of_uses (h : (q : Q) → σ → A q × σ) {allowed : Q → Prop} (R : σ → σ → Prop)
    (hrefl : ∀ s, R s s) (htrans : ∀ s₁ s₂ s₃, R s₁ s₂ → R s₂ s₃ → R s₁ s₃)
    (hstep : ∀ q s, allowed q → R s (h q s).2) {p : Prog Q A E ρ} (hp : Uses allowed p) (s : σ) :
    R s (run h p s).2 := by
  induction p generalizing s with
  | ret r => exact hrefl s
  | fail e => exact hrefl s
  | ask q k ih => exact htrans _ _ _ (hstep q s hp.1) (ih _ (hp.2 _) _)

/-- The frame as a rule: whether the program returns or throws. -/
theorem Ends.of_uses {h : (q : Q) → σ → A q × σ} {allowed : Q → Prop} {R : σ → σ → Prop}
    (hrefl : ∀ s, R s s) (htrans : ∀ s₁ s₂ s₃, R s₁ s₂ → R s₂ s₃ → R s₁ s₃)
    (hstep : ∀ q s, allowed q → R s (h q s).2) {p : Prog Q A E ρ} (hp : Uses allowed p) (s : σ) :
    Ends h (fun _ s' => R s s') (fun _ s' => R s s') p s := by
  have hframe := run_of_uses h R hrefl htrans hstep hp s
  unfold Ends
  rcases hr : run h p s with ⟨e | r, s'⟩
  · rw [hr] at hframe
    exact hframe
  · rw [hr] at hframe
    exact hframe

/-- A program that asks only reads leaves the store as it was. -/
theorem run_readOnly (h : (q : Q) → σ → A q × σ) {reads : Q → Prop}
    (hread : ∀ q s, reads q → (h q s).2 = s) {p : Prog Q A E ρ} (hp : Uses reads p) (s : σ) :
    (run h p s).2 = s :=
  run_of_uses h (fun s s' => s' = s) (fun _ => rfl) (fun _ _ _ h₁ h₂ => h₂.trans h₁) hread hp s

/-! ## Monitors -/

variable {M : Type} (may : M → Q → Prop) (next : M → (q : Q) → A q → M)

/-- The program, its monitor in state `m`, asks only what `may` allows, moves the
monitor by `next` with every answer, and ends only in monitor states `fin` accepts. -/
def Follows (fin : M → Except E ρ → Prop) : M → Prog Q A E ρ → Prop
  | m, ret r => fin m (.ok r)
  | m, fail e => fin m (.error e)
  | m, ask q k => may m q ∧ ∀ a, Follows fin (next m q a) (k a)

variable {may next}

theorem Follows.mono {fin fin' : M → Except E ρ → Prop} (hfin : ∀ m r, fin m r → fin' m r)
    {m : M} {p : Prog Q A E ρ} (hp : Follows may next fin m p) : Follows may next fin' m p := by
  induction p generalizing m with
  | ret r => exact hfin _ _ hp
  | fail e => exact hfin _ _ hp
  | ask q k ih => exact ⟨hp.1, fun a => ih a (hp.2 a)⟩

/-- A condition on the monitor that stays, and under which everything is allowed. -/
theorem Follows.of_invariant (inv : M → Prop) {fin : M → Except E ρ → Prop}
    (hmay : ∀ m q, inv m → may m q) (hnext : ∀ m q a, inv m → inv (next m q a))
    (hfin : ∀ m r, inv m → fin m r) {m : M} (hm : inv m) (p : Prog Q A E ρ) :
    Follows may next fin m p := by
  induction p generalizing m with
  | ret r => exact hfin m _ hm
  | fail e => exact hfin m _ hm
  | ask q k ih => exact ⟨hmay m q hm, fun a => ih a (hnext m q a hm)⟩

/-! `Follows` is computed along the program, as a weakest precondition. -/

@[simp] theorem follows_ret (fin : M → Except E ρ → Prop) (m : M) (r : ρ) :
    Follows may next fin m (ret r : Prog Q A E ρ) ↔ fin m (.ok r) := Iff.rfl

@[simp] theorem follows_fail (fin : M → Except E ρ → Prop) (m : M) (e : E) :
    Follows may next fin m (fail e : Prog Q A E ρ) ↔ fin m (.error e) := Iff.rfl

@[simp] theorem follows_ask (fin : M → Except E ρ → Prop) (m : M) (q : Q)
    (k : A q → Prog Q A E ρ) : Follows may next fin m (ask q k) ↔
      may m q ∧ ∀ a, Follows may next fin (next m q a) (k a) := Iff.rfl

theorem follows_orFail (fin : M → Except E ρ → Prop) (m : M) (e : E) (o : Option ρ) :
    Follows may next fin m (orFail e o) ↔
      (∀ r, o = some r → fin m (.ok r)) ∧ (o = none → fin m (.error e)) := by
  cases o with
  | none => simp
  | some r => simp

theorem follows_bind (fin : M → Except E τ → Prop) (m : M) (p : Prog Q A E ρ)
    (f : ρ → Prog Q A E τ) : Follows may next fin m (p >>= f) ↔
      Follows may next (fun m' r => match r with
        | .ok r => Follows may next fin m' (f r)
        | .error e => fin m' (.error e)) m p := by
  induction p generalizing m with
  | ret r => exact Iff.rfl
  | fail e => exact Iff.rfl
  | ask q k ih => exact and_congr_right fun _ => forall_congr' fun a => ih a _

theorem follows_orFail_bind (fin : M → Except E τ → Prop) (m : M) (e : E) (o : Option ρ)
    (f : ρ → Prog Q A E τ) : Follows may next fin m (orFail e o >>= f) ↔
      (∀ r, o = some r → Follows may next fin m (f r)) ∧ (o = none → fin m (.error e)) := by
  rw [follows_bind, follows_orFail]

theorem follows_tryCatch (fin : M → Except E ρ → Prop) (m : M) (p : Prog Q A E ρ)
    (f : E → Prog Q A E ρ) : Follows may next fin m (tryCatch p f) ↔
      Follows may next (fun m' r => match r with
        | .ok r => fin m' (.ok r)
        | .error e => Follows may next fin m' (f e)) m p := by
  induction p generalizing m with
  | ret r => exact Iff.rfl
  | fail e => exact Iff.rfl
  | ask q k ih => exact and_congr_right fun _ => forall_congr' fun a => ih a _

theorem follows_ite (fin : M → Except E ρ → Prop) (m : M) (c : Prop) [Decidable c]
    (p p' : Prog Q A E ρ) : Follows may next fin m (if c then p else p') ↔
      (c → Follows may next fin m p) ∧ (¬ c → Follows may next fin m p') := by
  by_cases h : c
  · simp [h]
  · simp [h]

/-- The end condition of the first part is what the second part starts from. -/
theorem Follows.bind {fin : M → Except E ρ → Prop} {fin' : M → Except E τ → Prop} {m : M}
    {p : Prog Q A E ρ} {f : ρ → Prog Q A E τ} (hp : Follows may next fin m p)
    (hok : ∀ m' r, fin m' (.ok r) → Follows may next fin' m' (f r))
    (herr : ∀ m' e, fin m' (.error e) → fin' m' (.error e)) :
    Follows may next fin' m (p >>= f) := by
  rw [follows_bind]
  apply hp.mono
  intro m' r h
  cases r with
  | ok r => exact hok m' r h
  | error e => exact herr m' e h

/-- A program whose queries never move the monitor ends where it started. -/
theorem Follows.of_uses {allowed : Q → Prop} (m : M)
    (hq : ∀ q, allowed q → may m q ∧ ∀ a, next m q a = m) {p : Prog Q A E ρ}
    (hp : Uses allowed p) : Follows may next (fun m' _ => m' = m) m p := by
  induction p with
  | ret r => exact rfl
  | fail e => exact rfl
  | ask q k ih =>
    refine ⟨(hq q hp.1).1, fun a => ?_⟩
    rw [(hq q hp.1).2 a]
    exact ih a (hp.2 a)

/-- The handler `h` with the monitor beside its state. -/
def watched (h : (q : Q) → σ → A q × σ) (next : M → (q : Q) → A q → M) (q : Q) (s : σ × M) :
    A q × (σ × M) :=
  ((h q s.1).1, ((h q s.1).2, next s.2 q (h q s.1).1))

/-- Watching a run does not change it. -/
theorem run_watched (h : (q : Q) → σ → A q × σ) (p : Prog Q A E ρ) (s : σ) (m : M) :
    ((run (watched h next) p (s, m)).1, (run (watched h next) p (s, m)).2.1) = run h p s := by
  induction p generalizing s m with
  | ret r => rfl
  | fail e => rfl
  | ask q k ih => exact ih _ _ _

/-- A run ends as the program does that its monitor follows. -/
theorem Follows.run {fin : M → Except E ρ → Prop} {m : M} {p : Prog Q A E ρ}
    (hp : Follows may next fin m p) (h : (q : Q) → σ → A q × σ) (s : σ) :
    fin (Prog.run (watched h next) p (s, m)).2.2 (Prog.run (watched h next) p (s, m)).1 := by
  induction p generalizing s m with
  | ret r => exact hp
  | fail e => exact hp
  | ask q k ih => exact ih _ (hp.2 _) _

theorem Follows.tryCatch {fin fin' : M → Except E ρ → Prop} {m : M} {p : Prog Q A E ρ}
    {f : E → Prog Q A E ρ} (hp : Follows may next fin m p)
    (hok : ∀ m' r, fin m' (.ok r) → fin' m' (.ok r))
    (herr : ∀ m' e, fin m' (.error e) → Follows may next fin' m' (f e)) :
    Follows may next fin' m (Prog.tryCatch p f) := by
  rw [follows_tryCatch]
  apply hp.mono
  intro m' r h
  cases r with
  | ok r => exact hok m' r h
  | error e => exact herr m' e h

end Prog

end QueryProg
