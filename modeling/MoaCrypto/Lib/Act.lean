import Mathlib.Init
import Mathlib.Order.Defs.Unbundled

/-!
# Actions that keep what they have written

`Act σ α` is a computation over a state `σ` that returns an `α` or stops with an exception (`none`);
either way it leaves a state, and what it has written before an exception stays.

* `bind_of_some`, `bind_of_none`, `snd_bind`: a sequence, after its first part.
* `Leads R x`: from every state `x` ends in a state that `R` relates to it.  A sequence leads along `R`
  if its parts do and `R` is reflexive and transitive (`Leads.bind`): what no part changes, the whole
  does not change.
-/

/-- A computation over a state. -/
def Act (σ α : Type) : Type := σ → Option α × σ

namespace Act

variable {σ α β : Type}

instance : Monad (Act σ) where
  pure a := fun s => (some a, s)
  bind x f := fun s =>
    match x s with
    | (some a, s') => f a s'
    | (none, s') => (none, s')

/-- The state itself. -/
def get : Act σ σ := fun s => (some s, s)

/-- The value of a function of the state. -/
def gets (f : σ → α) : Act σ α := fun s => (some (f s), s)

def modify (f : σ → σ) : Act σ Unit := fun s => (some (), f s)

/-- The value, or an exception. -/
def orThrow (o : Option α) : Act σ α := fun s => (o, s)

/-- `y` is done after `x`, whether `x` returns or throws. -/
def andFinally (x : Act σ α) (y : Act σ Unit) : Act σ α := fun s =>
  match y (x s).2 with
  | (some (), s') => ((x s).1, s')
  | (none, s') => (none, s')

@[simp] theorem pure_apply (a : α) (s : σ) : (pure a : Act σ α) s = (some a, s) := rfl

@[simp] theorem get_apply (s : σ) : (get : Act σ σ) s = (some s, s) := rfl

@[simp] theorem gets_apply (f : σ → α) (s : σ) : gets f s = (some (f s), s) := rfl

@[simp] theorem modify_apply (f : σ → σ) (s : σ) : modify f s = (some (), f s) := rfl

@[simp] theorem orThrow_apply (o : Option α) (s : σ) : orThrow o s = (o, s) := rfl

theorem bind_of_some {x : Act σ α} {f : α → Act σ β} {s s' : σ} {a : α} (h : x s = (some a, s')) :
    (x >>= f) s = f a s' := by
  show (match x s with | (some a, s') => f a s' | (none, s') => (none, s')) = _
  rw [h]

theorem bind_of_none {x : Act σ α} {f : α → Act σ β} {s s' : σ} (h : x s = (none, s')) :
    (x >>= f) s = (none, s') := by
  show (match x s with | (some a, s') => f a s' | (none, s') => (none, s')) = _
  rw [h]

@[simp] theorem pure_bind_apply (a : α) (f : α → Act σ β) (s : σ) : ((pure a : Act σ α) >>= f) s = f a s := rfl

@[simp] theorem get_bind_apply (f : σ → Act σ β) (s : σ) : (get >>= f) s = f s s := rfl

@[simp] theorem gets_bind_apply (g : σ → α) (f : α → Act σ β) (s : σ) :
    (gets g >>= f) s = f (g s) s := rfl

@[simp] theorem modify_bind_apply (g : σ → σ) (f : Unit → Act σ β) (s : σ) :
    (modify g >>= f) s = f () (g s) := rfl

@[simp] theorem orThrow_some_bind_apply (a : α) (f : α → Act σ β) (s : σ) :
    (orThrow (some a) >>= f) s = f a s := rfl

@[simp] theorem orThrow_none_bind_apply (f : α → Act σ β) (s : σ) :
    ((orThrow none : Act σ α) >>= f) s = (none, s) := rfl

theorem bind_assoc {γ : Type} (x : Act σ α) (f : α → Act σ β) (g : β → Act σ γ) :
    x >>= f >>= g = x >>= fun a => f a >>= g := by
  funext s
  show (match (x >>= f) s with | (some b, s') => g b s' | (none, s') => (none, s')) = _
  cases h : x s with
  | mk r s' =>
    cases r with
    | some a =>
      rw [bind_of_some h, bind_of_some h]
      rfl
    | none => rw [bind_of_none h, bind_of_none h]

theorem andFinally_apply {x : Act σ α} {y : Act σ Unit} {s s' : σ} (h : y (x s).2 = (some (), s')) :
    x.andFinally y s = ((x s).1, s') := by
  unfold andFinally
  rw [h]

/-- The state after a sequence is that after its first part, which threw, or that after the rest. -/
theorem snd_bind {P : σ → Prop} {x : Act σ α} {f : α → Act σ β} {s s' : σ} (hs : (x s).2 = s')
    (hnone : P s') (hsome : ∀ a, P (f a s').2) : P ((x >>= f) s).2 := by
  subst hs
  cases h : x s with
  | mk r s' =>
    rw [h] at hnone hsome
    cases r with
    | some a =>
      rw [bind_of_some h]
      exact hsome a
    | none =>
      rw [bind_of_none h]
      exact hnone

/-! ## What an action may change -/

/-- From every state the action ends in a related one. -/
def Leads (R : σ → σ → Prop) (x : Act σ α) : Prop := ∀ s, R s (x s).2

section Rules

variable {R : σ → σ → Prop}

theorem Leads.pure [Std.Refl R] (a : α) : Leads R (pure a : Act σ α) := fun s => Std.Refl.refl s

theorem Leads.get [Std.Refl R] : Leads R (Act.get : Act σ σ) := fun s => Std.Refl.refl s

theorem Leads.gets [Std.Refl R] (f : σ → α) : Leads R (Act.gets f) := fun s => Std.Refl.refl s

theorem Leads.orThrow [Std.Refl R] (o : Option α) : Leads R (Act.orThrow o : Act σ α) := fun s => Std.Refl.refl s

theorem Leads.modify {f : σ → σ} (h : ∀ s, R s (f s)) : Leads R (Act.modify f) := h

theorem Leads.bind [IsTrans σ R] {x : Act σ α} {f : α → Act σ β} (hx : Leads R x)
    (hf : ∀ a, Leads R (f a)) : Leads R (x >>= f) := by
  intro s
  have hstep := hx s
  cases h : x s with
  | mk r s' =>
    rw [h] at hstep
    cases r with
    | some a =>
      rw [bind_of_some h]
      exact IsTrans.trans _ _ _ hstep (hf a s')
    | none =>
      rw [bind_of_none h]
      exact hstep

theorem Leads.ite {c : Prop} [Decidable c] {x y : Act σ α} (hx : Leads R x) (hy : Leads R y) :
    Leads R (if c then x else y) := by
  split
  · exact hx
  · exact hy

end Rules

end Act
