import MoaCrypto.Lib.Act

/-!
# Sessions without automatic commits

A session works on its own copy of what is committed.  `commit` makes the copy what is committed,
`rollback` drops it; both act only if a statement was sent since the last of them.

* `committed_commit`: what is committed is the copy, whether or not there was anything to commit.
* `andFinally_commit`: a block with `commit` at its end commits what it has worked out, also if it
  throws.
-/

/-- What is committed and the session's own copy, the same until a statement is sent. -/
structure Session (δ : Type) where
  committed : δ
  working : δ
  dirty : Bool
  clean : dirty = false → working = committed

namespace Session

variable {δ α : Type}

/-- A new session. -/
def opened (d : δ) : Session δ := ⟨d, d, false, fun _ => rfl⟩

/-- A statement: a count of rows and a changed copy, or an exception that changes nothing. -/
def update (statement : δ → Option (Nat × δ)) : Act (Session δ) Nat := fun s =>
  match statement s.working with
  | some (count, d) => (some count, ⟨s.committed, d, true, nofun⟩)
  | none => (none, ⟨s.committed, s.working, true, nofun⟩)

def commit : Act (Session δ) Unit := fun s =>
  (some (), if s.dirty then ⟨s.working, s.working, false, fun _ => rfl⟩ else s)

def rollback : Act (Session δ) Unit := fun s =>
  (some (), if s.dirty then ⟨s.committed, s.committed, false, fun _ => rfl⟩ else s)

theorem update_of_some {statement : δ → Option (Nat × δ)} {s : Session δ} {count : Nat} {d : δ}
    (h : statement s.working = some (count, d)) :
    update statement s = (some count, ⟨s.committed, d, true, nofun⟩) := by
  unfold update
  rw [h]

theorem update_of_none {statement : δ → Option (Nat × δ)} {s : Session δ}
    (h : statement s.working = none) :
    update statement s = (none, ⟨s.committed, s.working, true, nofun⟩) := by
  unfold update
  rw [h]

theorem committed_commit (s : Session δ) : (commit s).2.committed = s.working := by
  unfold commit
  cases hdirty : s.dirty with
  | true => rfl
  | false => exact (s.clean hdirty).symm

/-- **A block with `commit` at its end** commits what it has worked out, whether it returns or throws. -/
theorem andFinally_commit (x : Act (Session δ) α) (s : Session δ) :
    (x.andFinally commit s).1 = (x s).1 ∧
      (x.andFinally commit s).2.committed = (x s).2.working := by
  rw [@Act.andFinally_apply _ _ x commit s (commit (x s).2).2 rfl]
  exact ⟨rfl, committed_commit _⟩

end Session
