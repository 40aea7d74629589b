import MoaCrypto.Lib.Interleave

/-!
# Programs that read first and then write

Threads that share a store each ask some reads and then, if the answers are good enough, a number of
writes.  A `Discipline` says which queries are reads, which answers let a thread go on, what a thread
may ask with what it has learned, and which stores count as the same; it is `Lawful` for a handler if
the writes of two threads that are apart commute and leave each other's good answers as they are.

Such threads can be put one after the other, in the order of their first writes (`commitOrder`): every
interleaving leaves the same store as this serial run, and every thread that writes ends in both in
the same way (`exec_serial`).  Between its first and its last write a thread is counted with all of its
writes done (`settled`), so that the order of the first writes is the right one at any point.
-/

namespace QueryProg

variable {ι Q : Type} [DecidableEq ι] {A : Q → Type} {E ρ σ M : Type}

/-! ## The discipline -/

structure Discipline (Q : Type) (A : Q → Type) (σ M : Type) where
  isRead : Q → Bool
  accepts : (q : Q) → A q → Prop
  may : M → Q → Prop
  note : M → (q : Q) → A q → M
  apart : M → M → Prop
  holds : M → σ → Prop
  sound : σ → Prop
  same : σ → σ → Prop

variable (d : Discipline Q A σ M) (h : (q : Q) → σ → A q × σ)

/-- What is asked of the store.  A store that a write makes unsound stays so, whatever is written
after it. -/
structure Discipline.Lawful : Prop where
  equiv : Equivalence d.same
  sound_same : ∀ s s', d.same s s' → d.sound s → d.sound s'
  holds_same : ∀ m s s', d.same s s' → d.holds m s → d.holds m s'
  apart_symm : ∀ m m', d.apart m m' → d.apart m' m
  apart_note : ∀ m m' q a, d.apart m m' → d.apart (d.note m q a) m'
  may_note : ∀ m q q' a, d.isRead q = true → d.may m q → d.may (d.note m q' a) q
  read : ∀ q s, d.isRead q = true → (h q s).2 = s
  read_same : ∀ q s s', d.isRead q = true → d.sound s → d.same s s' → d.accepts q (h q s).1 →
    (h q s').1 = (h q s).1
  holds_note : ∀ m q s, d.isRead q = true → d.holds m s → d.accepts q (h q s).1 →
    d.holds (d.note m q (h q s).1) s
  write_answer : ∀ w s s', d.isRead w = false → (h w s).1 = (h w s').1
  write_same : ∀ w s s', d.isRead w = false → d.same s s' → d.same (h w s).2 (h w s').2
  sound_of_write : ∀ w s, d.isRead w = false → d.sound (h w s).2 → d.sound s
  holds_write : ∀ m w s, d.isRead w = false → d.holds m s → d.holds m (h w s).2
  stable : ∀ m m' q w s, d.apart m m' → d.isRead q = true → d.may m q → d.isRead w = false →
    d.may m' w → d.sound (h w s).2 → d.accepts q (h q s).1 → (h q (h w s).2).1 = (h q s).1
  comm : ∀ m m' w w' s, d.apart m m' → d.isRead w = false → d.may m w → d.holds m s →
    d.isRead w' = false → d.may m' w' → d.holds m' s → d.sound (h w' (h w s).2).2 →
    d.same (h w' (h w s).2).2 (h w (h w' s).2).2

/-- Where a thread is: it reads, it has had an answer that does not let it go on, or it writes. -/
inductive Stage
  | reading
  | refused
  | writing
  deriving DecidableEq

/-- What a thread may ask at its stage. -/
def Discipline.allows : M × Stage → Q → Prop
  | (m, .reading), q => d.may m q
  | (_, .refused), q => d.isRead q = true
  | (m, .writing), q => d.isRead q = false ∧ d.may m q

open Classical in
/-- A thread notes the answers that it accepts, up to its first write. -/
noncomputable def Discipline.moves : M × Stage → (q : Q) → A q → M × Stage
  | (m, .reading), q, a =>
    if d.isRead q = false then (m, .writing)
    else if d.accepts q a then (d.note m q a, .reading) else (m, .refused)
  | (m, .refused), _, _ => (m, .refused)
  | (m, .writing), _, _ => (m, .writing)

/-- The program reads first and then writes, as the discipline lets it. -/
def Discipline.Keeps (m : M) (p : Prog Q A E ρ) : Prop :=
  Prog.Follows d.allows d.moves (fun _ _ => True) (m, .reading) p

/-- The program only writes, and no more than `m` lets it. -/
def Discipline.Writes (m : M) (p : Prog Q A E ρ) : Prop :=
  Prog.Uses (fun w => d.isRead w = false ∧ d.may m w) p

variable {d h}

/-- A thread that reads goes on with a good answer, and with any other it is refused. -/
theorem moves_accepts {m : M} {q : Q} {a : A q} (hread : d.isRead q = true) (h : d.accepts q a) :
    d.moves (m, .reading) q a = (d.note m q a, .reading) := by
  simp [Discipline.moves, hread, h]

theorem moves_rejects {m : M} {q : Q} {a : A q} (hread : d.isRead q = true) (h : ¬ d.accepts q a) :
    d.moves (m, .reading) q a = (m, .refused) := by
  simp [Discipline.moves, hread, h]

theorem writes_of_follows {m : M} {p : Prog Q A E ρ}
    (hp : Prog.Follows d.allows d.moves (fun _ _ => True) (m, .writing) p) : d.Writes m p := by
  induction p with
  | ret r => trivial
  | fail e => trivial
  | ask q k ih => exact ⟨hp.1, fun a => ih a (hp.2 a)⟩

theorem follows_of_writes {m : M} {p : Prog Q A E ρ} (hp : d.Writes m p) {stage : Stage}
    (hstage : stage ≠ .refused) :
    Prog.Follows d.allows d.moves (fun _ _ => True) (m, stage) p := by
  induction p generalizing stage with
  | ret r => trivial
  | fail e => trivial
  | ask w k ih =>
    have hmoves (a : A w) : d.moves (m, stage) w a = (m, .writing) := by
      cases stage with
      | reading => simp [Discipline.moves, hp.1.1]
      | refused => exact absurd rfl hstage
      | writing => rfl
    refine ⟨?_, fun a => ?_⟩
    · cases stage with
      | reading => exact hp.1.2
      | refused => exact absurd rfl hstage
      | writing => exact hp.1
    · rw [hmoves a]
      exact ih a (hp.2 a) (by decide)

/-! ## Programs that only write -/

section

variable (law : d.Lawful h)
include law

/-- Stores that are the same are so after the program, and it ends in the same way. -/
theorem Discipline.Lawful.run_same {m : M} {p : Prog Q A E ρ} (hp : d.Writes m p) {s s' : σ}
    (hsame : d.same s s') : (p.run h s).1 = (p.run h s').1 ∧ d.same (p.run h s).2 (p.run h s').2 := by
  induction p generalizing s s' with
  | ret r => exact ⟨rfl, hsame⟩
  | fail e => exact ⟨rfl, hsame⟩
  | ask w k ih =>
    rw [Prog.run_ask, Prog.run_ask, law.write_answer w s' s hp.1.1]
    exact ih _ (hp.2 _) (law.write_same w s s' hp.1.1 hsame)

/-- How the program ends does not depend on the store. -/
theorem Discipline.Lawful.run_answer {m : M} {p : Prog Q A E ρ} (hp : d.Writes m p) (s s' : σ) :
    (p.run h s).1 = (p.run h s').1 := by
  induction p generalizing s s' with
  | ret r => rfl
  | fail e => rfl
  | ask w k ih =>
    rw [Prog.run_ask, Prog.run_ask, law.write_answer w s' s hp.1.1]
    exact ih _ (hp.2 _) _ _

theorem Discipline.Lawful.sound_of_run {m : M} {p : Prog Q A E ρ} (hp : d.Writes m p) {s : σ}
    (hsound : d.sound (p.run h s).2) : d.sound s := by
  induction p generalizing s with
  | ret r => exact hsound
  | fail e => exact hsound
  | ask w k ih => exact law.sound_of_write w s hp.1.1 (ih _ (hp.2 _) hsound)

theorem Discipline.Lawful.holds_run {m m' : M} {p : Prog Q A E ρ} (hp : d.Writes m p) {s : σ}
    (hholds : d.holds m' s) : d.holds m' (p.run h s).2 := by
  induction p generalizing s with
  | ret r => exact hholds
  | fail e => exact hholds
  | ask w k ih => exact ih _ (hp.2 _) (law.holds_write m' w s hp.1.1 hholds)

/-- A good answer of a thread that is apart stays the answer. -/
theorem Discipline.Lawful.run_stable {m m' : M} (hapart : d.apart m m') {q : Q}
    (hread : d.isRead q = true) (hmay : d.may m q) {p : Prog Q A E ρ} (hp : d.Writes m' p) {s : σ}
    (hsound : d.sound (p.run h s).2) (haccepts : d.accepts q (h q s).1) :
    (h q (p.run h s).2).1 = (h q s).1 := by
  induction p generalizing s with
  | ret r => rfl
  | fail e => rfl
  | ask w k ih =>
    have hone := law.stable m m' q w s hapart hread hmay hp.1.1 hp.1.2
      (law.sound_of_run (hp.2 _) hsound) haccepts
    have hrest := ih (h w s).1 (hp.2 _) hsound (by rw [hone]; exact haccepts)
    exact hrest.trans hone

/-- A write of a thread that is apart may as well be done after the program. -/
theorem Discipline.Lawful.run_comm {m m' : M} (hapart : d.apart m m') {w : Q}
    (hwrite : d.isRead w = false) (hmay : d.may m w) {p : Prog Q A E ρ} (hp : d.Writes m' p) {s : σ}
    (hholds : d.holds m s) (hholds' : d.holds m' s) (hsound : d.sound (p.run h (h w s).2).2) :
    d.same (p.run h (h w s).2).2 (h w (p.run h s).2).2 := by
  induction p generalizing s with
  | ret r => exact law.equiv.refl _
  | fail e => exact law.equiv.refl _
  | ask w' k ih =>
    rw [Prog.run_ask] at hsound ⊢
    rw [Prog.run_ask]
    rw [law.write_answer w' (h w s).2 s hp.1.1] at hsound ⊢
    have hone := law.comm m m' w w' s hapart hwrite hmay hholds hp.1.1 hp.1.2 hholds'
      (law.sound_of_run (hp.2 _) hsound)
    have hmoved := (law.run_same (hp.2 (h w' s).1) hone).2
    have hrest := ih (h w' s).1 (hp.2 _) (law.holds_write m w' s hp.1.1 hholds)
      (law.holds_write m' w' s hp.1.1 hholds') (law.sound_same _ _ hmoved hsound)
    exact law.equiv.trans hmoved hrest

end

/-! ## One thread after the other -/

/-- The program that has ended so. -/
def Prog.ofResult : Except E ρ → Prog Q A E ρ
  | .ok r => .ret r
  | .error e => .fail e

section

variable {c : Config ι A E ρ σ} {i : ι} (hi : ¬ c.Live i)
include hi

omit [DecidableEq ι] in
theorem Config.thread_of_ended (s : σ) : c.thread i = Prog.ofResult ((c.thread i).run h s).1 := by
  cases hk : c.thread i with
  | ret r => rfl
  | fail e => rfl
  | ask q k => exact absurd ⟨q, k, hk⟩ hi

omit [DecidableEq ι] in
theorem Config.store_of_ended (s : σ) : ((c.thread i).run h s).2 = s := by
  cases hk : c.thread i with
  | ret r => rfl
  | fail e => rfl
  | ask q k => exact absurd ⟨q, k, hk⟩ hi

end

/-- The threads that have written, in the order of their first writes (the newest event is the first
of the log). -/
def commitOrder (isRead : Q → Bool) : List (Event ι Q A) → List ι
  | [] => []
  | e :: log =>
    if isRead e.query = true ∨ e.thread ∈ commitOrder isRead log then commitOrder isRead log
    else commitOrder isRead log ++ [e.thread]

theorem mem_commitOrder_cons {isRead : Q → Bool} {e : Event ι Q A} {log : List (Event ι Q A)} {i : ι} :
    i ∈ commitOrder isRead (e :: log) ↔
      e.thread = i ∧ isRead e.query = false ∨ i ∈ commitOrder isRead log := by
  rw [commitOrder]
  split
  next hold =>
    constructor
    · exact Or.inr
    · rintro (⟨rfl, hwrite⟩ | hmem)
      · rcases hold with hread | hmem
        · rw [hread] at hwrite
          cases hwrite
        · exact hmem
      · exact hmem
  next hnew =>
    rw [not_or, Bool.not_eq_true] at hnew
    rw [List.mem_append, List.mem_singleton, or_comm, eq_comm, and_iff_left hnew.1]

theorem mem_commitOrder {isRead : Q → Bool} {log : List (Event ι Q A)} {i : ι} :
    i ∈ commitOrder isRead log ↔ ∃ e ∈ log, e.thread = i ∧ isRead e.query = false := by
  induction log with
  | nil => simp [commitOrder]
  | cons e log ih =>
    rw [mem_commitOrder_cons, ih]
    simp only [List.mem_cons, or_and_right, exists_or, exists_eq_left]

theorem nodup_commitOrder (isRead : Q → Bool) (log : List (Event ι Q A)) :
    (commitOrder isRead log).Nodup := by
  induction log with
  | nil => exact List.nodup_nil
  | cons e log ih =>
    rw [commitOrder]
    split
    next => exact ih
    next hnew =>
      refine List.nodup_append.mpr ⟨ih, List.nodup_cons.mpr ⟨List.not_mem_nil, List.nodup_nil⟩, ?_⟩
      rintro i hi j hj rfl
      rw [List.mem_singleton.mp hj] at hi
      exact hnew (Or.inr hi)

variable (h) in
/-- The store after the threads of the list, one after the other. -/
def serial (p : ι → Prog Q A E ρ) (s : σ) (order : List ι) : σ :=
  StepRun.run (fun s i => ((p i).run h s).2) s order

omit [DecidableEq ι] in
/-- Threads that have ended write nothing. -/
theorem serial_ended {c : Config ι A E ρ σ} {order : List ι} (hended : ∀ i ∈ order, ¬ c.Live i)
    (s : σ) : serial h c.thread s order = s := by
  induction order generalizing s with
  | nil => rfl
  | cons i order ih =>
    rw [serial, StepRun.run_cons, Config.store_of_ended (hended i List.mem_cons_self)]
    exact ih (fun j hj => hended j (List.mem_cons_of_mem _ hj)) s

omit [DecidableEq ι] in
theorem serial_congr {p p' : ι → Prog Q A E ρ} {order : List ι} (hp : ∀ i ∈ order, p i = p' i) (s : σ) :
    serial h p s order = serial h p' s order := by
  induction order generalizing s with
  | nil => rfl
  | cons i order ih =>
    rw [serial, serial, StepRun.run_cons, StepRun.run_cons, hp i List.mem_cons_self]
    exact ih (fun j hj => hp j (List.mem_cons_of_mem _ hj)) _

section

variable (law : d.Lawful h) {p : ι → Prog Q A E ρ} {m : ι → M}
include law

omit [DecidableEq ι] in
theorem Discipline.Lawful.serial_same {order : List ι} (hp : ∀ i ∈ order, d.Writes (m i) (p i))
    {s s' : σ} (hsame : d.same s s') : d.same (serial h p s order) (serial h p s' order) := by
  induction order generalizing s s' with
  | nil => exact hsame
  | cons i order ih =>
    exact ih (fun j hj => hp j (List.mem_cons_of_mem _ hj))
      (law.run_same (hp i List.mem_cons_self) hsame).2

omit [DecidableEq ι] in
theorem Discipline.Lawful.sound_of_serial {order : List ι} (hp : ∀ i ∈ order, d.Writes (m i) (p i))
    {s : σ} (hsound : d.sound (serial h p s order)) : d.sound s := by
  induction order generalizing s with
  | nil => exact hsound
  | cons i order ih =>
    exact law.sound_of_run (hp i List.mem_cons_self)
      (ih (fun j hj => hp j (List.mem_cons_of_mem _ hj)) hsound)

omit [DecidableEq ι] in
theorem Discipline.Lawful.serial_stable {m' : M} {order : List ι}
    (hp : ∀ i ∈ order, d.Writes (m i) (p i)) (hapart : ∀ i ∈ order, d.apart m' (m i)) {q : Q}
    (hread : d.isRead q = true) (hmay : d.may m' q) {s : σ} (hsound : d.sound (serial h p s order))
    (haccepts : d.accepts q (h q s).1) : (h q (serial h p s order)).1 = (h q s).1 := by
  induction order generalizing s with
  | nil => rfl
  | cons i order ih =>
    have hrestp : ∀ j ∈ order, d.Writes (m j) (p j) := fun j hj => hp j (List.mem_cons_of_mem _ hj)
    have hone := law.run_stable (hapart i List.mem_cons_self) hread hmay (hp i List.mem_cons_self)
      (law.sound_of_serial hrestp hsound) haccepts
    have hrest := ih hrestp (fun j hj => hapart j (List.mem_cons_of_mem _ hj)) hsound
      (by rw [hone]; exact haccepts)
    exact hrest.trans hone

omit [DecidableEq ι] in
/-- A write of a thread that is apart from all of them may as well be done after them. -/
theorem Discipline.Lawful.serial_comm {m' : M} {order : List ι}
    (hp : ∀ i ∈ order, d.Writes (m i) (p i)) (hapart : ∀ i ∈ order, d.apart m' (m i)) {w : Q}
    (hwrite : d.isRead w = false) (hmay : d.may m' w) {s : σ} (hholds : d.holds m' s)
    (hothers : ∀ i ∈ order, d.holds (m i) s) (hsound : d.sound (serial h p (h w s).2 order)) :
    d.same (serial h p (h w s).2 order) (h w (serial h p s order)).2 := by
  induction order generalizing s with
  | nil => exact law.equiv.refl _
  | cons i order ih =>
    have hi := hp i List.mem_cons_self
    have hrestp : ∀ j ∈ order, d.Writes (m j) (p j) := fun j hj => hp j (List.mem_cons_of_mem _ hj)
    have hone := law.run_comm (hapart i List.mem_cons_self) hwrite hmay hi hholds
      (hothers i List.mem_cons_self) (law.sound_of_serial hrestp hsound)
    have hmoved := law.serial_same hrestp hone
    have hrest := ih hrestp (fun j hj => hapart j (List.mem_cons_of_mem _ hj))
      (law.holds_run hi hholds)
      (fun j hj => law.holds_run hi (hothers j (List.mem_cons_of_mem _ hj)))
      (law.sound_same _ _ hmoved hsound)
    exact law.equiv.trans hmoved hrest

end

/-! ## Runs -/

variable (d h) in
/-- The store with all that the committed threads have still to write. -/
def settled (c : Config ι A E ρ σ) : σ := serial h c.thread c.store (commitOrder d.isRead c.log)

variable (d) in
/-- What thread `i` has learned, and its stage. -/
noncomputable def phase (m : ι → M) (i : ι) (log : List (Event ι Q A)) : M × Stage :=
  Config.track d.moves (m i, .reading) i log

variable (d) in
/-- What holds at any point of a run, sound or not. -/
structure Kept (m : ι → M) (c : Config ι A E ρ σ) : Prop where
  follow : Config.AllFollow d.allows d.moves (fun _ _ _ => True) (fun i => (m i, .reading)) c
  apart : ∀ i j, i ≠ j → d.apart (phase d m i c.log).1 (phase d m j c.log).1
  holds : ∀ i, d.holds (phase d m i c.log).1 c.store
  writing : ∀ i, i ∈ commitOrder d.isRead c.log ↔ (phase d m i c.log).2 = .writing

variable {m : ι → M} {c : Config ι A E ρ σ}

/-- A committed thread only writes. -/
theorem Kept.writes (kept : Kept d m c) {i : ι} (hi : i ∈ commitOrder d.isRead c.log) :
    d.Writes (phase d m i c.log).1 (c.thread i) := by
  apply writes_of_follows
  have hphase : phase d m i c.log = ((phase d m i c.log).1, .writing) :=
    Prod.ext rfl ((kept.writing i).mp hi)
  rw [← hphase]
  exact kept.follow i

omit [DecidableEq ι] in
theorem moves_read {x : M × Stage} {q : Q} {a : A q} (hread : d.isRead q = true)
    (hallows : d.allows x q) : (d.moves x q a).2 ≠ .writing ∧ x.2 ≠ .writing ∧
      ((d.moves x q a).1 = x.1 ∨ x.2 = .reading ∧ d.accepts q a ∧ d.moves x q a = (d.note x.1 q a, .reading)) := by
  obtain ⟨m, stage⟩ := x
  cases stage with
  | reading =>
    by_cases haccepts : d.accepts q a
    · rw [moves_accepts hread haccepts]
      exact ⟨by simp, by simp, Or.inr ⟨rfl, haccepts, rfl⟩⟩
    · rw [moves_rejects hread haccepts]
      exact ⟨by simp, by simp, Or.inl rfl⟩
  | refused => exact ⟨by simp [Discipline.moves], by simp, Or.inl rfl⟩
  | writing => exact absurd (hread.symm.trans hallows.1) (by simp)

omit [DecidableEq ι] in
/-- A thread that reads on has accepted the answer. -/
theorem moves_reading {x : M × Stage} {q : Q} {a : A q} (hread : d.isRead q = true)
    (h : (d.moves x q a).2 = .reading) :
    x.2 = .reading ∧ d.accepts q a ∧ d.moves x q a = (d.note x.1 q a, .reading) := by
  obtain ⟨m, stage⟩ := x
  cases stage with
  | reading =>
    by_cases haccepts : d.accepts q a
    · exact ⟨rfl, haccepts, moves_accepts hread haccepts⟩
    · rw [moves_rejects hread haccepts] at h
      cases h
  | refused => cases h
  | writing => cases h

omit [DecidableEq ι] in
theorem moves_write {x : M × Stage} {q : Q} {a : A q} (hwrite : d.isRead q = false)
    (hallows : d.allows x q) : d.moves x q a = (x.1, .writing) := by
  obtain ⟨m, stage⟩ := x
  cases stage with
  | reading => simp [Discipline.moves, hwrite]
  | refused => exact absurd (hwrite.symm.trans hallows) (by simp)
  | writing => rfl

omit [DecidableEq ι] in
theorem may_write {x : M × Stage} {q : Q} (hwrite : d.isRead q = false) (hallows : d.allows x q) :
    d.may x.1 q := by
  obtain ⟨m, stage⟩ := x
  cases stage with
  | reading => exact hallows
  | refused => exact absurd (hwrite.symm.trans hallows) (by simp)
  | writing => exact hallows.2

/-- A thread that is about to write only writes from there on. -/
theorem Kept.writes_of_ask (kept : Kept d m c) {i : ι} {w : Q} {k : A w → Prog Q A E ρ}
    (hk : c.thread i = .ask w k) (hwrite : d.isRead w = false) :
    d.Writes (phase d m i c.log).1 (c.thread i) := by
  have hallows : d.allows (phase d m i c.log) w := kept.follow.allowed ⟨k, hk⟩
  have hfollow : Prog.Follows d.allows d.moves (fun _ _ => True) (phase d m i c.log) (c.thread i) :=
    kept.follow i
  rw [hk] at hfollow ⊢
  refine ⟨?_, fun a => writes_of_follows ?_⟩
  · exact ⟨hwrite, may_write hwrite hallows⟩
  · rw [← moves_write (a := a) hwrite hallows]
    exact hfollow.2 a

/-- A thread that asks for its first write has read up to there. -/
theorem Kept.reading_of_ask (kept : Kept d m c) {i : ι} {w : Q} {k : A w → Prog Q A E ρ}
    (hk : c.thread i = .ask w k) (hwrite : d.isRead w = false) (hmem : i ∉ commitOrder d.isRead c.log) :
    (phase d m i c.log).2 = .reading := by
  have hallows : d.allows (phase d m i c.log) w := kept.follow.allowed ⟨k, hk⟩
  have hstage := fun hw => hmem ((kept.writing i).mpr hw)
  generalize phase d m i c.log = x at hallows hstage
  obtain ⟨m', stage⟩ := x
  cases stage with
  | reading => rfl
  | refused => exact absurd (hwrite.symm.trans hallows) (by simp)
  | writing => exact absurd rfl hstage

section

variable (law : d.Lawful h)
include law

theorem Discipline.Lawful.apart_move {x : M × Stage} {m' : M} {q : Q} {a : A q}
    (hapart : d.apart x.1 m') (hallows : d.allows x q) : d.apart (d.moves x q a).1 m' := by
  cases hq : d.isRead q with
  | true =>
    obtain ⟨-, -, hsame | ⟨-, -, hnote⟩⟩ := moves_read (a := a) hq hallows
    · rwa [hsame]
    · rw [hnote]
      exact law.apart_note _ _ _ _ hapart
  | false =>
    rw [moves_write (a := a) hq hallows]
    exact hapart

/-- What a thread knows stays true. -/
theorem Discipline.Lawful.holds_query {m' : M} {q : Q} {s : σ} (hholds : d.holds m' s) :
    d.holds m' (h q s).2 := by
  cases hq : d.isRead q with
  | true => rwa [law.read q _ hq]
  | false => exact law.holds_write m' q _ hq hholds

/-- What a thread learns is true. -/
theorem Discipline.Lawful.holds_move {x : M × Stage} {q : Q} {s : σ} (hallows : d.allows x q)
    (hholds : d.holds x.1 s) : d.holds (d.moves x q (h q s).1).1 (h q s).2 := by
  cases hq : d.isRead q with
  | true =>
    rw [law.read q _ hq]
    obtain ⟨-, -, hkeep | ⟨-, haccepts, hnote⟩⟩ := moves_read (a := (h q s).1) hq hallows
    · rwa [hkeep]
    · rw [hnote]
      exact law.holds_note _ q _ hq hholds haccepts
  | false =>
    rw [moves_write (a := (h q s).1) hq hallows]
    exact law.holds_write _ q _ hq hholds

omit [DecidableEq ι] law in
/-- A thread is in its writing stage from its first write on. -/
theorem moves_writing_iff {x : M × Stage} {q : Q} {a : A q} (hallows : d.allows x q) :
    (d.moves x q a).2 = .writing ↔ d.isRead q = false ∨ x.2 = .writing := by
  cases hq : d.isRead q with
  | true =>
    obtain ⟨hafter, hbefore, -⟩ := moves_read (a := a) hq hallows
    simp [hafter, hbefore]
  | false => simp [moves_write (a := a) hq hallows]

/-- **Step.**  Whatever a thread does, it keeps to the discipline. -/
theorem Discipline.Lawful.kept_step (kept : Kept d m c) (i : ι) : Kept d m (c.step h i) := by
  have hfollow := Config.follows_step h c i kept.follow
  rcases Config.step_cases h c i with ⟨hsame, -⟩ | ⟨q, k, hk, hstep⟩
  · rw [hsame]
    exact kept
  have hallows : d.allows (phase d m i c.log) q := kept.follow.allowed ⟨k, hk⟩
  rw [hstep] at hfollow ⊢
  have hself : phase d m i (⟨i, q, (h q c.store).1⟩ :: c.log) =
      d.moves (phase d m i c.log) q (h q c.store).1 := Config.track_cons_self _ _ _ _ _ _
  have hother (j : ι) (hj : j ≠ i) :
      phase d m j (⟨i, q, (h q c.store).1⟩ :: c.log) = phase d m j c.log :=
    Config.track_cons_ne _ _ (Ne.symm hj) _ _ _
  refine ⟨hfollow, ?_, ?_, ?_⟩
  · intro j l hjl
    by_cases hj : j = i
    · subst hj
      rw [hself, hother l (Ne.symm hjl)]
      exact law.apart_move (kept.apart j l hjl) hallows
    · by_cases hl : l = i
      · subst hl
        rw [hself, hother j hj]
        exact law.apart_symm _ _ (law.apart_move (kept.apart l j (Ne.symm hj)) hallows)
      · rw [hother j hj, hother l hl]
        exact kept.apart j l hjl
  · intro j
    by_cases hj : j = i
    · subst hj
      rw [hself]
      exact law.holds_move hallows (kept.holds j)
    · rw [hother j hj]
      exact law.holds_query (kept.holds j)
  · intro j
    rw [mem_commitOrder_cons, kept.writing j]
    by_cases hj : j = i
    · subst hj
      rw [hself, moves_writing_iff hallows]
      simp
    · rw [hother j hj]
      simp [Ne.symm hj]

/-! ## What a step does to the settled store -/

/-- A read settles nothing. -/
theorem Discipline.Lawful.settled_read (kept : Kept d m c) {i : ι} {q : Q} {k : A q → Prog Q A E ρ}
    (hk : c.thread i = .ask q k) (hread : d.isRead q = true) :
    commitOrder d.isRead (c.step h i).log = commitOrder d.isRead c.log ∧
      settled d h (c.step h i) = settled d h c := by
  have hallows : d.allows (phase d m i c.log) q := kept.follow.allowed ⟨k, hk⟩
  have hcommits : commitOrder d.isRead (c.step h i).log = commitOrder d.isRead c.log := by
    rw [Config.log_step h hk, commitOrder, if_pos (Or.inl hread)]
  refine ⟨hcommits, ?_⟩
  rw [settled, settled, hcommits, Config.store_step h hk, law.read q _ hread]
  apply serial_congr
  intro j hj
  apply Config.thread_step_ne
  rintro rfl
  exact (moves_read (a := (h q c.store).1) hread hallows).2.1 ((kept.writing j).mp hj)

/-- A write is one of those that its thread is counted with, from its first write on. -/
theorem Discipline.Lawful.settled_write (kept : Kept d m c) {i : ι} {w : Q}
    {k : A w → Prog Q A E ρ} (hk : c.thread i = .ask w k) (hwrite : d.isRead w = false)
    (hsound : d.sound (settled d h (c.step h i))) :
    d.same (settled d h (c.step h i)) (serial h c.thread c.store (commitOrder d.isRead (c.step h i).log)) := by
  have kept' := law.kept_step kept i
  have hallows : d.allows (phase d m i c.log) w := kept.follow.allowed ⟨k, hk⟩
  have hphase : phase d m i (c.step h i).log = ((phase d m i c.log).1, .writing) := by
    rw [Config.log_step h hk, phase, Config.track_cons_self]
    exact moves_write hwrite hallows
  have hmem : i ∈ commitOrder d.isRead (c.step h i).log := by
    rw [kept'.writing i, hphase]
  obtain ⟨before, after, horder⟩ := List.append_of_mem hmem
  have hnodup := nodup_commitOrder d.isRead (c.step h i).log
  rw [horder] at hnodup
  have hbefore : i ∉ before := fun hi => (List.nodup_append.mp hnodup).2.2 i hi i List.mem_cons_self rfl
  have hafter : i ∉ after := (List.nodup_cons.mp (List.nodup_append.mp hnodup).2.1).1
  -- the other threads and what they know are those of `c`
  have hothers : ∀ j, j ≠ i → (c.step h i).thread j = c.thread j ∧
      phase d m j (c.step h i).log = phase d m j c.log :=
    fun j hj => ⟨Config.thread_step_ne h c hj, Config.track_step_ne d.moves h c _ hj⟩
  have hwrites : ∀ j ∈ before ++ i :: after, j ≠ i → d.Writes (phase d m j c.log).1 (c.thread j) := by
    intro j hj hne
    rw [← (hothers j hne).1, ← (hothers j hne).2]
    exact kept'.writes (by rw [horder]; exact hj)
  have hbeforeThread : ∀ j ∈ before, (c.step h i).thread j = c.thread j :=
    fun j hj => (hothers j fun he => hbefore (he ▸ hj)).1
  have hafterThread : ∀ j ∈ after, (c.step h i).thread j = c.thread j :=
    fun j hj => (hothers j fun he => hafter (he ▸ hj)).1
  have hself : (c.step h i).thread i = k (h w c.store).1 := by
    rw [Config.step_of_ask h hk]
    exact Function.update_self _ _ _
  rw [settled, horder] at hsound
  rw [settled, horder]
  simp only [serial, StepRun.run_append, StepRun.run_cons] at hsound ⊢
  have hfirst : ∀ s, StepRun.run (fun s j => (((c.step h i).thread j).run h s).2) s before =
      serial h c.thread s before := fun s => serial_congr hbeforeThread s
  have hlast : ∀ s, StepRun.run (fun s j => (((c.step h i).thread j).run h s).2) s after =
      serial h c.thread s after := fun s => serial_congr hafterThread s
  have hbeforeWrites : ∀ j ∈ before, d.Writes (phase d m j c.log).1 (c.thread j) := fun j hj =>
    hwrites j (List.mem_append_left _ hj) fun he => hbefore (he ▸ hj)
  have hafterWrites : ∀ j ∈ after, d.Writes (phase d m j c.log).1 (c.thread j) := fun j hj =>
    hwrites j (List.mem_append_right _ (List.mem_cons_of_mem _ hj)) fun he => hafter (he ▸ hj)
  have hselfWrites : d.Writes (phase d m i c.log).1 (k (h w c.store).1) := by
    rw [← hself]
    have hw := kept'.writes hmem
    rwa [hphase] at hw
  rw [hfirst, hlast, hself, Config.store_step h hk] at hsound
  rw [hfirst, hlast, hself, Config.store_step h hk, hk, Prog.run_ask,
    law.write_answer w (StepRun.run _ c.store before) c.store hwrite]
  apply law.serial_same hafterWrites
  refine (law.run_same hselfWrites ?_).2
  exact law.serial_comm hbeforeWrites
    (fun j hj => kept.apart i j fun he => hbefore (he ▸ hj)) hwrite (may_write hwrite hallows)
    (kept.holds i)
    (fun j _ => kept.holds j) (law.sound_of_run hselfWrites (law.sound_of_serial hafterWrites hsound))

/-- A settled store is sound if it is after the next step. -/
theorem Discipline.Lawful.sound_settled (kept : Kept d m c) (i : ι)
    (hsound : d.sound (settled d h (c.step h i))) : d.sound (settled d h c) := by
  rcases Config.step_cases h c i with ⟨hsame, -⟩ | ⟨q, k, hk, -⟩
  · rwa [hsame] at hsound
  cases hq : d.isRead q with
  | true =>
    rwa [(law.settled_read kept hk hq).2] at hsound
  | false =>
    have hsettled := law.sound_same _ _ (law.settled_write kept hk hq hsound) hsound
    rw [Config.log_step h hk, commitOrder, hq] at hsettled
    by_cases hmem : i ∈ commitOrder d.isRead c.log
    · rwa [if_pos (Or.inr hmem)] at hsettled
    · rw [if_neg (by simpa using hmem)] at hsettled
      rw [serial, StepRun.run_append] at hsettled
      exact law.sound_of_run (kept.writes_of_ask hk hq) hsettled

end

/-! ## Interleaved and serial runs -/

variable (d h) in
/-- The run so far as a serial run: a thread that reads would read the same once the committed threads
have done all they have to, and a committed thread has come to where it ends in the serial run. -/
structure Replayed (p : ι → Prog Q A E ρ) (m : ι → M) (s : σ) (c : Config ι A E ρ σ) : Prop where
  kept : Kept d m c
  answers : ∀ i, (phase d m i c.log).2 = .reading → ∀ e ∈ c.log, e.thread = i →
    d.isRead e.query = true ∧ d.may (phase d m i c.log).1 e.query ∧ d.accepts e.query e.answer ∧
      (h e.query c.store).1 = e.answer
  replay : ∀ i, (phase d m i c.log).2 = .reading → ∀ s',
    (∀ e ∈ c.log, e.thread = i → (h e.query s').1 = e.answer) →
      (p i).run h s' = (c.thread i).run h s'
  same : d.same (settled d h c) (serial h p s (commitOrder d.isRead c.log))
  ends : ∀ before i after, commitOrder d.isRead c.log = before ++ i :: after → ∀ s',
    ((p i).run h (serial h p s before)).1 = ((c.thread i).run h s').1

section

variable (law : d.Lawful h) {p : ι → Prog Q A E ρ} {s : σ}
include law

theorem Discipline.Lawful.replayed_read (hc : Replayed d h p m s c) {i : ι} {q : Q}
    {k : A q → Prog Q A E ρ} (hk : c.thread i = .ask q k) (hread : d.isRead q = true) :
    Replayed d h p m s (c.step h i) := by
  have hallows : d.allows (phase d m i c.log) q := hc.kept.follow.allowed ⟨k, hk⟩
  obtain ⟨hcommits, hsettled⟩ := law.settled_read hc.kept hk hread
  have hlog := Config.log_step h hk
  have hstore : (c.step h i).store = c.store := by rw [Config.store_step h hk, law.read q _ hread]
  have hself : phase d m i (c.step h i).log = d.moves (phase d m i c.log) q (h q c.store).1 := by
    rw [hlog, phase, Config.track_cons_self]
    rfl
  have hselfThread : (c.step h i).thread i = k (h q c.store).1 := by
    rw [Config.step_of_ask h hk]
    exact Function.update_self _ _ _
  refine ⟨law.kept_step hc.kept i, ?_, ?_, ?_, ?_⟩
  · intro j hj e he hthread
    rw [hstore]
    rw [hlog] at he
    by_cases hij : j = i
    · subst hij
      rw [hself] at hj ⊢
      obtain ⟨hbefore, haccepts, hnote⟩ := moves_reading hread hj
      have hmay : d.may (phase d m j c.log).1 q := by
        have hphase : phase d m j c.log = ((phase d m j c.log).1, .reading) := Prod.ext rfl hbefore
        rw [hphase] at hallows
        exact hallows
      rw [hnote]
      rcases List.mem_cons.mp he with rfl | he
      · exact ⟨hread, law.may_note _ _ _ _ hread hmay, haccepts, rfl⟩
      · obtain ⟨hreads, hmays, hrest⟩ := hc.answers j hbefore e he hthread
        exact ⟨hreads, law.may_note _ _ _ _ hreads hmays, hrest⟩
    · rw [phase, Config.track_step_ne d.moves h c _ hij] at hj ⊢
      rcases List.mem_cons.mp he with rfl | he
      · exact absurd hthread.symm hij
      · exact hc.answers j hj e he hthread
  · intro j hj s' hs'
    rw [hlog] at hs'
    have hold : ∀ e ∈ c.log, e.thread = j → (h e.query s').1 = e.answer :=
      fun e he => hs' e (List.mem_cons_of_mem _ he)
    by_cases hij : j = i
    · subst hij
      rw [hself] at hj
      obtain ⟨hbefore, -, -⟩ := moves_reading hread hj
      have hanswer : (h q s').1 = (h q c.store).1 := hs' _ List.mem_cons_self rfl
      rw [hc.replay j hbefore s' hold, hk, Prog.run_ask, hselfThread, hanswer, law.read q s' hread]
    · rw [phase, Config.track_step_ne d.moves h c _ hij] at hj
      rw [hc.replay j hj s' hold, Config.thread_step_ne h c hij]
  · rw [hsettled, hcommits]
    exact hc.same
  · intro before j after horder s'
    rw [hcommits] at horder
    have hij : j ≠ i := by
      rintro rfl
      have hmem : j ∈ commitOrder d.isRead c.log := by
        rw [horder]
        exact List.mem_append_right _ List.mem_cons_self
      exact (moves_read (a := (h q c.store).1) hread hallows).2.1 ((hc.kept.writing j).mp hmem)
    rw [Config.thread_step_ne h c hij]
    exact hc.ends before j after horder s'

/-- A thread that reads would get its answers in the serial store as well. -/
theorem Discipline.Lawful.answers_serial (hc : Replayed d h p m s c)
    (hsound : d.sound (settled d h c)) {i : ι} (hreading : (phase d m i c.log).2 = .reading) :
    ∀ e ∈ c.log, e.thread = i →
      (h e.query (serial h p s (commitOrder d.isRead c.log))).1 = e.answer := by
  intro e he hthread
  obtain ⟨hread, hmay, haccepts, hanswer⟩ := hc.answers i hreading e he hthread
  have hapart : ∀ j ∈ commitOrder d.isRead c.log,
      d.apart (phase d m i c.log).1 (phase d m j c.log).1 := by
    intro j hj
    apply hc.kept.apart
    rintro rfl
    rw [(hc.kept.writing i).mp hj] at hreading
    cases hreading
  have hsettled := law.serial_stable (fun j hj => hc.kept.writes hj) hapart hread hmay hsound
    (by rw [hanswer]; exact haccepts)
  rw [hanswer] at hsettled
  have hserial := law.read_same e.query _ _ hread hsound hc.same (by rw [settled, hsettled]; exact haccepts)
  exact hserial.trans hsettled

/-- A thread that reads has come in the serial store to where it is. -/
theorem Discipline.Lawful.replay_serial (hc : Replayed d h p m s c)
    (hsound : d.sound (settled d h c)) {i : ι} (hreading : (phase d m i c.log).2 = .reading) :
    (p i).run h (serial h p s (commitOrder d.isRead c.log)) =
      (c.thread i).run h (serial h p s (commitOrder d.isRead c.log)) :=
  hc.replay i hreading _ (law.answers_serial hc hsound hreading)

theorem Discipline.Lawful.replayed_write (hc : Replayed d h p m s c) {i : ι} {w : Q}
    {k : A w → Prog Q A E ρ} (hk : c.thread i = .ask w k) (hwrite : d.isRead w = false)
    (hsound : d.sound (settled d h (c.step h i))) : Replayed d h p m s (c.step h i) := by
  have kept' := law.kept_step hc.kept i
  have hallows : d.allows (phase d m i c.log) w := hc.kept.follow.allowed ⟨k, hk⟩
  have hlog := Config.log_step h hk
  have hself : (phase d m i (c.step h i).log).2 = .writing := by
    rw [hlog, phase, Config.track_cons_self]
    exact congrArg Prod.snd (moves_write hwrite hallows)
  have hwrites := hc.kept.writes_of_ask hk hwrite
  -- how the thread ends from here on, it did before the write
  have hends : ∀ s₁ s₂, ((c.thread i).run h s₁).1 = (((c.step h i).thread i).run h s₂).1 := by
    intro s₁ s₂
    rw [law.run_answer hwrites s₁ c.store, hk, Prog.run_ask, Config.step_of_ask h hk]
    simp only [Function.update_self]
    rw [hk] at hwrites
    exact law.run_answer (hwrites.2 _) _ _
  have hother : ∀ j, (phase d m j (c.step h i).log).2 = .reading → j ≠ i := by
    rintro j hj rfl
    rw [hself] at hj
    cases hj
  refine ⟨kept', ?_, ?_, ?_, ?_⟩
  · intro j hj e he hthread
    have hij := hother j hj
    rw [phase, Config.track_step_ne d.moves h c _ hij] at hj ⊢
    rw [hlog] at he
    rcases List.mem_cons.mp he with rfl | he
    · exact absurd hthread.symm hij
    · obtain ⟨hread, hmay, haccepts, hanswer⟩ := hc.answers j hj e he hthread
      refine ⟨hread, hmay, haccepts, ?_⟩
      have hstored := law.sound_of_serial (fun l hl => kept'.writes hl) hsound
      rw [Config.store_step h hk] at hstored ⊢
      rw [← hanswer] at haccepts
      exact (law.stable _ _ _ w _ (hc.kept.apart j i hij) hread hmay hwrite
        (may_write hwrite hallows) hstored haccepts).trans hanswer
  · intro j hj s' hs'
    have hij := hother j hj
    rw [phase, Config.track_step_ne d.moves h c _ hij] at hj
    rw [hlog] at hs'
    rw [hc.replay j hj s' fun e he => hs' e (List.mem_cons_of_mem _ he), Config.thread_step_ne h c hij]
  · have hsettled := law.settled_write hc.kept hk hwrite hsound
    refine law.equiv.trans hsettled ?_
    rw [hlog, commitOrder, hwrite]
    by_cases hmem : i ∈ commitOrder d.isRead c.log
    · rw [if_pos (Or.inr hmem)]
      exact hc.same
    · rw [if_neg (by simpa using hmem), serial, serial, StepRun.run_append, StepRun.run_append]
      have hreplay := law.replay_serial hc (law.sound_settled hc.kept i hsound)
        (hc.kept.reading_of_ask hk hwrite hmem)
      change d.same ((c.thread i).run h (settled d h c)).2
        ((p i).run h (serial h p s (commitOrder d.isRead c.log))).2
      rw [hreplay]
      exact (law.run_same hwrites hc.same).2
  · intro before j after horder s'
    rw [hlog, commitOrder, hwrite] at horder
    by_cases hmem : i ∈ commitOrder d.isRead c.log
    · rw [if_pos (Or.inr hmem)] at horder
      by_cases hij : j = i
      · subst hij
        rw [hc.ends before j after horder c.store]
        exact hends _ _
      · rw [Config.thread_step_ne h c hij]
        exact hc.ends before j after horder s'
    · rw [if_neg (by simpa using hmem)] at horder
      have hreplay := law.replay_serial hc (law.sound_settled hc.kept i hsound)
        (hc.kept.reading_of_ask hk hwrite hmem)
      rcases List.eq_nil_or_concat' after with rfl | ⟨rest, l, rfl⟩
      · obtain ⟨rfl, hlast⟩ := List.append_inj' horder rfl
        obtain rfl := (List.cons.inj hlast).1
        rw [hreplay]
        exact hends _ _
      · rw [← List.cons_append, ← List.append_assoc] at horder
        obtain ⟨hold, -⟩ := List.append_inj' horder rfl
        have hij : j ≠ i := by
          rintro rfl
          exact hmem (by rw [hold]; exact List.mem_append_right _ List.mem_cons_self)
        rw [Config.thread_step_ne h c hij]
        exact hc.ends before j rest hold s'

omit law in
theorem replayed_start (law : d.Lawful h) (hp : ∀ i, d.Keeps (m i) (p i))
    (hapart : ∀ i j, i ≠ j → d.apart (m i) (m j)) (hholds : ∀ i, d.holds (m i) s) :
    Replayed d h p m s (Config.start s p) := by
  refine ⟨⟨hp, hapart, hholds, fun i => ?_⟩, fun i _ e he => ?_, fun i _ s' _ => rfl, ?_, ?_⟩
  · constructor
    · intro hi
      exact absurd hi List.not_mem_nil
    · intro hi
      cases hi
  · exact absurd he List.not_mem_nil
  · exact law.equiv.refl _
  · intro before i after horder
    have hlen := congrArg List.length horder
    simp [commitOrder, Config.start] at hlen

theorem Discipline.Lawful.sound_settled_exec (kept : Kept d m c) {sched : List ι}
    (hsound : d.sound (settled d h (c.exec h sched))) : d.sound (settled d h c) := by
  induction sched generalizing c with
  | nil => exact hsound
  | cons i sched ih => exact law.sound_settled kept i (ih (law.kept_step kept i) hsound)

theorem Discipline.Lawful.replayed_exec (hc : Replayed d h p m s c) {sched : List ι}
    (hsound : d.sound (settled d h (c.exec h sched))) : Replayed d h p m s (c.exec h sched) := by
  induction sched generalizing c with
  | nil => exact hc
  | cons i sched ih =>
    refine ih ?_ hsound
    rcases Config.step_cases h c i with ⟨hsame, -⟩ | ⟨q, k, hk, -⟩
    · rw [hsame]
      exact hc
    · cases hq : d.isRead q with
      | true => exact law.replayed_read hc hk hq
      | false =>
        have hstep := law.sound_settled_exec (law.kept_step hc.kept i) hsound
        exact law.replayed_write hc hk hq hstep

/-- **Serial order.**  When the threads that have written have ended, the store is the one that they
leave one after the other, in the order of their first writes, and each of them has ended as it does
there. -/
theorem Discipline.Lawful.exec_serial (hp : ∀ i, d.Keeps (m i) (p i))
    (hapart : ∀ i j, i ≠ j → d.apart (m i) (m j)) (hholds : ∀ i, d.holds (m i) s) {sched : List ι}
    {final : Config ι A E ρ σ} (hfinal : Config.exec h (Config.start s p) sched = final)
    (hended : ∀ i ∈ commitOrder d.isRead final.log, ¬ final.Live i) (hsound : d.sound final.store) :
    d.same final.store (serial h p s (commitOrder d.isRead final.log)) ∧
      ∀ before i after, commitOrder d.isRead final.log = before ++ i :: after →
        final.thread i = Prog.ofResult ((p i).run h (serial h p s before)).1 := by
  have hsettled : settled d h final = final.store := serial_ended hended _
  have hrun : Replayed d h p m s final := by
    rw [← hfinal]
    apply law.replayed_exec (replayed_start law hp hapart hholds)
    rw [hfinal, hsettled]
    exact hsound
  refine ⟨?_, fun before i after horder => ?_⟩
  · rw [← hsettled]
    exact hrun.same
  · rw [hrun.ends before i after horder final.store]
    apply Config.thread_of_ended
    apply hended
    rw [horder]
    exact List.mem_append_right _ List.mem_cons_self

end

end QueryProg
