import MoaCrypto.Lib.Session
import Mathlib.Data.List.Nodup

/-!
# `deleteUserAuth`: a member's row is moved to the history

The first statement copies the member's row, the second deletes it.  If either finds no row, both are
rolled back.  `commit` stands in the `finally` block, so an exception of the second statement commits
the copy that the first has made: `deleteUserAuth_atomic_iff`.

`close` comes after `commit` and changes no table.
-/

namespace MoaCrypto.AuthDb

/-- A row of `TB_AUTH`.  Dates are counts of milliseconds. -/
structure AuthRow where
  MEMBER_ID : String
  AMI : Option String := none
  CKMI : Option String := none
  SALT : Option String := none
  CIPHERED_PWD : Option String := none
  AUTH_TOKEN : Option String := none
  PUBLIC_KEY : Option String := none
  AUTH_FAIL_CNT : Int := 0
  CIPHERED_WPSW : Option String := none
  CIPHERED_WPRK : Option String := none
  CIPHERED_WPUK_WSALT : Option String := none
  CREATE_DT : Int := 0
  LAST_MODIFIED_DT : Int := 0
  MOAPAY_PWD : Option String := none
  deriving DecidableEq

/-- A row of `TB_AUTH_HIST`. -/
structure AuthHistRow extends AuthRow where
  HIST_CREATE_DATE : Int
  deriving DecidableEq

/-- `TB_AUTH`: a member has one row at most. -/
structure AuthTable where
  rows : List AuthRow
  key : (rows.map AuthRow.MEMBER_ID).Nodup

structure Tables where
  auth : AuthTable
  hist : List AuthHistRow

/-- What the database makes of a statement. -/
inductive Outcome
  | throws
  | affects (n : Nat)
  deriving DecidableEq

structure Outcomes where
  addAuthInfoHist : Outcome
  deleteAuthInfo : Outcome

/-! ## The statements of `authMapper.xml` -/

/-- The rows that the `WHERE` of a member selects. -/
def AuthTable.rowsOf (auth : AuthTable) (member_id : String) : List AuthRow :=
  auth.rows.filter fun row => row.MEMBER_ID = member_id

/-- The selected rows that a statement affects. -/
def AuthTable.affected (auth : AuthTable) (member_id : String) (n : Nat) : List AuthRow :=
  (auth.rowsOf member_id).take n

def AuthTable.remove (auth : AuthTable) (removed : List AuthRow) : AuthTable where
  rows := auth.rows.filter fun row => row ∉ removed
  key := auth.key.sublist (List.Sublist.map _ List.filter_sublist)

def AuthRow.toHist (row : AuthRow) (now : Int) : AuthHistRow := { row with HIST_CREATE_DATE := now }

def addAuthInfoHist (now : Int) (member_id : String) : Outcome → Tables → Option (Nat × Tables)
  | .throws, _ => none
  | .affects n, tables =>
    let rows := tables.auth.affected member_id n
    some (rows.length, { tables with hist := tables.hist ++ rows.map fun row => row.toHist now })

def deleteAuthInfo (member_id : String) : Outcome → Tables → Option (Nat × Tables)
  | .throws, _ => none
  | .affects n, tables =>
    let rows := tables.auth.affected member_id n
    some (rows.length, { tables with auth := tables.auth.remove rows })

/-! ## The operation -/

/-- The body of the `try`. -/
def deleteUserAuthBody (now : Int) (outcomes : Outcomes) (member_id : String) :
    Act (Session Tables) Nat := do
  let copied ← Session.update (addAuthInfoHist now member_id outcomes.addAuthInfoHist)
  -- `||`: the second statement is sent only if the first has found a row
  let found ←
    if copied = 0 then pure false
    else do
      let deleted ← Session.update (deleteAuthInfo member_id outcomes.deleteAuthInfo)
      pure (deleted ≠ 0)
  if found then pure 1
  else do
    Session.rollback
    pure 0

def deleteUserAuth (now : Int) (outcomes : Outcomes) (member_id : String) : Act (Session Tables) Nat :=
  (deleteUserAuthBody now outcomes member_id).andFinally Session.commit

/-- The result of the call, an exception being `none`, and what is committed after it. -/
def runDelete (now : Int) (outcomes : Outcomes) (member_id : String) (tables : Tables) :
    Option Nat × Tables :=
  let end_ := deleteUserAuth now outcomes member_id (Session.opened tables)
  (end_.1, end_.2.committed)

/-- The member's row has been moved and 1 returned, or nothing has happened and 1 was not returned. -/
inductive Atomic (now : Int) (member_id : String) (tables : Tables) : Option Nat × Tables → Prop
  | moved {after : Tables} (row : AuthRow) (hrow : row ∈ tables.auth.rows)
      (hmember : row.MEMBER_ID = member_id) (hhist : after.hist = tables.hist ++ [row.toHist now])
      (hauth : after.auth.rows = tables.auth.rows.filter fun row => row.MEMBER_ID ≠ member_id) :
      Atomic now member_id tables (some 1, after)
  | untouched {result : Option Nat} (hresult : result = some 0 ∨ result = none) :
      Atomic now member_id tables (result, tables)

/-! ## The member's row -/

theorem AuthTable.mem_rowsOf {auth : AuthTable} {member_id : String} {row : AuthRow} :
    row ∈ auth.rowsOf member_id ↔ row ∈ auth.rows ∧ row.MEMBER_ID = member_id := by
  rw [AuthTable.rowsOf, List.mem_filter, decide_eq_true_iff]

/-- With its key, the table has no row of the member or one. -/
theorem AuthTable.rowsOf_cases (auth : AuthTable) (member_id : String) :
    auth.rowsOf member_id = [] ∨ ∃ row, auth.rowsOf member_id = [row] := by
  have hnodup : ((auth.rowsOf member_id).map AuthRow.MEMBER_ID).Nodup :=
    auth.key.sublist (List.Sublist.map _ List.filter_sublist)
  rcases hrows : auth.rowsOf member_id with _ | ⟨row, _ | ⟨row', rest⟩⟩
  · exact Or.inl rfl
  · exact Or.inr ⟨row, rfl⟩
  · have hrow : row ∈ auth.rowsOf member_id := by
      rw [hrows]
      exact List.mem_cons_self
    have hrow' : row' ∈ auth.rowsOf member_id := by
      rw [hrows]
      exact List.mem_cons_of_mem _ List.mem_cons_self
    have hsame : row.MEMBER_ID = row'.MEMBER_ID := by
      rw [(AuthTable.mem_rowsOf.mp hrow).2, (AuthTable.mem_rowsOf.mp hrow').2]
    rw [hrows, List.map_cons, List.map_cons, hsame] at hnodup
    exact absurd List.mem_cons_self (List.nodup_cons.mp hnodup).1

/-- A statement affects no row, or the member's. -/
theorem AuthTable.affected_cases (auth : AuthTable) (member_id : String) (n : Nat) :
    auth.affected member_id n = [] ∨
      ∃ row, auth.affected member_id n = [row] ∧ auth.rowsOf member_id = [row] := by
  unfold AuthTable.affected
  rcases auth.rowsOf_cases member_id with hnone | ⟨row, hone⟩
  · rw [hnone]
    exact Or.inl List.take_nil
  · rw [hone]
    cases n with
    | zero => exact Or.inl List.take_zero
    | succ n => exact Or.inr ⟨row, by rw [List.take_succ_cons, List.take_nil], rfl⟩

/-- Without the member's one row, the table has the rows of the others. -/
theorem AuthTable.remove_rows {auth : AuthTable} {member_id : String} {row : AuthRow}
    (hone : auth.rowsOf member_id = [row]) :
    (auth.remove [row]).rows = auth.rows.filter fun row => row.MEMBER_ID ≠ member_id := by
  refine List.filter_congr fun other hother => ?_
  have hmem : other ∈ auth.rowsOf member_id ↔ other = row := by
    rw [hone, List.mem_singleton]
  rw [decide_eq_decide, List.mem_singleton, ← hmem, AuthTable.mem_rowsOf]
  exact not_congr ⟨fun h => h.2, fun h => ⟨hother, h⟩⟩

/-! ## Runs -/

section Runs

variable {now : Int} {outcomes : Outcomes} {member_id : String} {tables : Tables} {rows : List AuthRow}
  {row : AuthRow} {n m : Nat}

theorem update_addAuthInfoHist {session : Session Tables}
    (hcopy : outcomes.addAuthInfoHist = .affects n)
    (hrows : session.working.auth.affected member_id n = rows) :
    Session.update (addAuthInfoHist now member_id outcomes.addAuthInfoHist) session =
      (some rows.length, ⟨session.committed,
        { session.working with hist := session.working.hist ++ rows.map fun row => row.toHist now },
        true, nofun⟩) := by
  apply Session.update_of_some
  rw [hcopy, ← hrows]
  rfl

theorem update_deleteAuthInfo {session : Session Tables}
    (hdelete : outcomes.deleteAuthInfo = .affects n)
    (hrows : session.working.auth.affected member_id n = rows) :
    Session.update (deleteAuthInfo member_id outcomes.deleteAuthInfo) session =
      (some rows.length, ⟨session.committed,
        { session.working with auth := session.working.auth.remove rows }, true, nofun⟩) := by
  apply Session.update_of_some
  rw [hdelete, ← hrows]
  rfl

theorem runDelete_of_body {result : Option Nat} {session : Session Tables}
    (h : deleteUserAuthBody now outcomes member_id (Session.opened tables) = (result, session)) :
    runDelete now outcomes member_id tables = (result, session.working) := by
  obtain ⟨hresult, hcommitted⟩ :=
    Session.andFinally_commit (deleteUserAuthBody now outcomes member_id) (Session.opened tables)
  rw [h] at hresult hcommitted
  exact Prod.ext hresult hcommitted

/-- The first statement throws. -/
theorem runDelete_copy_throws (hcopy : outcomes.addAuthInfoHist = .throws) :
    runDelete now outcomes member_id tables = (none, tables) := by
  have hbody : deleteUserAuthBody now outcomes member_id (Session.opened tables) =
      (none, ⟨tables, tables, true, nofun⟩) := by
    apply Act.bind_of_none
    apply Session.update_of_none
    rw [hcopy]
    rfl
  exact runDelete_of_body hbody

/-- The first statement finds no row. -/
theorem runDelete_copies_none (hcopy : outcomes.addAuthInfoHist = .affects n)
    (hnone : tables.auth.affected member_id n = []) :
    runDelete now outcomes member_id tables = (some 0, tables) := by
  have hbody : deleteUserAuthBody now outcomes member_id (Session.opened tables) =
      (some 0, ⟨tables, tables, false, fun _ => rfl⟩) :=
    (Act.bind_of_some (update_addAuthInfoHist hcopy hnone)).trans rfl
  exact runDelete_of_body hbody

/-- The second statement throws: the copy of the row is committed. -/
theorem runDelete_delete_throws (hcopy : outcomes.addAuthInfoHist = .affects n)
    (hrow : tables.auth.affected member_id n = [row]) (hdelete : outcomes.deleteAuthInfo = .throws) :
    runDelete now outcomes member_id tables =
      (none, { tables with hist := tables.hist ++ [row.toHist now] }) := by
  have hbody : deleteUserAuthBody now outcomes member_id (Session.opened tables) =
      (none, ⟨tables, { tables with hist := tables.hist ++ [row.toHist now] }, true, nofun⟩) := by
    refine (Act.bind_of_some (update_addAuthInfoHist hcopy hrow)).trans ?_
    apply Act.bind_of_none
    apply Session.update_of_none
    rw [hdelete]
    rfl
  exact runDelete_of_body hbody

/-- The second statement finds no row: the copy is rolled back. -/
theorem runDelete_deletes_none (hcopy : outcomes.addAuthInfoHist = .affects n)
    (hrow : tables.auth.affected member_id n = [row])
    (hdelete : outcomes.deleteAuthInfo = .affects m) (hnone : tables.auth.affected member_id m = []) :
    runDelete now outcomes member_id tables = (some 0, tables) := by
  have hbody : deleteUserAuthBody now outcomes member_id (Session.opened tables) =
      (some 0, ⟨tables, tables, false, fun _ => rfl⟩) := by
    refine (Act.bind_of_some (update_addAuthInfoHist hcopy hrow)).trans ?_
    exact (Act.bind_of_some (update_deleteAuthInfo hdelete hnone)).trans rfl
  exact runDelete_of_body hbody

/-- Both statements find the row. -/
theorem runDelete_moves (hcopy : outcomes.addAuthInfoHist = .affects n)
    (hrow : tables.auth.affected member_id n = [row])
    (hdelete : outcomes.deleteAuthInfo = .affects m)
    (hrow' : tables.auth.affected member_id m = [row]) :
    runDelete now outcomes member_id tables =
      (some 1, ⟨tables.auth.remove [row], tables.hist ++ [row.toHist now]⟩) := by
  have hbody : deleteUserAuthBody now outcomes member_id (Session.opened tables) =
      (some 1, ⟨tables, ⟨tables.auth.remove [row], tables.hist ++ [row.toHist now]⟩, true, nofun⟩) := by
    refine (Act.bind_of_some (update_addAuthInfoHist hcopy hrow)).trans ?_
    exact (Act.bind_of_some (update_deleteAuthInfo hdelete hrow')).trans rfl
  exact runDelete_of_body hbody

end Runs

/-- **`deleteUserAuth` is atomic** unless its second statement throws after the first has copied the
member's row. -/
theorem deleteUserAuth_atomic_iff (now : Int) (outcomes : Outcomes) (member_id : String)
    (tables : Tables) :
    Atomic now member_id tables (runDelete now outcomes member_id tables) ↔
      ∀ n, outcomes.addAuthInfoHist = .affects n → tables.auth.affected member_id n ≠ [] →
        outcomes.deleteAuthInfo ≠ .throws := by
  cases hcopy : outcomes.addAuthInfoHist with
  | throws =>
    rw [runDelete_copy_throws hcopy]
    exact iff_of_true (.untouched (Or.inr rfl)) nofun
  | affects n =>
    rcases tables.auth.affected_cases member_id n with hnone | ⟨row, hrow, hone⟩
    · rw [runDelete_copies_none hcopy hnone]
      refine iff_of_true (.untouched (Or.inl rfl)) ?_
      rintro _ ⟨⟩ hsome
      exact absurd hnone hsome
    cases hdelete : outcomes.deleteAuthInfo with
    | throws =>
      rw [runDelete_delete_throws hcopy hrow hdelete]
      refine iff_of_false ?_ ?_
      · -- the history has one row more
        intro h
        have hlength : tables.hist.length = (tables.hist ++ [row.toHist now]).length := by
          generalize hafter : Tables.mk tables.auth (tables.hist ++ [row.toHist now]) = after at h
          cases h with
          | untouched _ => exact (congrArg (fun t => t.hist.length) hafter).symm
        rw [List.length_append, List.length_singleton] at hlength
        omega
      · intro h
        refine h n rfl ?_ rfl
        rw [hrow]
        exact List.cons_ne_nil _ _
    | affects m =>
      refine iff_of_true ?_ nofun
      rcases tables.auth.affected_cases member_id m with hnone | ⟨row', hrow', hone'⟩
      · rw [runDelete_deletes_none hcopy hrow hdelete hnone]
        exact .untouched (Or.inl rfl)
      · obtain rfl : row = row' := List.singleton_inj.mp (hone.symm.trans hone')
        rw [runDelete_moves hcopy hrow hdelete hrow']
        have hmem : row ∈ tables.auth.rowsOf member_id := by
          rw [hone]
          exact List.mem_singleton_self row
        obtain ⟨hrows, hmember⟩ := AuthTable.mem_rowsOf.mp hmem
        exact .moved row hrows hmember rfl (AuthTable.remove_rows hone)

/-- The delete throws: the member has a row in both tables. -/
theorem not_atomic_delete_throws :
    ¬ Atomic 0 "member" ⟨⟨[{ MEMBER_ID := "member" }], List.nodup_singleton _⟩, []⟩
      (runDelete 0 ⟨.affects 1, .throws⟩ "member" ⟨⟨[{ MEMBER_ID := "member" }], List.nodup_singleton _⟩, []⟩) := by
  generalize hrun : runDelete _ _ _ _ = run
  intro h
  cases h with
  | moved _ _ _ _ _ => cases hrun
  | untouched _ => cases hrun

end MoaCrypto.AuthDb
