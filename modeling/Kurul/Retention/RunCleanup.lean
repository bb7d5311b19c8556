import Kurul.Retention.CleanupWorker
import Kurul.Store.Batches

/-! The nightly run over the tables that hold what has expired, and the attempts at it. -/
namespace Kurul.CleanupWorker

open Store.Batches Linked

def MS_PER_DAY : Int := 24 * 60 * 60 * 1000

structure Limits where
  batchSize : Nat := CLEANUP_BATCH_SIZE
  maxBatches : Nat := MAX_BATCHES_PER_TABLE

/-- The most rows one table loses in a run. -/
def Limits.ceiling (limits : Limits) : Nat := limits.maxBatches * limits.batchSize

/-- The variables as `envBool` and `envInt` read them. -/
structure RetentionEnv where
  CLEANUP_ENABLED : Bool := true
  NOTIFICATION_RETENTION_DAYS : Int := 90
  ACTIVITY_RETENTION_DAYS : Int := 365
  INVITATION_RETENTION_DAYS : Int := 90

structure RetentionSettings where
  enabled : Bool
  notificationDays : Nat
  activityDays : Nat
  invitationDays : Nat

def retentionDays (days : Int) : Option Nat := if days < 0 then none else some days.toNat

def retentionSettings (env : RetentionEnv) : Option RetentionSettings := do
  let notificationDays ← retentionDays env.NOTIFICATION_RETENTION_DAYS
  let activityDays ← retentionDays env.ACTIVITY_RETENTION_DAYS
  let invitationDays ← retentionDays env.INVITATION_RETENTION_DAYS
  return { enabled := env.CLEANUP_ENABLED, notificationDays, activityDays, invitationDays }

def cutoffFor (now : DateTime) (days : Nat) : DateTime := now - days * MS_PER_DAY

inductive Table where
  | session | verification | notification | activity | usagePing | workspaceInvitation
  deriving DecidableEq

/-- The columns a sweep reads or a deletion writes. The status of an invitation is a text. -/
inductive StoredRow where
  | session (id : Id) (expiresAt : DateTime)
  | verification (id : Id) (expiresAt : DateTime)
  | notification (id : Id) (activityId : Option Id) (readAt : Option DateTime)
  | activity (id : Id) (createdAt : DateTime)
  | usagePing (id : Id) (createdAt : DateTime)
  | workspaceInvitation (id : Id) (status : String) (expiresAt createdAt : DateTime)
  deriving DecidableEq

namespace StoredRow

def key : StoredRow → Table × Id
  | .session id _ => (.session, id)
  | .verification id _ => (.verification, id)
  | .notification id _ _ => (.notification, id)
  | .activity id _ => (.activity, id)
  | .usagePing id _ => (.usagePing, id)
  | .workspaceInvitation id _ _ _ => (.workspaceInvitation, id)

def table (row : StoredRow) : Table := row.key.1

/-- `onDelete: SetNull` of a notification's activity, the one reference to a row that is swept. -/
def setNull (gone : List (Table × Id)) : StoredRow → StoredRow
  | .notification id activityId readAt =>
      .notification id (activityId.filter fun activity => (.activity, activity) ∉ gone) readAt
  | row => row

instance : Linked StoredRow (Table × Id) where
  key := key
  unlink := setNull
  key_unlink gone row := by cases row <;> rfl
  unlink_nil row := by
    cases row with
    | notification _ activityId _ => cases activityId <;> rfl
    | _ => rfl
  unlink_unlink gone more row := by
    cases row with
    | notification _ activityId _ => cases activityId <;> simp [setNull, Option.filter_filter]
    | _ => rfl

end StoredRow

structure CleanupCounts where
  sessions : Nat := 0
  verifications : Nat := 0
  notifications : Nat := 0
  activities : Nat := 0
  usagePings : Nat := 0
  invitations : Nat := 0
  orphanedFiles : Nat := 0
  deriving DecidableEq

def CleanupCounts.of (counts : CleanupCounts) : Table → Nat
  | .session => counts.sessions
  | .verification => counts.verifications
  | .notification => counts.notifications
  | .activity => counts.activities
  | .usagePing => counts.usagePings
  | .workspaceInvitation => counts.invitations

def InvitationStatus_pending : String := "pending"

section Sweeps

variable (limits : Limits) (server : Server (Table × Id))

def deleteInBatches (runBatch : Job StoredRow Nat) : Job StoredRow Nat :=
  untilShort limits.batchSize runBatch limits.maxBatches 0

/-- `DELETE FROM t WHERE id IN (SELECT id FROM t WHERE … LIMIT …)`. -/
def executeRaw (where_ : StoredRow → Bool) : Job StoredRow Nat := deleteBatch server limits.batchSize where_

/-- The pass over the files reads rows and changes none. It comes last, and its own steps are
those of `Sweep`. -/
def runCleanup (settings : RetentionSettings) (sweepOrphanFiles : Option Nat) (now : DateTime) :
    Job StoredRow CleanupCounts := do
  if !settings.enabled then return {}
  let sessions ← deleteInBatches limits (executeRaw limits server fun
    | .session _ expiresAt => expiresAt < now
    | _ => false)
  let verifications ← deleteInBatches limits (executeRaw limits server fun
    | .verification _ expiresAt => expiresAt < now
    | _ => false)
  let notifications ← (
    if settings.notificationDays = 0 then pure 0
    else deleteInBatches limits (executeRaw limits server fun
      | .notification _ _ (some readAt) => readAt < cutoffFor now settings.notificationDays
      | _ => false))
  let activities ← (
    if settings.activityDays = 0 then pure 0
    else deleteInBatches limits (executeRaw limits server fun
      | .activity _ createdAt => createdAt < cutoffFor now settings.activityDays
      | _ => false))
  let usagePings ← (
    if settings.activityDays = 0 then pure 0
    else deleteInBatches limits (executeRaw limits server fun
      | .usagePing _ createdAt => createdAt < cutoffFor now settings.activityDays
      | _ => false))
  let invitations ← (
    if settings.invitationDays = 0 then pure 0
    else deleteInBatches limits (executeRaw limits server fun
      | .workspaceInvitation _ status expiresAt createdAt =>
          createdAt < cutoffFor now settings.invitationDays &&
            (status != InvitationStatus_pending || expiresAt < now)
      | _ => false))
  let orphanedFiles ← OptionT.mk (pure sweepOrphanFiles)
  return { sessions, verifications, notifications, activities, usagePings, invitations, orphanedFiles }

end Sweeps

/-- What one attempt at the job meets: the variables and the clock it reads, the answers of the
server, and what the pass over the files comes to. -/
structure Attempt where
  env : RetentionEnv
  now : DateTime
  server : Server (Table × Id)
  sweepOrphanFiles : Option Nat

/-- One attempt. Settings that cannot be read end it at once. -/
def Attempt.run (limits : Limits) (attempt : Attempt) (db : Stock StoredRow) :
    Option CleanupCounts × Progress StoredRow :=
  match retentionSettings attempt.env with
  | none => (none, { stock := db })
  | some settings =>
      (runCleanup limits attempt.server settings attempt.sweepOrphanFiles attempt.now).on { stock := db }

/-- A job: attempts are made, each from the start, until one succeeds or none is left. -/
def process (limits : Limits) : List Attempt → Stock StoredRow → Option (Attempt × CleanupCounts) × Stock StoredRow
  | [], db => (none, db)
  | attempt :: rest, db =>
      match attempt.run limits db with
      | (some counts, after) => (some (attempt, counts), after.stock)
      | (none, after) => process limits rest after.stock

/-- The test of a table's own statement; a window of no days is kept for ever. -/
def due (settings : RetentionSettings) (now : DateTime) : StoredRow → Bool
  | .session _ expiresAt | .verification _ expiresAt => expiresAt < now
  | .notification _ _ none => false
  | .notification _ _ (some readAt) =>
      settings.notificationDays != 0 && readAt < cutoffFor now settings.notificationDays
  | .activity _ createdAt | .usagePing _ createdAt =>
      settings.activityDays != 0 && createdAt < cutoffFor now settings.activityDays
  | .workspaceInvitation _ status expiresAt createdAt =>
      settings.invitationDays != 0 && (createdAt < cutoffFor now settings.invitationDays &&
        (status != InvitationStatus_pending || expiresAt < now))

def tables : List Table :=
  [.session, .verification, .notification, .activity, .usagePing, .workspaceInvitation]

/-- A table none of whose rows is ever due. -/
def RetentionSettings.keeps (settings : RetentionSettings) : Table → Bool
  | .session | .verification => false
  | .notification => settings.notificationDays = 0
  | .activity | .usagePing => settings.activityDays = 0
  | .workspaceInvitation => settings.invitationDays = 0

section Sweeps

variable (limits : Limits) (server : Server (Table × Id)) (settings : RetentionSettings) (now : DateTime)

def dueIn (table : Table) (row : StoredRow) : Bool := row.table = table && due settings now row

/-- One table's turn. -/
def sweep (table : Table) : Job StoredRow Nat :=
  if settings.keeps table then pure 0
  else deleteInBatches limits (executeRaw limits server (dueIn settings now table))

def sweeps : List Table → (Table → Nat) → Job StoredRow (Table → Nat)
  | [], counts => pure counts
  | table :: rest, counts => do
      let deleted ← sweep limits server settings now table
      sweeps rest (Function.update counts table deleted)

end Sweeps

section Runs

variable {limits : Limits} {server : Server (Table × Id)} {settings : RetentionSettings} {now : DateTime}

theorem sweep_of_window (table : Table) (days : Nat) {where_ : StoredRow → Bool}
    (window : settings.keeps table = decide (days = 0))
    (same : (days != 0) = true → ∀ row, where_ row = dueIn settings now table row) :
    (if days = 0 then pure 0 else deleteInBatches limits (executeRaw limits server where_)) =
      sweep limits server settings now table := by
  unfold sweep
  rw [window]
  by_cases kept : days = 0
  · simp [kept]
  · simp only [kept, if_false, decide_false, Bool.false_eq_true]
    rw [funext (same (bne_iff_ne.mpr kept))]

theorem runCleanup_sweeps (enabled : settings.enabled = true) (sweepOrphanFiles : Option Nat) :
    runCleanup limits server settings sweepOrphanFiles now = do
      let counts ← sweeps limits server settings now tables fun _ => 0
      let orphanedFiles ← OptionT.mk (pure sweepOrphanFiles)
      return {
        sessions := counts .session, verifications := counts .verification
        notifications := counts .notification, activities := counts .activity
        usagePings := counts .usagePing, invitations := counts .workspaceInvitation, orphanedFiles } := by
  unfold runCleanup
  simp only [enabled, Bool.not_true, Bool.false_eq_true, if_false, tables, sweeps, bind_assoc, pure_bind]
  have always (table : Table) (kept : settings.keeps table = false) {where_ : StoredRow → Bool}
      (same : ∀ row, where_ row = dueIn settings now table row) :
      deleteInBatches limits (executeRaw limits server where_) = sweep limits server settings now table := by
    have swept := @sweep_of_window limits server settings now table 1 where_ kept fun _ => same
    simpa using swept
  rw [always .session rfl (by rintro (_ | _ | ⟨_, _, _ | _⟩ | _ | _ | _) <;> rfl)]
  refine bind_congr fun sessions => ?_
  rw [always .verification rfl (by rintro (_ | _ | ⟨_, _, _ | _⟩ | _ | _ | _) <;> rfl)]
  refine bind_congr fun verifications => ?_
  rw [@sweep_of_window limits server settings now .notification settings.notificationDays _ rfl (by
    rintro window (_ | _ | ⟨_, _, _ | _⟩ | _ | _ | _) <;> simp [dueIn, due, StoredRow.table, StoredRow.key, window])]
  refine bind_congr fun notifications => ?_
  rw [@sweep_of_window limits server settings now .activity settings.activityDays _ rfl (by
    rintro window (_ | _ | ⟨_, _, _ | _⟩ | _ | _ | _) <;> simp [dueIn, due, StoredRow.table, StoredRow.key, window])]
  refine bind_congr fun activities => ?_
  rw [@sweep_of_window limits server settings now .usagePing settings.activityDays _ rfl (by
    rintro window (_ | _ | ⟨_, _, _ | _⟩ | _ | _ | _) <;> simp [dueIn, due, StoredRow.table, StoredRow.key, window])]
  refine bind_congr fun usagePings => ?_
  rw [@sweep_of_window limits server settings now .workspaceInvitation settings.invitationDays _ rfl (by
    rintro window (_ | _ | ⟨_, _, _ | _⟩ | _ | _ | _) <;> simp [dueIn, due, StoredRow.table, StoredRow.key, window])]
  refine bind_congr fun invitations => ?_
  simp [Function.update]

theorem steady_due : Steady (due settings now) := by
  intro gone row
  cases row with
  | notification _ _ readAt => cases readAt <;> rfl
  | _ => rfl

theorem steady_dueIn (table : Table) : Steady (dueIn settings now table) := by
  intro gone row
  have same : (unlink gone row).table = row.table := congrArg Prod.fst (key_unlink gone row)
  rw [dueIn, dueIn, same, steady_due]

theorem due_of_dueIn {table : Table} (row : StoredRow) (found : dueIn settings now table row = true) :
    due settings now row = true := (Bool.and_eq_true_iff.mp found).2

theorem not_due_of_keeps {table : Table} (kept : settings.keeps table = true) (row : StoredRow) :
    dueIn settings now table row = false := by
  rcases row with _ | _ | ⟨_, _, _ | _⟩ | _ | _ | _ <;> cases table <;>
    simp_all [dueIn, due, StoredRow.table, StoredRow.key, RetentionSettings.keeps]

theorem table_of_candidate {table : Table} {stock : Stock StoredRow} {k : Table × Id}
    (member : k ∈ stock.candidates (dueIn settings now table)) : k.1 = table := by
  obtain ⟨row, _, found, rfl⟩ := Stock.mem_candidates.mp member
  exact of_decide_eq_true (Bool.and_eq_true_iff.mp found).1

theorem sweep_swept (table : Table) (s : Progress StoredRow) :
    ∃ gone, Swept (dueIn settings now table) limits.maxBatches limits.batchSize 0 s
      ((sweep limits server settings now table).on s) gone := by
  unfold sweep
  cases kept : settings.keeps table with
  | true =>
      have none : s.stock.candidates (dueIn settings now table) = [] := by
        simp [Stock.candidates, not_due_of_keeps kept]
      exact ⟨[], Takes.nil, by simp, by simp, by simp, by simp [none]⟩
  | false => exact untilShort_swept (steady_dueIn table) limits.maxBatches 0 s

/-- What the sweeps of some tables have done. -/
structure SweptAll (limits : Limits) (settings : RetentionSettings) (now : DateTime) (tables : List Table)
    (s : Progress StoredRow) (ran : Option (Table → Nat) × Progress StoredRow) (gone : List (Table × Id)) : Prop where
  takes : Takes (due settings now) s.stock gone
  stock : ran.2.stock = s.stock.without gone
  turn : ran.2.turn ≤ s.turn + tables.length * limits.maxBatches
  within : ∀ k ∈ gone, k.1 ∈ tables
  counted : ∀ counts, ran.1 = some counts → ∀ table ∈ tables,
    counts table = (gone.filter (·.1 = table)).length ∧
      counts table = min limits.ceiling (s.stock.candidates (dueIn settings now table)).length

theorem sweeps_other {tables : List Table} {counts result : Table → Nat} {s : Progress StoredRow}
    {table : Table} (other : table ∉ tables)
    (ran : ((sweeps limits server settings now tables counts).on s).1 = some result) : result table = counts table := by
  induction tables generalizing counts s with
  | nil =>
      cases ran
      rfl
  | cons first rest ih =>
      obtain ⟨apart, other⟩ := List.ne_and_not_mem_of_not_mem_cons other
      unfold sweeps at ran
      rw [bind_on] at ran
      rcases swept : (sweep limits server settings now first).on s with ⟨_ | deleted, t⟩
      · rw [swept] at ran
        cases ran
      · rw [swept] at ran
        rw [ih other ran, Function.update_of_ne apart]

theorem sweeps_swept {tables : List Table} (distinct : tables.Nodup) (counts : Table → Nat) (s : Progress StoredRow) :
    ∃ gone, SweptAll limits settings now tables s ((sweeps limits server settings now tables counts).on s) gone := by
  induction tables generalizing counts s with
  | nil => exact ⟨[], Takes.nil, by simp [sweeps], by simp [sweeps], by simp, by simp⟩
  | cons table rest ih =>
      obtain ⟨new, distinct⟩ := List.nodup_cons.mp distinct
      obtain ⟨first, swept⟩ := @sweep_swept limits server settings now table s
      have here : ∀ k ∈ first, k.1 = table := fun k member => table_of_candidate (swept.takes.match_ k member)
      have takes := swept.takes.mono due_of_dueIn
      unfold sweeps
      rw [bind_on]
      rcases batch : (sweep limits server settings now table).on s with ⟨_ | deleted, t⟩
      · rw [batch] at swept
        have turn : t.turn ≤ s.turn + limits.maxBatches := swept.turn
        refine ⟨first, takes, swept.stock, ?_, fun k member => by simp [here k member], by simp⟩
        simp only [List.length_cons, Nat.succ_mul]
        omega
      · rw [batch] at swept
        have turn : t.turn ≤ s.turn + limits.maxBatches := swept.turn
        have deletes : deleted = 0 + first.length := swept.counted deleted rfl
        have full : first.length = min limits.ceiling (s.stock.candidates (dueIn settings now table)).length :=
          swept.full rfl
        have stock : t.stock = s.stock.without first := swept.stock
        obtain ⟨more, later⟩ := ih distinct (Function.update counts table deleted) t
        have moved := later.stock
        have taken := later.takes
        have turned := later.turn
        rw [stock] at moved taken
        have apart : ∀ k ∈ more, k.1 ≠ table := fun k member same => new (same ▸ later.within k member)
        refine ⟨first ++ more, takes.append steady_due taken, ?_, ?_, ?_, ?_⟩
        · rw [moved, Stock.without_without]
        · simp only [List.length_cons, Nat.succ_mul]
          omega
        · intro k member
          rcases List.mem_append.mp member with early | late
          · exact here k early ▸ List.mem_cons_self
          · exact List.mem_cons_of_mem _ (later.within k late)
        · intro result answered other member
          rw [List.filter_append, List.length_append]
          rcases List.mem_cons.mp member with rfl | member
          · rw [sweeps_other new answered, Function.update_self,
              List.filter_eq_self.mpr fun k early => decide_eq_true (here k early),
              List.filter_eq_nil_iff.mpr fun k late => by simpa using apart k late]
            simp only [List.length_nil]
            omega
          · have others : ∀ k ∈ first, k.1 ≠ other := by
              rintro k early rfl
              exact new (here k early ▸ member)
            have unmoved : t.stock.candidates (dueIn settings now other) =
                s.stock.candidates (dueIn settings now other) := by
              rw [stock]
              refine Stock.candidates_apart (steady_dueIn other) fun k early found => ?_
              exact others k early (table_of_candidate found)
            have counted := later.counted result answered other member
            rw [unmoved] at counted
            rw [List.filter_eq_nil_iff.mpr fun k early => by simpa using others k early]
            simpa using counted

end Runs

/-- The rows an attempt is to delete. -/
def Attempt.due (attempt : Attempt) (row : StoredRow) : Bool :=
  (retentionSettings attempt.env).any fun settings =>
    settings.enabled && CleanupWorker.due settings attempt.now row

/-- How many of them one table holds. -/
def Attempt.dueCount (attempt : Attempt) (db : Stock StoredRow) (table : Table) : Nat :=
  (db.rows.filter fun row => row.table = table && attempt.due row).length

/-- Nothing fails: the variables can be read, every statement takes effect and is answered, and the pass over the files
comes to its end. -/
structure Attempt.Smooth (attempt : Attempt) : Prop where
  read : (retentionSettings attempt.env).isSome
  done : ∀ turn, attempt.server.outcome turn = .done
  files : attempt.sweepOrphanFiles.isSome

/-- What one attempt has done that took these rows out. -/
structure Exact (limits : Limits) (attempt : Attempt) (db : Stock StoredRow)
    (ran : Option CleanupCounts × Progress StoredRow) (gone : List (Table × Id)) : Prop where
  takes : Takes attempt.due db gone
  stock : ran.2.stock = db.without gone
  turn : ran.2.turn ≤ 6 * limits.maxBatches
  counted : ∀ counts, ran.1 = some counts → ∀ table,
    counts.of table = (gone.filter (·.1 = table)).length ∧
      counts.of table = min limits.ceiling (attempt.dueCount db table)

section Attempts

variable {limits : Limits} {attempt : Attempt} {db : Stock StoredRow}

theorem Attempt.steady_due : Steady attempt.due := by
  intro gone row
  simp only [Attempt.due, CleanupWorker.steady_due gone row]

theorem runCleanup_answers {server : Server (Table × Id)} {settings : RetentionSettings} {sweepOrphanFiles : Option Nat}
    {now : DateTime} (files : sweepOrphanFiles.isSome) :
    Answers server (runCleanup limits server settings sweepOrphanFiles now) := by
  have swept (where_ : StoredRow → Bool) : Answers server (deleteInBatches limits (executeRaw limits server where_)) :=
    Answers.untilShort .deleteBatch _ _
  have kept (days : Nat) (where_ : StoredRow → Bool) :
      Answers server (if days = 0 then pure 0 else deleteInBatches limits (executeRaw limits server where_)) := by
    split
    · exact .pure
    · exact swept where_
  obtain ⟨removed, rfl⟩ := Option.isSome_iff_exists.mp files
  have pass : Answers server (OptionT.mk (pure (some removed)) : Job StoredRow Nat) := .pure
  unfold runCleanup
  split
  · exact .pure
  · exact (swept _).bind fun _ => (swept _).bind fun _ => (kept _ _).bind fun _ => (kept _ _).bind fun _ =>
      (kept _ _).bind fun _ => (kept _ _).bind fun _ => pass.bind fun _ => .pure

/-- An attempt ends with its counts, unless something fails on the way. -/
theorem Attempt.run_answers (read : (retentionSettings attempt.env).isSome) (files : attempt.sweepOrphanFiles.isSome)
    (done : ∀ turn < (attempt.run limits db).2.turn, attempt.server.outcome turn = .done) :
    (attempt.run limits db).1.isSome := by
  obtain ⟨settings, read⟩ := Option.isSome_iff_exists.mp read
  simp only [Attempt.run, read] at done ⊢
  exact (runCleanup_answers files).answered _ fun turn _ before => done turn before

theorem attempt_exact (limits : Limits) (attempt : Attempt) (db : Stock StoredRow) :
    ∃ gone, Exact limits attempt db (attempt.run limits db) gone := by
  unfold Attempt.run
  cases read : retentionSettings attempt.env with
  | none => exact ⟨[], Takes.nil, by simp, by simp, by simp⟩
  | some settings =>
      cases enabled : settings.enabled with
      | false =>
          have off : attempt.due = fun _ => false := by
            funext row
            simp [Attempt.due, read, enabled]
          refine ⟨[], Takes.nil, ?_, ?_, ?_⟩
          · simp [runCleanup, enabled]
          · simp [runCleanup, enabled]
          · rintro counts answered table
            have empty : counts = {} := by simpa [runCleanup, enabled] using answered.symm
            cases table <;> simp [empty, CleanupCounts.of, Attempt.dueCount, off]
      | true =>
          have same : attempt.due = CleanupWorker.due settings attempt.now := by
            funext row
            simp [Attempt.due, read, enabled]
          have each : ∀ table, ({ stock := db } : Progress StoredRow).stock.candidates (dueIn settings attempt.now table) =
              (db.rows.filter fun row => row.table = table && attempt.due row).map key := by
            intro table
            rw [same]
            rfl
          obtain ⟨gone, swept⟩ := @sweeps_swept limits attempt.server settings attempt.now tables (by decide)
            (fun _ => 0) { stock := db }
          have takes := same ▸ swept.takes
          have turn : _ ≤ 0 + 6 * limits.maxBatches := swept.turn
          simp only
          rw [runCleanup_sweeps enabled, bind_on]
          rcases ran : (sweeps limits attempt.server settings attempt.now tables fun _ => 0).on { stock := db }
            with ⟨_ | counts, after⟩
          · rw [ran] at swept turn
            exact ⟨gone, takes, swept.stock, by simpa using turn, by simp⟩
          · rw [ran] at swept turn
            have counted := swept.counted counts rfl
            refine ⟨gone, takes, ?_, ?_, ?_⟩
            · cases attempt.sweepOrphanFiles <;> exact swept.stock
            · cases attempt.sweepOrphanFiles <;> exact turn.trans (Nat.zero_add _).le
            · intro result answered table
              cases files : attempt.sweepOrphanFiles with
              | none =>
                  rw [files] at answered
                  cases answered
              | some _ =>
                  rw [files] at answered
                  cases answered
                  have here := counted table (by cases table <;> decide)
                  rw [each, List.length_map] at here
                  cases table <;> exact here

/-- Nothing is left in a table that an attempt is to delete. -/
def Clean (attempt : Attempt) (table : Table) (db : Stock StoredRow) : Prop :=
  ∀ row ∈ db.rows, row.table = table → attempt.due row = false

theorem Exact.clean {ran : Option CleanupCounts × Progress StoredRow} {gone : List (Table × Id)}
    (exact_ : Exact limits attempt db ran gone) {counts : CleanupCounts} (answered : ran.1 = some counts)
    {table : Table} (under : counts.of table < limits.ceiling) : Clean attempt table ran.2.stock := by
  let here : StoredRow → Bool := fun row => row.table = table && attempt.due row
  have steady : Steady here := by
    intro gone row
    have same : (unlink gone row).table = row.table := congrArg Prod.fst (key_unlink gone row)
    simp only [here, same, Attempt.steady_due gone row]
  have taken : Takes here db (gone.filter (·.1 = table)) := by
    refine ⟨exact_.takes.once.filter _, fun k member => ?_⟩
    obtain ⟨member, same⟩ := List.mem_filter.mp member
    obtain ⟨row, stored, due, rfl⟩ := Stock.mem_candidates.mp (exact_.takes.match_ k member)
    exact Stock.mem_candidates.mpr ⟨row, stored, Bool.and_eq_true_iff.mpr ⟨same, due⟩, rfl⟩
  have left := taken.length_left steady
  have all : (db.candidates here).length = attempt.dueCount db table := List.length_map _
  have counted := exact_.counted counts answered table
  have none : (db.without (gone.filter (·.1 = table))).candidates here = [] :=
    List.eq_nil_of_length_eq_zero (by omega)
  intro row stored same
  rw [exact_.stock] at stored
  obtain ⟨old, kept, spared, rfl⟩ := Stock.mem_without.mp stored
  by_contra due
  have found : here (unlink gone old) = true :=
    Bool.and_eq_true_iff.mpr ⟨decide_eq_true same, by simpa using due⟩
  rw [steady gone old] at found
  have member : key old ∈ (db.without (gone.filter (·.1 = table))).candidates here := by
    rw [Stock.candidates_without steady]
    refine List.mem_filter.mpr ⟨Stock.mem_candidates.mpr ⟨old, kept, found, rfl⟩, ?_⟩
    simp [spared]
  rw [none] at member
  cases member

/-- What is never deleted. -/
structure Spares (attempt : Attempt) (db : Stock StoredRow) (gone : List (Table × Id)) : Prop where
  unread : ∀ id activityId, .notification id activityId none ∈ db.rows → (.notification, id) ∉ gone
  pending : ∀ id expiresAt createdAt,
    .workspaceInvitation id InvitationStatus_pending expiresAt createdAt ∈ db.rows →
      attempt.now ≤ expiresAt → (.workspaceInvitation, id) ∉ gone
  window : ∀ settings, retentionSettings attempt.env = some settings →
    ∀ k ∈ gone, settings.enabled = true ∧ settings.keeps k.1 = false

theorem spares_of_takes {gone : List (Table × Id)} (takes : Takes attempt.due db gone) : Spares attempt db gone where
  unread id activityId stored taken := by
    have due := takes.matches_ stored taken
    simp [Attempt.due, CleanupWorker.due] at due
  pending id expiresAt createdAt stored live taken := by
    have due := takes.matches_ stored taken
    obtain ⟨settings, _, due⟩ : ∃ settings, retentionSettings attempt.env = some settings ∧
        (settings.enabled && CleanupWorker.due settings attempt.now _) = true := by
      simpa [Attempt.due, Option.any_eq_true] using due
    simp only [CleanupWorker.due, bne_self_eq_false, Bool.false_or, Bool.and_eq_true, decide_eq_true_eq] at due
    exact absurd due.2.2.2 (not_lt.mpr live)
  window settings read k taken := by
    obtain ⟨row, _, due, rfl⟩ := Stock.mem_candidates.mp (takes.match_ k taken)
    simp only [Attempt.due, read, Option.any_some, Bool.and_eq_true] at due
    refine ⟨due.1, ?_⟩
    by_contra kept
    have never := @not_due_of_keeps settings attempt.now row.table (Bool.eq_true_of_not_eq_false kept) row
    simp [dueIn, due.2] at never

theorem Attempt.due_congr {again : Attempt} (env : again.env = attempt.env) (now : again.now = attempt.now) :
    again.due = attempt.due := by
  funext row
  rw [Attempt.due, Attempt.due, env, now]

theorem keys_kept {gone : List (Table × Id)} {table : Table} (apart : ∀ k ∈ gone, k.1 ≠ table) :
    ((db.without gone).rows.map key).filter (·.1 = table) = (db.rows.map key).filter (·.1 = table) := by
  have same : (key ∘ unlink gone : StoredRow → Table × Id) = key := funext (key_unlink gone)
  rw [Stock.without, List.map_map, same, List.filter_map, List.filter_map, List.filter_filter]
  refine congrArg (List.map key) (List.filter_congr fun row _ => ?_)
  by_cases here : (key row).1 = table
  · have spared : key row ∉ gone := fun member => apart _ member here
    simp [here, spared]
  · simp [here]

end Attempts

/-- What a job did to the database, by whatever attempts. -/
structure JobExact (limits : Limits) (attempts : List Attempt) (db : Stock StoredRow)
    (ran : Option (Attempt × CleanupCounts) × Stock StoredRow) (gone : List (Table × Id)) : Prop where
  takes : Takes (fun row => attempts.any (·.due row)) db gone
  stock : ran.2 = db.without gone
  clean : ∀ attempt counts, ran.1 = some (attempt, counts) → attempt ∈ attempts ∧
    ∀ table, counts.of table < limits.ceiling → Clean attempt table ran.2
  finishes : (∃ attempt ∈ attempts, attempt.Smooth) → ran.1.isSome

theorem process_exact (limits : Limits) (attempts : List Attempt) (db : Stock StoredRow) :
    ∃ gone, JobExact limits attempts db (process limits attempts db) gone := by
  induction attempts generalizing db with
  | nil => exact ⟨[], Takes.nil, by simp [process], by simp [process], by simp⟩
  | cons attempt rest ih =>
      obtain ⟨first, ran⟩ := attempt_exact limits attempt db
      have takes : Takes (fun row => (attempt :: rest).any (·.due row)) db first :=
        ran.takes.mono fun row due => by simp [due]
      have steady : Steady fun row => (attempt :: rest).any (·.due row) := by
        intro gone row
        simp only [Attempt.steady_due gone row]
      unfold process
      rcases answered : attempt.run limits db with ⟨_ | counts, after⟩
      · rw [answered] at ran
        have stock : after.stock = db.without first := ran.stock
        obtain ⟨more, later⟩ := ih after.stock
        have taken := later.takes
        have moved := later.stock
        rw [stock] at taken moved
        refine ⟨first ++ more, takes.append steady (taken.mono fun row due => ?_), ?_, ?_, ?_⟩
        · simp only [List.any_cons, due, Bool.or_true]
        · simp only [stock, moved, Stock.without_without]
        · intro last counts success
          obtain ⟨made, clean⟩ := later.clean last counts success
          exact ⟨List.mem_cons_of_mem _ made, clean⟩
        · rintro ⟨smooth, member, ends⟩
          rcases List.mem_cons.mp member with rfl | member
          · have some_ := @Attempt.run_answers limits smooth db ends.read ends.files fun turn _ => ends.done turn
            rw [answered] at some_
            cases some_
          · exact later.finishes ⟨smooth, member, ends⟩
      · rw [answered] at ran
        refine ⟨first, takes, ran.stock, ?_, fun _ => rfl⟩
        intro last result success
        cases success
        exact ⟨List.mem_cons_self, fun table under => ran.clean rfl under⟩

/-- Retention deletes what has expired: whatever the server does, an attempt takes out due rows
only, counts them, and leaves none behind in a table that stayed under the ceiling; it ends with its counts unless
something fails, and the same attempt again takes none from it. A job of several attempts deletes what is due at one,
and succeeds where nothing fails at one. -/
theorem deletes_what_expired (limits : Limits) :
    (∀ (attempt : Attempt) (db : Stock StoredRow), ∃ gone,
      Exact limits attempt db (attempt.run limits db) gone ∧ Spares attempt db gone ∧
      ∀ counts, (attempt.run limits db).1 = some counts → ∀ table, counts.of table < limits.ceiling →
        Clean attempt table (attempt.run limits db).2.stock) ∧
    (∀ (attempt : Attempt) (db : Stock StoredRow), (retentionSettings attempt.env).isSome →
      attempt.sweepOrphanFiles.isSome →
      (∀ turn < (attempt.run limits db).2.turn, attempt.server.outcome turn = .done) → (attempt.run limits db).1.isSome) ∧
    (∀ (attempt again : Attempt) (db : Stock StoredRow) (counts : CleanupCounts),
      again.env = attempt.env → again.now = attempt.now → (attempt.run limits db).1 = some counts →
      ∀ table, counts.of table < limits.ceiling →
        let after := (attempt.run limits db).2.stock
        ((again.run limits after).2.stock.rows.map key).filter (·.1 = table) =
            (after.rows.map key).filter (·.1 = table) ∧
          ∀ more, (again.run limits after).1 = some more → more.of table = 0) ∧
    ∀ (attempts : List Attempt) (db : Stock StoredRow), ∃ gone,
      JobExact limits attempts db (process limits attempts db) gone := by
  refine ⟨?_, fun attempt db read files done => attempt.run_answers read files done, ?_, process_exact limits⟩
  · intro attempt db
    obtain ⟨gone, ran⟩ := attempt_exact limits attempt db
    exact ⟨gone, ran, spares_of_takes ran.takes, fun counts answered table under => ran.clean answered under⟩
  · intro attempt again db counts env now answered table under
    obtain ⟨_, ran⟩ := attempt_exact limits attempt db
    have clean := ran.clean answered under
    obtain ⟨gone, second⟩ := attempt_exact limits again (attempt.run limits db).2.stock
    have apart : ∀ k ∈ gone, k.1 ≠ table := by
      rintro k member rfl
      obtain ⟨row, stored, due, rfl⟩ := Stock.mem_candidates.mp (second.takes.match_ k member)
      rw [Attempt.due_congr env now, clean row stored rfl] at due
      cases due
    refine ⟨?_, ?_⟩
    · rw [second.stock, keys_kept apart]
    · intro more answered
      rw [(second.counted more answered table).1, List.filter_eq_nil_iff.mpr fun k member => by simpa using apart k member]
      rfl

def small : Limits := { batchSize := 2, maxBatches := 3 }

/-- A server that takes rows as they stand. -/
def inOrder (outcome : Nat → Outcome) : Server (Table × Id) where
  order _ keys := keys
  perm _ keys := .refl keys
  outcome

/-- The hundredth day. The first attempt loses the answer to its second statement. -/
def interrupted : Attempt where
  env := {}
  now := 100 * MS_PER_DAY
  server := inOrder fun turn => if turn = 1 then .lost else .done
  sweepOrphanFiles := some 0

def retried : Attempt := { interrupted with server := inOrder fun _ => .done }

def cluttered : Stock StoredRow where
  rows := [
    .session "s1" 0, .session "s2" (100 * MS_PER_DAY), .session "s3" 1, .session "s4" 2,
    .notification "n1" none (some 0), .notification "n2" none none,
    .workspaceInvitation "i1" "accepted" 0 0, .workspaceInvitation "i2" "pending" (101 * MS_PER_DAY) 0]
  distinct := by decide

theorem deletes_what_expired_retried :
    (∃ counts, (retried.run small cluttered).1 = some counts ∧ counts.sessions = 3 ∧ counts.notifications = 1 ∧
      counts.invitations = 1) ∧
    (interrupted.run small cluttered).1 = none ∧ (process small [interrupted, retried] cluttered).1.isSome := by
  obtain ⟨exact_, ends, _, job⟩ := deletes_what_expired small
  refine ⟨?_, by decide +kernel, ?_⟩
  · obtain ⟨counts, answered⟩ := Option.isSome_iff_exists.mp (ends retried cluttered rfl rfl fun _ _ => rfl)
    obtain ⟨_, ran, _⟩ := exact_ retried cluttered
    have counted := fun table => (ran.counted counts answered table).2
    exact ⟨counts, answered, (counted .session).trans (by decide +kernel),
      (counted .notification).trans (by decide +kernel),
      (counted .workspaceInvitation).trans (by decide +kernel)⟩
  · obtain ⟨_, ran⟩ := job [interrupted, retried] cluttered
    exact ran.finishes ⟨retried, by simp, rfl, fun _ => rfl, rfl⟩

end Kurul.CleanupWorker
