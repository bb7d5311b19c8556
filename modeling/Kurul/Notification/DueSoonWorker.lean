import Kurul.Notification.Mailer
import Kurul.Sequence.Keyset
import Mathlib

/-! The scan for tasks that are due within a day. It walks them page by page, stores a
reminder for every assignee who has not had one, and sends signals and mails at its end. -/
namespace Kurul

open Store Prog Sequence

def DUE_WINDOW_MS : Int := 24 * 60 * 60 * 1000

structure ScanTaskRow where
  id : Id
  title : String
  dueDate : Option DateTime
  workspaceId : Id
  assignees : List Id
  deriving DecidableEq

/-- `orderBy: [{ dueDate }, { id }]`; the cursor is compared in the same order, which is
what its `OR` spells out. -/
abbrev Cursor := Lex (DateTime × Id)

def dueKey (task : Task) : Cursor := toLex (task.dueDate.getD 0, task.id)

namespace DueSoonWorker

/-- `dueDate: { gt: now, lte: until }`, with an assignee. -/
def isDue (now : DateTime) (rows : List Row) (task : Task) : Bool :=
  task.dueDate.any (fun due => now < due && due ≤ now + DUE_WINDOW_MS) &&
    (table rows : List TaskAssignee).any (·.taskId = task.id)

def dueTasks (now : DateTime) (rows : List Row) : List Task :=
  (table rows).filter (isDue now rows)

/-- `board: { workspaceId }` and the assignees of the task. -/
def scanTask (rows : List Row) (task : Task) : ScanTaskRow where
  id := task.id
  title := task.title
  dueDate := task.dueDate
  workspaceId := (((table rows : List Board).find? (·.id = task.boardId)).map Board.workspaceId).getD ""
  assignees := ((table rows : List TaskAssignee).filter (·.taskId = task.id)).map TaskAssignee.userId

/-- One page of the scan. -/
def duePage (size : Nat) (now : DateTime) (cursor : Option Cursor) (rows : List Row) : List ScanTaskRow :=
  (page dueKey size cursor (dueTasks now rows)).map (scanTask rows)

/-- The (task, user) pairs of a page. -/
def pairsOf (tasks : List ScanTaskRow) : List (Id × Id) :=
  tasks.flatMap fun task =>
    if task.dueDate.isNone then [] else task.assignees.map fun userId => (task.id, userId)

def pairKey (userId taskId : Id) : String := userId ++ ":" ++ taskId

/-- The reminder is unread, or younger than the window. -/
def isStanding (since : DateTime) (row : Notification) : Bool :=
  row.readAt.isNone || since ≤ row.createdAt

/-- Who has been told of which task, as a set of keys. -/
def alreadyNotified (pairs : List (Id × Id)) (since : DateTime) (rows : List Row) : List String :=
  ((table rows : List Notification).filter fun row =>
      row.type = .DueSoon && pairs.any (fun pair => row.taskId = some pair.1 && row.userId = pair.2) &&
        isStanding since row).map fun row => pairKey row.userId (row.taskId.getD "")

def findAlreadyNotified (pairs : List (Id × Id)) (since : DateTime) : Service (List String) :=
  query (.read (alreadyNotified pairs since))

/-- A reminder to be stored, less what the database gives it. -/
structure ReminderRow where
  workspaceId : Id
  userId : Id
  taskId : Id
  title : String
  dueDate : DateTime
  deriving DecidableEq

def remindersOf (skip : List String) (tasks : List ScanTaskRow) : List ReminderRow :=
  tasks.flatMap fun task =>
    match task.dueDate with
    | none => []
    | some dueDate => (task.assignees.filter fun userId => pairKey userId task.id ∉ skip).map fun userId =>
        { workspaceId := task.workspaceId, userId, taskId := task.id, title := task.title, dueDate }

/-- The id and the time of creation are the database's. -/
def store (row : ReminderRow) : Service Notification := do
  let given ← Service.fresh
  return {
    id := given.id
    workspaceId := row.workspaceId
    userId := row.userId
    type := .DueSoon
    taskId := some row.taskId
    payload := [("title", .scalar (.text row.title)), ("dueDate", .scalar (.time row.dueDate)),
      ("type", .scalar (.text "due_soon"))]
    createdAt := given.now }

/-- `createMany({ data: rows, skipDuplicates: true })`. -/
def insertReminders (rows : List ReminderRow) : Service Nat :=
  transaction do
    let data ← collect rows store
    query (.createMany data true)

structure Notified where
  created : Nat
  recipients : List ReminderRow

def notifyBatch (tasks : List ScanTaskRow) (since : DateTime) : Service Notified := do
  let pairs := pairsOf tasks
  if pairs.isEmpty then return { created := 0, recipients := [] }
  else do
    let skip ← findAlreadyNotified pairs since
    let rows := remindersOf skip tasks
    if rows.isEmpty then return { created := 0, recipients := [] }
    else do
      let count ← insertReminders rows
      return if count = 0 then { created := 0, recipients := [] } else { created := count, recipients := rows }

/-- What the scan has gathered; the time it reads and the pairs it has been through are
kept to speak of. -/
structure Scan where
  now : DateTime
  totalCreated : Nat := 0
  mails : List NotificationMailInput := []
  visited : List (Id × Id) := []
  deriving DecidableEq

def toMail (row : ReminderRow) : NotificationMailInput where
  workspaceId := row.workspaceId
  userId := row.userId
  actorId := none
  type := .DueSoon
  taskId := row.taskId

def Scan.add (scan : Scan) (tasks : List ScanTaskRow) (batch : Notified) : Scan where
  now := scan.now
  totalCreated := scan.totalCreated + batch.created
  mails := scan.mails ++ batch.recipients.map toMail
  visited := scan.visited ++ pairsOf tasks

/-- `for (;;)`, for at most so many pages; none where these have not been enough. -/
def scanFrom (size : Nat) : Nat → Option Cursor → Scan → Service (Option Scan)
  | 0, _, _ => Prog.pure none
  | pages + 1, cursor, scan => do
      let tasks ← query (.read (duePage size scan.now cursor))
      if tasks.isEmpty then return some scan
      else do
        let batch ← notifyBatch tasks (scan.now - DUE_WINDOW_MS)
        let scan := scan.add tasks batch
        if tasks.length < size then return some scan
        else match tasks.getLast?.bind fun last => last.dueDate.map fun due => (toLex (due, last.id) : Cursor) with
          | none => return some scan
          | some cursor => scanFrom size pages (some cursor) scan

/-- One signal for each workspace and user, then one mail for each row. -/
def announce (mailEnabled : Bool) (scan : Scan) : Service Unit := do
  forEach (scan.mails.map (·.workspaceId)).eraseDups fun workspaceId =>
    NotificationService.emitUnreadChanged workspaceId
      ((scan.mails.filter (·.workspaceId = workspaceId)).map (·.userId))
  NotificationMailer.sendForCreated mailEnabled scan.mails

def runScan (size pages : Nat) (mailEnabled : Bool) : Service (Option Scan) := do
  let clock ← Service.fresh
  let scanned ← scanFrom size pages none { now := clock.now }
  match scanned with
  | none => return none
  | some scan => do
      announce mailEnabled scan
      return some scan

end DueSoonWorker
end Kurul
