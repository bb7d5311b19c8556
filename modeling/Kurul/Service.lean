import Kurul.Encoding.Utf16
import Kurul.Schema
import Kurul.Sequence.Trimming
import Kurul.Store.Interleaving

/-! What the services share: the exceptions they throw, the events that leave them,
the values they take from their surroundings, and the scoped lookups. -/
namespace Kurul

open Store Prog

/-- The refusals of the database client that the services tell apart. -/
inductive DatabaseCode where
  | recordNotFound
  | uniqueViolation
  | foreignKeyViolation
  | transactionTimeout
  deriving DecidableEq

inductive Error where
  | badRequest (message : String)
  | unauthorized (message : String)
  | forbidden (message : String)
  | notFound (message : String)
  | conflict (message : String)
  | unprocessable (message : String)
  | planLimitExceeded (limit current : Nat) (message : String)
  | database (code : DatabaseCode)
  deriving DecidableEq

instance : DatabaseErrors Error where
  recordNotFound := .database .recordNotFound
  uniqueViolation := .database .uniqueViolation
  foreignKeyViolation := .database .foreignKeyViolation

inductive Locale where
  | en | tr
  deriving DecidableEq

/-- Thin payloads; every board event repeats its tenant, board and acting user. -/
inductive SocketEvent where
  | TASK_CREATED (workspaceId boardId actorId taskId : Id)
  | TASK_UPDATED (workspaceId boardId actorId taskId : Id)
  | TASK_MOVED (workspaceId boardId actorId taskId columnId : Id) (position : ℚ)
  | TASK_DELETED (workspaceId boardId actorId taskId : Id)
  | COLUMN_CHANGED (workspaceId boardId actorId columnId : Id)
  | COMMENT_ADDED (workspaceId boardId actorId taskId commentId : Id)
  | NOTIFICATION_UNREAD_CHANGED (workspaceId userId : Id)
  deriving DecidableEq

inductive MailTemplate where
  | assignment (actorName : String)
  | mention (actorName : String)
  | dueSoon (dueDate : DateTime)
  deriving DecidableEq

/-- A notification mail by what its template is given. The task link is built from
the board and the task. -/
structure MailMessage where
  to_ : String
  taskTitle : String
  workspaceName : String
  boardId : Id
  taskId : Id
  locale : Locale
  template : MailTemplate
  deriving DecidableEq

inductive DeletionInitiator where
  | self | instance_admin
  deriving DecidableEq

structure AccountDeletionCounts where
  workspacesTransferred : Nat := 0
  workspacesDeleted : Nat := 0
  membershipsRemoved : Nat := 0
  assignmentsRemoved : Nat := 0
  invitationsRevoked : Nat := 0
  invitationsReceivedDeleted : Nat := 0
  commentsRedacted : Nat := 0
  activitiesRedacted : Nat := 0
  sessionsDeleted : Nat := 0
  accessTokensDeleted : Nat := 0
  accountsDeleted : Nat := 0
  verificationsDeleted : Nat := 0
  notificationsDeleted : Nat := 0
  usagePingsDeleted : Nat := 0
  deriving DecidableEq

/-- The log lines that outlive the rows they describe, less their timing. -/
inductive LogLine where
  | accountDeleted (userId : Id) (initiatedBy : DeletionInitiator) (actorId : Option Id)
      (counts : AccountDeletionCounts)
  | workspaceDeleted (workspaceId actorId : Id) (name slug : Option String)
      (memberCount boardCount : Option Nat) (deletedWithAccount : Id)
  deriving DecidableEq

inductive Event where
  | emitToBoard (boardId : Id) (event : SocketEvent)
  | emitToUser (workspaceId userId : Id) (event : SocketEvent)
  | mailSent (message : MailMessage)
  | evicted (workspaceId userId : Id)
  | logged (line : LogLine)
  deriving DecidableEq

/-- What a service asks of its surroundings: a new `uuid(7)` and the time. -/
structure Input where
  id : Id
  now : DateTime
  deriving DecidableEq

abbrev Service (α : Type) := Prog Row Key Event Input Error α

namespace Service

def fresh : Service Input := Prog.input Prog.pure

def emit (event : Event) : Service Unit := Prog.emit event (Prog.pure ())

def refuse (error : Error) : Service α := Prog.throw error

end Service

/-- A task's, column's or label's board lies in the workspace: `board: { workspaceId }`. -/
def boardInWorkspace (workspaceId : Id) (rows : List Row) (boardId : Id) : Bool :=
  (table rows : List Board).any fun board => board.id = boardId && board.workspaceId = workspaceId

/-- `task: { board: { workspaceId } }`. -/
def taskInWorkspace (workspaceId : Id) (rows : List Row) (taskId : Id) : Bool :=
  (table rows : List Task).any fun task =>
    task.id = taskId && boardInWorkspace workspaceId rows task.boardId

/-- `where: { id, board: { workspaceId } }` on tasks, columns and labels. -/
def scopedTask (workspaceId taskId : Id) : Where Row Task := fun rows task =>
  task.id = taskId && boardInWorkspace workspaceId rows task.boardId

def scopedColumn (workspaceId columnId : Id) : Where Row Column := fun rows column =>
  column.id = columnId && boardInWorkspace workspaceId rows column.boardId

def scopedLabel (workspaceId labelId : Id) : Where Row Label := fun rows label =>
  label.id = labelId && boardInWorkspace workspaceId rows label.boardId

def assertBoard (workspaceId boardId : Id) : Service Board :=
  found (.findFirst fun _ (board : Board) => board.id = boardId && board.workspaceId = workspaceId)
    (.notFound "Board not found")

/-- A read or write that answers more than its own row. -/
def including (exec : Statement Row Key Error β) (include_ : List Row → β → γ) :
    Statement Row Key Error γ := fun rows =>
  (exec rows).map fun o =>
    { result := include_ rows o.result, writes := o.writes, locks := o.locks }

theorem including_ok {exec : Statement Row Key Error β} {include_ : List Row → β → γ}
    {rows : List Row} {o : Outcome Row Key γ} (ran : including exec include_ rows = .ok o) :
    ∃ o', exec rows = .ok o' ∧ o.result = include_ rows o'.result ∧ o.writes = o'.writes ∧
      o.footprint = o'.footprint := by
  simp only [including] at ran
  cases answered : exec rows with
  | error => simp [answered, Except.map] at ran
  | ok o' =>
      simp only [answered, Except.map, Except.ok.injEq] at ran
      exact ⟨o', rfl, by subst ran; exact ⟨rfl, rfl, rfl⟩⟩

namespace ActivityService

structure RecordActivityInput where
  workspaceId : Id
  taskId : Option Id := none
  userId : Id
  type : ActivityType
  payload : Payload

def record (input : RecordActivityInput) : Service Activity := do
  let given ← Service.fresh
  query (.create ({
    id := given.id
    workspaceId := input.workspaceId
    taskId := input.taskId
    userId := input.userId
    type := input.type
    payload := input.payload
    createdAt := given.now } : Activity))

end ActivityService

/-- Turns a unique violation into a conflict and lets any other error through. -/
def conflictOnUniqueViolation (write : Service α) (message : String) : Service α :=
  write.catching fun error =>
    if error = .database .uniqueViolation then .throw (.conflict message) else .throw error

/-- An over-fetched page: the row beyond the limit only says that there is more. -/
structure CursorPage (α : Type) where
  items : List α
  nextCursor : Option Id
  hasMore : Bool

def toCursorPage (rows : List ρ) (id : ρ → Id) (limit : Nat) (map : ρ → α) : CursorPage α :=
  let hasMore := decide (rows.length > limit)
  let page := if hasMore then rows.take limit else rows
  { items := page.map map
    nextCursor := if hasMore then page.getLast?.map id else none
    hasMore }

def Json.ofOption (json : α → Json) : Option α → Json
  | none => .null
  | some value => json value

def ColumnCategory.text : ColumnCategory → String
  | .BACKLOG => "BACKLOG"
  | .UNSTARTED => "UNSTARTED"
  | .STARTED => "STARTED"
  | .COMPLETED => "COMPLETED"
  | .CANCELED => "CANCELED"

/-- One field's audit entry is left out where the write changed nothing. -/
def fieldChanges (fields : List (String × Json × Json)) : List (String × Json × Json) :=
  fields.filter fun (_, before, after) => before ≠ after

/-- JavaScript's truthiness of an optional id. -/
def truthy (id : Option Id) : Bool := id.any (· ≠ "")

def isTrimmed (c : Char) : Bool := Encoding.isWhiteSpace c.toNat

def trim (text : String) : String := .ofList (Sequence.trimmed isTrimmed text.toList)

/-- The supported language of a tag: the tag itself or its base language. -/
def matchLocale (tag : Option String) : Option Locale :=
  let isLocale (text : List Char) : Option Locale :=
    if text = "en".toList then some .en else if text = "tr".toList then some .tr else none
  match tag with
  | none => none
  | some tag =>
      let normalized := ((trim tag).toList.map Char.toLower)
      (isLocale normalized).or (isLocale (normalized.takeWhile (· ≠ '-')))

def DEFAULT_LOCALE : Locale := .en

/-- One turn after the other, each with an id and a time of its own. -/
def turns {ι : Type} (order : List ι) : List (Action ι Input Error) :=
  order.mapIdx fun turn i => .run i { id := toString turn, now := turn }

/-- ASCII is enough for the addresses of the samples. -/
def asciiLowerCase (text : String) : String := text.map Char.toLower

/-- The callers of the sample runs. -/
inductive Caller where
  | ann | bob
  deriving DecidableEq

/-- The turns of one caller, with values unlike those of the other. -/
def inTurn (i : Caller) (first count : Nat) : List (Action Caller Input Error) :=
  (List.range' first count).map fun turn => .run i { id := toString turn, now := turn }

/-- A workspace of two people with one board, for the examples of the services. -/
def sampleWorkspace : List Row := [
  .user { id := "ann", email := "ann@kurul.dev", name := "Ann" },
  .user { id := "bob", email := "bob@kurul.dev", name := "Bob" },
  .workspace { id := "w", name := "Kurul", slug := "kurul" },
  .workspaceMember { id := "m1", workspaceId := "w", userId := "ann", role := .OWNER },
  .workspaceMember { id := "m2", workspaceId := "w", userId := "bob", role := .MEMBER },
  .board { id := "b", workspaceId := "w" }]

end Kurul
