import Kurul.Store.Referential
import Mathlib

/-! The tables of the schema that the modelled services read or write, their keys,
foreign keys and unique constraints. Positions are exact rationals, timestamps are
milliseconds, and an absent column is one that no modelled function looks at. -/
namespace Kurul

open Store

abbrev Id := String
abbrev DateTime := Int

inductive Priority where
  | LOW | MEDIUM | HIGH | URGENT
  deriving DecidableEq

inductive MemberRole where
  | OWNER | ADMIN | MEMBER | GUEST
  deriving DecidableEq

inductive ColumnCategory where
  | BACKLOG | UNSTARTED | STARTED | COMPLETED | CANCELED
  deriving DecidableEq

inductive AttachmentKind where
  | FILE | LINK
  deriving DecidableEq

inductive InvitationStatus where
  | pending | accepted | rejected | canceled
  deriving DecidableEq

inductive NotificationType where
  | Assignment | Mention | DueSoon
  deriving DecidableEq

inductive ActivityType where
  | TaskCreated | TaskUpdated | TaskMoved | TaskDeleted | TaskAssigned | TaskUnassigned
  | TaskLabelAdded | TaskLabelRemoved | CommentCreated | AttachmentCreated | AttachmentDeleted
  | BoardCreated | BoardUpdated | BoardDeleted | BoardImported
  | ColumnCreated | ColumnUpdated | ColumnDeleted | LabelCreated | LabelUpdated | LabelDeleted
  | WorkspaceUpdated | MemberRemoved | MemberLeft | MemberRoleChanged
  | InvitationCreated | InvitationRevoked | InvitationAccepted | AccountDeleted
  | TokenCreated | TokenRevoked
  deriving DecidableEq

/-- A scalar of a JSON payload. -/
inductive Json where
  | null
  | bool (value : Bool)
  | number (value : Int)
  | text (value : String)
  | time (value : DateTime)
  deriving DecidableEq

/-- What a payload holds under one key: a scalar, a list of ids, the new values of
changed fields, or their old and new values. -/
inductive Json.Field where
  | scalar (value : Json)
  | texts (values : List String)
  | changed (fields : List (String × Json))
  | changes (fields : List (String × Json × Json))
  deriving DecidableEq

abbrev Payload := List (String × Json.Field)

structure User where
  id : Id
  email : String
  name : String
  emailVerified : Bool := false
  avatarUrl : Option String := none
  locale : Option String := none
  emailNotifications : Bool := true
  deletedAt : Option DateTime := none
  deriving DecidableEq

structure Session where
  id : Id
  userId : Id
  deriving DecidableEq

structure Account where
  id : Id
  userId : Id
  deriving DecidableEq

structure Verification where
  id : Id
  identifier : String
  value : String
  deriving DecidableEq

/-- A value under one key of a stored `planLimits` object: the number it holds, null, or
something else. -/
inductive StoredLimit where
  | null
  | number (value : ℚ)
  | other
  deriving DecidableEq

structure Workspace where
  id : Id
  name : String
  slug : String
  planLimits : Option (List (String × StoredLimit)) := none
  deriving DecidableEq

structure WorkspaceMember where
  id : Id
  workspaceId : Id
  userId : Id
  role : MemberRole
  deriving DecidableEq

structure WorkspaceInvitation where
  id : Id
  email : String
  inviterId : Id
  workspaceId : Id
  status : InvitationStatus
  role : Option MemberRole := none
  expiresAt : DateTime := 0
  deriving DecidableEq

structure PersonalAccessToken where
  id : Id
  workspaceId : Id
  userId : Id
  name : String
  tokenPrefix : String
  tokenHash : String
  lastUsedAt : Option DateTime := none
  expiresAt : Option DateTime := none
  revokedAt : Option DateTime := none
  deriving DecidableEq

structure Board where
  id : Id
  workspaceId : Id
  name : String := ""
  description : Option String := none
  deriving DecidableEq

structure Column where
  id : Id
  boardId : Id
  name : String
  position : ℚ
  color : Option String := none
  category : ColumnCategory := .UNSTARTED
  deriving DecidableEq

structure Task where
  id : Id
  boardId : Id
  columnId : Id
  title : String
  description : Option String := none
  priority : Priority := .MEDIUM
  position : ℚ
  dueDate : Option DateTime := none
  estimatedMinutes : Option Int := none
  createdById : Id
  createdAt : DateTime := 0
  updatedAt : DateTime := 0
  deriving DecidableEq

structure TaskAssignee where
  id : Id
  taskId : Id
  userId : Id
  deriving DecidableEq

structure Label where
  id : Id
  boardId : Id
  name : String
  color : String
  deriving DecidableEq

structure TaskLabel where
  id : Id
  taskId : Id
  labelId : Id
  deriving DecidableEq

structure Comment where
  id : Id
  taskId : Id
  userId : Id
  body : String
  createdAt : DateTime := 0
  deriving DecidableEq

structure Attachment where
  id : Id
  taskId : Id
  uploadedById : Id
  kind : AttachmentKind
  filename : String
  storageKey : Option String := none
  mimeType : Option String := none
  size : Option Nat := none
  url : Option String := none
  createdAt : DateTime := 0
  deriving DecidableEq

structure Checklist where
  id : Id
  taskId : Id
  title : String
  position : ℚ
  deriving DecidableEq

structure ChecklistItem where
  id : Id
  checklistId : Id
  content : String
  isDone : Bool := false
  position : ℚ
  deriving DecidableEq

structure Activity where
  id : Id
  workspaceId : Id
  taskId : Option Id := none
  userId : Id
  type : ActivityType
  payload : Payload
  createdAt : DateTime := 0
  deriving DecidableEq

structure Notification where
  id : Id
  workspaceId : Id
  userId : Id
  type : NotificationType
  taskId : Option Id := none
  activityId : Option Id := none
  payload : Payload
  readAt : Option DateTime := none
  createdAt : DateTime := 0
  deriving DecidableEq

structure UsagePing where
  id : Id
  userId : Id
  workspaceId : Id
  deriving DecidableEq

/-- A row of any table. -/
inductive Row where
  | user (row : User)
  | session (row : Session)
  | account (row : Account)
  | verification (row : Verification)
  | workspace (row : Workspace)
  | workspaceMember (row : WorkspaceMember)
  | workspaceInvitation (row : WorkspaceInvitation)
  | personalAccessToken (row : PersonalAccessToken)
  | board (row : Board)
  | column (row : Column)
  | task (row : Task)
  | taskAssignee (row : TaskAssignee)
  | label (row : Label)
  | taskLabel (row : TaskLabel)
  | comment (row : Comment)
  | attachment (row : Attachment)
  | checklist (row : Checklist)
  | checklistItem (row : ChecklistItem)
  | activity (row : Activity)
  | notification (row : Notification)
  | usagePing (row : UsagePing)
  deriving DecidableEq

/-- The primary keys, and below them the unique constraints. -/
inductive Key where
  | user (id : Id)
  | session (id : Id)
  | account (id : Id)
  | verification (id : Id)
  | workspace (id : Id)
  | workspaceMember (id : Id)
  | workspaceInvitation (id : Id)
  | personalAccessToken (id : Id)
  | board (id : Id)
  | column (id : Id)
  | task (id : Id)
  | taskAssignee (id : Id)
  | label (id : Id)
  | taskLabel (id : Id)
  | comment (id : Id)
  | attachment (id : Id)
  | checklist (id : Id)
  | checklistItem (id : Id)
  | activity (id : Id)
  | notification (id : Id)
  | usagePing (id : Id)
  | userEmail (email : String)
  | workspaceSlug (slug : String)
  | membership (workspaceId userId : Id)
  | assignment (taskId userId : Id)
  | labelling (taskId labelId : Id)
  | dueSoonUnread (userId taskId : Id)
  | tokenHash (hash : String)
  deriving DecidableEq

namespace Row

open Reference

def key : Row → Key
  | .user row => .user row.id
  | .session row => .session row.id
  | .account row => .account row.id
  | .verification row => .verification row.id
  | .workspace row => .workspace row.id
  | .workspaceMember row => .workspaceMember row.id
  | .workspaceInvitation row => .workspaceInvitation row.id
  | .personalAccessToken row => .personalAccessToken row.id
  | .board row => .board row.id
  | .column row => .column row.id
  | .task row => .task row.id
  | .taskAssignee row => .taskAssignee row.id
  | .label row => .label row.id
  | .taskLabel row => .taskLabel row.id
  | .comment row => .comment row.id
  | .attachment row => .attachment row.id
  | .checklist row => .checklist row.id
  | .checklistItem row => .checklistItem row.id
  | .activity row => .activity row.id
  | .notification row => .notification row.id
  | .usagePing row => .usagePing row.id

def refs : Row → List (Reference Key)
  | .user _ | .verification _ | .workspace _ => []
  | .session row => [cascades (.user row.userId)]
  | .account row => [cascades (.user row.userId)]
  | .workspaceMember row => [cascades (.workspace row.workspaceId), restricts (.user row.userId)]
  | .workspaceInvitation row =>
      [cascades (.workspace row.workspaceId), restricts (.user row.inviterId)]
  | .personalAccessToken row =>
      [cascades (.workspace row.workspaceId), cascades (.user row.userId)]
  | .board row => [cascades (.workspace row.workspaceId)]
  | .column row => [cascades (.board row.boardId)]
  | .task row =>
      [cascades (.board row.boardId),
        { target := .column row.columnId, onDelete := .cascade, through := some (.board row.boardId) },
        restricts (.user row.createdById)]
  | .taskAssignee row => [cascades (.task row.taskId), restricts (.user row.userId)]
  | .label row => [cascades (.board row.boardId)]
  | .taskLabel row => [cascades (.task row.taskId), cascades (.label row.labelId)]
  | .comment row => [cascades (.task row.taskId), restricts (.user row.userId)]
  | .attachment row => [cascades (.task row.taskId), restricts (.user row.uploadedById)]
  | .checklist row => [cascades (.task row.taskId)]
  | .checklistItem row => [cascades (.checklist row.checklistId)]
  | .activity row =>
      cascades (.workspace row.workspaceId) ::
        row.taskId.toList.map (fun taskId => setsNull (.task taskId)) ++
          [restricts (.user row.userId)]
  | .notification row =>
      [cascades (.workspace row.workspaceId), cascades (.user row.userId)] ++
        row.taskId.toList.map (fun taskId => cascades (.task taskId)) ++
          row.activityId.toList.map fun activityId => setsNull (.activity activityId)
  | .usagePing row => [cascades (.user row.userId), cascades (.workspace row.workspaceId)]

def uniques : Row → List Key
  | .user row => [.userEmail row.email]
  | .workspace row => [.workspaceSlug row.slug]
  | .workspaceMember row => [.membership row.workspaceId row.userId]
  | .personalAccessToken row => [.tokenHash row.tokenHash]
  | .taskAssignee row => [.assignment row.taskId row.userId]
  | .taskLabel row => [.labelling row.taskId row.labelId]
  | .notification row =>
      -- Notification_due_soon_unread_uidx, a partial index
      match row.type, row.readAt, row.taskId with
      | .DueSoon, none, some taskId => [.dueSoonUnread row.userId taskId]
      | _, _, _ => []
  | _ => []

/-- The two nullable references of the schema. -/
def unset (k : Key) : Row → Row
  | .activity row =>
      .activity { row with taskId := if row.taskId.map Key.task = some k then none else row.taskId }
  | .notification row =>
      .notification { row with
        activityId := if row.activityId.map Key.activity = some k then none else row.activityId }
  | row => row

end Row

instance : Relational Row Key where
  key := Row.key
  refs := Row.refs
  uniques := Row.uniques
  unset := Row.unset
  key_unset k row := by cases row <;> rfl

instance : Entity Row User where
  toRow := .user
  ofRow
    | .user a => some a
    | _ => none
  ofRow_eq row a := by cases row <;> simp [eq_comm]

instance : Entity Row Session where
  toRow := .session
  ofRow
    | .session a => some a
    | _ => none
  ofRow_eq row a := by cases row <;> simp [eq_comm]

instance : Entity Row Account where
  toRow := .account
  ofRow
    | .account a => some a
    | _ => none
  ofRow_eq row a := by cases row <;> simp [eq_comm]

instance : Entity Row Verification where
  toRow := .verification
  ofRow
    | .verification a => some a
    | _ => none
  ofRow_eq row a := by cases row <;> simp [eq_comm]

instance : Entity Row Workspace where
  toRow := .workspace
  ofRow
    | .workspace a => some a
    | _ => none
  ofRow_eq row a := by cases row <;> simp [eq_comm]

instance : Entity Row WorkspaceMember where
  toRow := .workspaceMember
  ofRow
    | .workspaceMember a => some a
    | _ => none
  ofRow_eq row a := by cases row <;> simp [eq_comm]

instance : Entity Row WorkspaceInvitation where
  toRow := .workspaceInvitation
  ofRow
    | .workspaceInvitation a => some a
    | _ => none
  ofRow_eq row a := by cases row <;> simp [eq_comm]

instance : Entity Row PersonalAccessToken where
  toRow := .personalAccessToken
  ofRow
    | .personalAccessToken a => some a
    | _ => none
  ofRow_eq row a := by cases row <;> simp [eq_comm]

instance : Entity Row Board where
  toRow := .board
  ofRow
    | .board a => some a
    | _ => none
  ofRow_eq row a := by cases row <;> simp [eq_comm]

instance : Entity Row Column where
  toRow := .column
  ofRow
    | .column a => some a
    | _ => none
  ofRow_eq row a := by cases row <;> simp [eq_comm]

instance : Entity Row Task where
  toRow := .task
  ofRow
    | .task a => some a
    | _ => none
  ofRow_eq row a := by cases row <;> simp [eq_comm]

instance : Entity Row TaskAssignee where
  toRow := .taskAssignee
  ofRow
    | .taskAssignee a => some a
    | _ => none
  ofRow_eq row a := by cases row <;> simp [eq_comm]

instance : Entity Row Label where
  toRow := .label
  ofRow
    | .label a => some a
    | _ => none
  ofRow_eq row a := by cases row <;> simp [eq_comm]

instance : Entity Row TaskLabel where
  toRow := .taskLabel
  ofRow
    | .taskLabel a => some a
    | _ => none
  ofRow_eq row a := by cases row <;> simp [eq_comm]

instance : Entity Row Comment where
  toRow := .comment
  ofRow
    | .comment a => some a
    | _ => none
  ofRow_eq row a := by cases row <;> simp [eq_comm]

instance : Entity Row Attachment where
  toRow := .attachment
  ofRow
    | .attachment a => some a
    | _ => none
  ofRow_eq row a := by cases row <;> simp [eq_comm]

instance : Entity Row Checklist where
  toRow := .checklist
  ofRow
    | .checklist a => some a
    | _ => none
  ofRow_eq row a := by cases row <;> simp [eq_comm]

instance : Entity Row ChecklistItem where
  toRow := .checklistItem
  ofRow
    | .checklistItem a => some a
    | _ => none
  ofRow_eq row a := by cases row <;> simp [eq_comm]

instance : Entity Row Activity where
  toRow := .activity
  ofRow
    | .activity a => some a
    | _ => none
  ofRow_eq row a := by cases row <;> simp [eq_comm]

instance : Entity Row Notification where
  toRow := .notification
  ofRow
    | .notification a => some a
    | _ => none
  ofRow_eq row a := by cases row <;> simp [eq_comm]

instance : Entity Row UsagePing where
  toRow := .usagePing
  ofRow
    | .usagePing a => some a
    | _ => none
  ofRow_eq row a := by cases row <;> simp [eq_comm]

end Kurul
