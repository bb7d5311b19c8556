import Kurul.Service

/-! Stored notifications: the row for an assignee, the signal that an unread count has
changed, and the mail about a row. Signals and mails come after the commit that stored
the row; handing a mail to the relay succeeds. -/
namespace Kurul

open Store Prog

/-- What the mail needs of a stored row. There is no actor behind a scheduled one. -/
structure NotificationMailInput where
  workspaceId : Id
  userId : Id
  actorId : Option Id
  type : NotificationType
  taskId : Id
  deriving DecidableEq

structure CreateNotificationInput where
  workspaceId : Id
  userId : Id
  actorId : Id
  type : NotificationType
  taskId : Option Id := none
  activityId : Option Id := none
  payload : Payload

namespace NotificationService

/-- One signal for each recipient. -/
def emitUnreadChanged (workspaceId : Id) (userIds : List Id) : Service Unit :=
  forEach userIds.eraseDups fun userId =>
    Service.emit (.emitToUser workspaceId userId (.NOTIFICATION_UNREAD_CHANGED workspaceId userId))

/-- The actor is not notified. -/
def create (input : CreateNotificationInput) : Service (Option Notification) :=
  if input.userId = input.actorId then Prog.pure none
  else do
    let given ← Service.fresh
    let row ← query (.create {
      id := given.id
      workspaceId := input.workspaceId
      userId := input.userId
      type := input.type
      taskId := input.taskId
      activityId := input.activityId
      payload := input.payload
      createdAt := given.now : Notification })
    return some row

end NotificationService

namespace NotificationMailer

/-- `select: { title, dueDate, boardId, board: { workspace: { name } } }`, through the board. -/
def taskOf (item : NotificationMailInput) (rows : List Row) : Option (Task × String) := do
  let task ← (table rows : List Task).find? (scopedTask item.workspaceId item.taskId rows)
  let workspace ← (table rows : List Workspace).find? (·.id = item.workspaceId)
  return (task, workspace.name)

def actorName (actorId : Option Id) : Service String :=
  match actorId with
  | none => Prog.pure ""
  | some actorId => query (.read fun rows =>
      (((table rows : List User).find? (·.id = actorId)).map User.name).getD "")

/-- The part of the mail that its kind decides; a reminder of a cleared date is stale. -/
def template (item : NotificationMailInput) (task : Task) : Service (Option MailTemplate) :=
  match item.type with
  | .Assignment => do
      let name ← actorName item.actorId
      return some (.assignment name)
  | .Mention => do
      let name ← actorName item.actorId
      return some (.mention name)
  | .DueSoon => Prog.pure (task.dueDate.map MailTemplate.dueSoon)

/-- A recipient who can be mailed and wants to be. -/
def accepts (recipient : User) : Bool := recipient.deletedAt.isNone && recipient.emailNotifications

/-- Nothing where the actor is the recipient, mail is not wanted or the task is gone. -/
def build (item : NotificationMailInput) : Service (Option MailMessage) :=
  if item.actorId = some item.userId then Prog.pure none
  else do
    let recipient ← query (.read fun rows =>
      ((table rows : List User).find? (·.id = item.userId)).filter accepts)
    match recipient with
    | none => return none
    | some recipient => do
        let found ← query (.read (taskOf item))
        match found with
        | none => return none
        | some (task, workspaceName) => do
            let template ← template item task
            return template.map fun template => {
              to_ := recipient.email
              taskTitle := task.title
              workspaceName
              boardId := task.boardId
              taskId := item.taskId
              locale := (matchLocale recipient.locale).getD DEFAULT_LOCALE
              template }

/-- One mail, or none; what goes wrong is only logged. -/
def send (item : NotificationMailInput) : Service Unit :=
  (do let message ← build item
      match message with
      | none => Prog.pure ()
      | some message => Service.emit (.mailSent message) : Service Unit).catching fun _ => Prog.pure ()

def sendForCreated (enabled : Bool) (items : List NotificationMailInput) : Service Unit :=
  if items.isEmpty || !enabled then Prog.pure () else forEach items send

end NotificationMailer
end Kurul
