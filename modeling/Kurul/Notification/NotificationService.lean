import Kurul.Notification.Mailer

/-! The rest of the notification service: the rows for the members a comment mentions, and
marking rows as read. The inserts run in the caller's transaction; the read paths own theirs
and send the signal themselves. -/
namespace Kurul

open Store Prog

structure NotificationDto where
  id : Id
  workspaceId : Id
  userId : Id
  type : NotificationType
  taskId : Option Id
  activityId : Option Id
  payload : Payload
  readAt : Option DateTime
  createdAt : DateTime
  deriving DecidableEq

structure MentionBatchInput where
  workspaceId : Id
  actorId : Id
  taskId : Id
  activityId : Option Id := none
  userIds : List Id
  payload : Payload

namespace NotificationService

def toDto (row : Notification) : NotificationDto where
  id := row.id
  workspaceId := row.workspaceId
  userId := row.userId
  type := row.type
  taskId := row.taskId
  activityId := row.activityId
  payload := row.payload
  readAt := row.readAt
  createdAt := row.createdAt

/-- Each recipient once, the actor left out. -/
def recipientsOf (actorId : Id) (userIds : List Id) : List Id :=
  userIds.eraseDups.filter fun userId => userId ≠ actorId

def mention (input : MentionBatchInput) (userId : Id) : Service Notification := do
  let given ← Service.fresh
  return {
    id := given.id
    workspaceId := input.workspaceId
    userId
    type := .Mention
    taskId := some input.taskId
    activityId := input.activityId
    payload := input.payload
    createdAt := given.now }

def createMentionBatch (input : MentionBatchInput) : Service Nat :=
  if recipientsOf input.actorId input.userIds = [] then Prog.pure 0
  else do
    let data ← collect (recipientsOf input.actorId input.userIds) (mention input)
    query (.createMany data)

/-- `where: { id, workspaceId, userId }`: a notification is its recipient's alone. -/
def scopedNotification (workspaceId userId notificationId : Id) : Where Row Notification := fun _ row =>
  row.id = notificationId && row.workspaceId = workspaceId && row.userId = userId

def markRead (workspaceId userId notificationId : Id) : Service NotificationDto := do
  let (row, changed) ← transaction do
    let existing ← found (.findFirst (scopedNotification workspaceId userId notificationId))
      (.notFound "Notification not found")
    if existing.readAt.isSome then return (existing, false)
    else do
      let given ← Service.fresh
      let updated ← query (.update (scopedNotification workspaceId userId notificationId) fun row =>
        { row with readAt := some given.now })
      return (updated, true)
  if changed then
    emitUnreadChanged workspaceId [userId]
    return toDto row
  else return toDto row

def unread (workspaceId userId : Id) : Where Row Notification := fun _ row =>
  row.workspaceId = workspaceId && row.userId = userId && row.readAt.isNone

def unreadCount (workspaceId userId : Id) : Service Nat :=
  query (.count (unread workspaceId userId))

def markAllRead (workspaceId userId : Id) : Service Nat := do
  let count ← transaction do
    let given ← Service.fresh
    query (.updateMany (unread workspaceId userId) fun row => { row with readAt := some given.now })
  if count > 0 then
    emitUnreadChanged workspaceId [userId]
    return count
  else return count

end NotificationService
end Kurul
