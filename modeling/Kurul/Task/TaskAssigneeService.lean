import Kurul.Notification.Mailer
import Kurul.Task.Read

/-! Assigning a member to a task. That the assignee is a member is read in a statement of
its own before the row is written. -/
namespace Kurul

open Store Prog

structure AddAssigneeDto where
  userId : Id

namespace TaskAssigneeService

/-- The assignment, its audit row and its notification. -/
def assign (workspaceId actorId : Id) (task : Task) (dto : AddAssigneeDto) : Service (Option Id) := do
  let given ← Service.fresh
  let _ ← query (.create { id := given.id, taskId := task.id, userId := dto.userId : TaskAssignee })
  let activity ← ActivityService.record {
    workspaceId
    taskId := some task.id
    userId := actorId
    type := .TaskAssigned
    payload := [("title", .scalar (.text task.title)), ("assigneeUserId", .scalar (.text dto.userId))] }
  let notification ← NotificationService.create {
    workspaceId
    userId := dto.userId
    actorId
    type := .Assignment
    taskId := some task.id
    activityId := some activity.id
    payload := [("title", .scalar (.text task.title)), ("assigneeUserId", .scalar (.text dto.userId)),
      ("actorId", .scalar (.text actorId))] }
  return notification.map fun _ => dto.userId

/-- The signal and the mail about a stored notification. -/
def notify (mailEnabled : Bool) (workspaceId actorId : Id) (task : Task) :
    Option Id → Service Unit
  | none => Prog.pure ()
  | some userId => do
      NotificationService.emitUnreadChanged workspaceId [userId]
      NotificationMailer.sendForCreated mailEnabled
        [{ workspaceId, userId, actorId := some actorId, type := .Assignment, taskId := task.id }]

def addAssignee (mailEnabled : Bool) (workspaceId taskId actorId : Id) (dto : AddAssigneeDto) :
    Service TaskDto := do
  let task ← TaskReadService.findTaskBasic workspaceId taskId
  let _ ← found (.findFirst fun _ (member : WorkspaceMember) =>
    member.workspaceId = workspaceId && member.userId = dto.userId)
    (.unprocessable "User is not a member of this workspace")
  let notified ← conflictOnUniqueViolation (transaction (assign workspaceId actorId task dto))
    "User is already assigned to this task"
  notify mailEnabled workspaceId actorId task notified
  TaskEventsService.emitUpdated workspaceId taskId actorId

def removeAssignee (workspaceId taskId actorId assigneeUserId : Id) : Service TaskDto := do
  let task ← TaskReadService.findTaskBasic workspaceId taskId
  transaction do
    let count ← query (.deleteMany fun rows (assignee : TaskAssignee) =>
      assignee.taskId = taskId && assignee.userId = assigneeUserId &&
        taskInWorkspace workspaceId rows assignee.taskId)
    require (count ≠ 0) (.notFound "Assignee not found")
    let _ ← ActivityService.record {
      workspaceId
      taskId := some taskId
      userId := actorId
      type := .TaskUnassigned
      payload := [("title", .scalar (.text task.title)), ("assigneeUserId", .scalar (.text assigneeUserId))] }
  TaskEventsService.emitUpdated workspaceId taskId actorId

end TaskAssigneeService
end Kurul
