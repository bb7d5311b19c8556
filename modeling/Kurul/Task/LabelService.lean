import Kurul.Task.Read

/-! The labels of a board, and putting them on its tasks. A new label and its audit row are
written one after the other; what edits or deletes one writes both in a transaction. -/
namespace Kurul

open Store Prog

structure CreateLabelDto where
  name : String
  color : String

structure UpdateLabelDto where
  name : Option String := none
  color : Option String := none

structure AddTaskLabelDto where
  labelId : Id

namespace LabelService

def create (workspaceId boardId actorId : Id) (dto : CreateLabelDto) : Service LabelDto := do
  let _ ← assertBoard workspaceId boardId
  let created ← transaction do
    let given ← Service.fresh
    query (.create { id := given.id, boardId, name := dto.name, color := dto.color : Label })
  let _ ← transaction (ActivityService.record {
    workspaceId
    userId := actorId
    type := .LabelCreated
    payload := [("labelId", .scalar (.text created.id)), ("boardId", .scalar (.text boardId)),
      ("name", .scalar (.text created.name)), ("color", .scalar (.text created.color))] })
  return toLabelDto created

def update (workspaceId labelId actorId : Id) (dto : UpdateLabelDto) : Service LabelDto := do
  let updated ← transaction do
    let existing ← found (.findFirst (scopedLabel workspaceId labelId)) (.notFound "Label not found")
    let row ← query (.update (scopedLabel workspaceId labelId) fun label =>
      { label with name := dto.name.getD label.name, color := dto.color.getD label.color })
    let _ ← ActivityService.record {
      workspaceId
      userId := actorId
      type := .LabelUpdated
      payload := [("labelId", .scalar (.text labelId)), ("boardId", .scalar (.text row.boardId)),
        ("name", .scalar (.text row.name)),
        ("changes", .changes (fieldChanges [
          ("name", .text existing.name, .text row.name),
          ("color", .text existing.color, .text row.color)]))] }
    return row
  return toLabelDto updated

def remove (workspaceId labelId actorId : Id) : Service Unit :=
  transaction do
    let existing ← found (.findFirst (scopedLabel workspaceId labelId)) (.notFound "Label not found")
    let _ ← ActivityService.record {
      workspaceId
      userId := actorId
      type := .LabelDeleted
      payload := [("labelId", .scalar (.text labelId)), ("boardId", .scalar (.text existing.boardId)),
        ("name", .scalar (.text existing.name)), ("color", .scalar (.text existing.color))] }
    let count ← query (.deleteMany (scopedLabel workspaceId labelId))
    require (count ≠ 0) (.notFound "Label not found")

end LabelService

namespace TaskLabelService

/-- The label, where it is one of the task's board. -/
def labelOf (task : Task) (labelId : Id) (error : Error) : Service Label :=
  found (.findFirst fun _ (label : Label) => label.id = labelId && label.boardId = task.boardId) error

def addLabel (workspaceId taskId actorId : Id) (dto : AddTaskLabelDto) : Service TaskDto := do
  let task ← TaskReadService.findTaskBasic workspaceId taskId
  let label ← labelOf task dto.labelId (.unprocessable "Label does not belong to this task board")
  let _ ← conflictOnUniqueViolation (transaction do
    let given ← Service.fresh
    let _ ← query (.create { id := given.id, taskId := task.id, labelId := label.id : TaskLabel })
    ActivityService.record {
      workspaceId
      taskId := some task.id
      userId := actorId
      type := .TaskLabelAdded
      payload := [("labelId", .scalar (.text label.id)), ("name", .scalar (.text label.name)),
        ("color", .scalar (.text label.color))] }) "Label is already assigned to this task"
  TaskEventsService.emitUpdated workspaceId taskId actorId

def removeLabel (workspaceId taskId actorId labelId : Id) : Service TaskDto := do
  let task ← TaskReadService.findTaskBasic workspaceId taskId
  let label ← labelOf task labelId (.notFound "Task label not found")
  transaction do
    let count ← query (.deleteMany fun rows (row : TaskLabel) =>
      row.taskId = taskId && row.labelId = labelId && taskInWorkspace workspaceId rows row.taskId)
    require (count ≠ 0) (.notFound "Task label not found")
    let _ ← ActivityService.record {
      workspaceId
      taskId := some taskId
      userId := actorId
      type := .TaskLabelRemoved
      payload := [("labelId", .scalar (.text label.id)), ("name", .scalar (.text label.name)),
        ("color", .scalar (.text label.color))] }
  TaskEventsService.emitUpdated workspaceId taskId actorId

end TaskLabelService
end Kurul
