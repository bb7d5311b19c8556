import Kurul.Position

/-! Task rows with their relations, the mapping to what clients receive, the scoped
reads, the list filter and the event every mutation ends with. -/
namespace Kurul

open Store Prog

/-- `orderBy: { … : 'asc' }`. -/
def orderBy {α β : Type} [LinearOrder β] (column : α → β) (rows : List α) : List α :=
  rows.insertionSort fun a b => column a ≤ column b

structure TaskAssigneeDto where
  userId : Id
  name : String
  avatarUrl : Option String
  deriving DecidableEq

structure LabelDto where
  id : Id
  boardId : Id
  name : String
  color : String
  deriving DecidableEq

structure ChecklistItemDto where
  id : Id
  content : String
  isDone : Bool
  position : ℚ
  deriving DecidableEq

structure ChecklistDto where
  id : Id
  title : String
  position : ℚ
  items : List ChecklistItemDto
  deriving DecidableEq

structure ChecklistSummaryDto where
  total : Nat
  done : Nat
  deriving DecidableEq

structure TaskDto where
  id : Id
  boardId : Id
  columnId : Id
  title : String
  description : Option String
  priority : Priority
  position : ℚ
  dueDate : Option DateTime
  estimatedMinutes : Option Int
  createdById : Id
  createdAt : DateTime
  updatedAt : DateTime
  assignees : List TaskAssigneeDto
  labels : List LabelDto
  attachmentCount : Nat
  checklistSummary : ChecklistSummaryDto
  checklists : Option (List ChecklistDto)
  deriving DecidableEq

/-- A task as read with its relations. The list read keeps of the checklists only
whether each item is done. -/
structure TaskRow where
  task : Task
  assignees : List User
  labels : List Label
  checklists : List (Checklist × List ChecklistItem)
  attachmentCount : Nat

def SLOTS : List String :=
  ["slot-1", "slot-2", "slot-3", "slot-4", "slot-5", "slot-6", "slot-7", "slot-8"]

def toLabelColorSlot (value : String) : String := if SLOTS.contains value then value else "slot-1"

def toLabelDto (label : Label) : LabelDto :=
  { id := label.id, boardId := label.boardId, name := label.name
    color := toLabelColorSlot label.color }

def summarizeChecklists (checklists : List (Checklist × List ChecklistItem)) :
    ChecklistSummaryDto where
  total := (checklists.map fun (_, items) => items.length).sum
  done := (checklists.map fun (_, items) => items.countP (·.isDone)).sum

def toTaskCore (row : TaskRow) (checklists : Option (List ChecklistDto)) : TaskDto where
  id := row.task.id
  boardId := row.task.boardId
  columnId := row.task.columnId
  title := row.task.title
  description := row.task.description
  priority := row.task.priority
  position := row.task.position
  dueDate := row.task.dueDate
  estimatedMinutes := row.task.estimatedMinutes
  createdById := row.task.createdById
  createdAt := row.task.createdAt
  updatedAt := row.task.updatedAt
  assignees := row.assignees.map fun user =>
    { userId := user.id, name := user.name, avatarUrl := user.avatarUrl }
  labels := row.labels.map toLabelDto
  attachmentCount := row.attachmentCount
  checklistSummary := summarizeChecklists row.checklists
  checklists

def toTaskListDto (row : TaskRow) : TaskDto := toTaskCore row none

def toTaskDetailDto (row : TaskRow) : TaskDto :=
  toTaskCore row (some (row.checklists.map fun (list, items) =>
    { id := list.id, title := list.title, position := list.position
      items := items.map fun item =>
        { id := item.id, content := item.content, isDone := item.isDone
          position := item.position } }))

/-- A created task has nothing pointing at it yet. -/
def emptyTaskRelations (task : Task) : TaskRow :=
  { task, assignees := [], labels := [], checklists := [], attachmentCount := 0 }

section Includes

variable (rows : List Row) (task : Task)

def assigneesOf : List User :=
  (orderBy TaskAssignee.id ((table rows).filter fun entry => entry.taskId = task.id)).filterMap
    fun entry => (table rows : List User).find? (·.id = entry.userId)

def labelsOf : List Label :=
  (orderBy TaskLabel.id ((table rows).filter fun entry => entry.taskId = task.id)).filterMap
    fun entry => (table rows : List Label).find? (·.id = entry.labelId)

def checklistsOf : List (Checklist × List ChecklistItem) :=
  ((table rows : List Checklist).filter (·.taskId = task.id)).map fun list =>
    (list, (table rows : List ChecklistItem).filter (·.checklistId = list.id))

def taskListInclude : TaskRow :=
  { task
    assignees := assigneesOf rows task
    labels := labelsOf rows task
    checklists := checklistsOf rows task
    attachmentCount := 0 }

/-- As the list include, with checklists and items in position order. -/
def taskDetailInclude : TaskRow :=
  { taskListInclude rows task with
    checklists := (orderBy (·.1.position) (checklistsOf rows task)).map fun (list, items) =>
      (list, orderBy ChecklistItem.position items) }

end Includes

def countAttachments (taskId : Id) : Service Nat :=
  query (.count fun _ (attachment : Attachment) => attachment.taskId = taskId)

/-- The count per task; a page without tasks asks nothing. -/
def countAttachmentsByTask (taskIds : List Id) : Service (Id → Nat) :=
  if taskIds = [] then return fun _ => 0
  else query (.read fun rows taskId =>
    (table rows : List Attachment).countP fun attachment =>
      attachment.taskId = taskId && taskIds.contains taskId)

/-- `findFirst` with the detail include. -/
def findTaskDetail (workspaceId taskId : Id) : Statement Row Key Error (Option TaskRow) :=
  .read fun rows => ((table rows).find? (scopedTask workspaceId taskId rows)).map
    (taskDetailInclude rows)

namespace TaskReadService

def findTask (workspaceId taskId : Id) : Service TaskRow := do
  let task ← found (findTaskDetail workspaceId taskId) (.notFound "Task not found")
  let attachmentCount ← countAttachments taskId
  return { task with attachmentCount }

/-- The check before a mutation; only `id`, `title` and `boardId` of the row are used. -/
def findTaskBasic (workspaceId taskId : Id) : Service Task :=
  found (.findFirst (scopedTask workspaceId taskId)) (.notFound "Task not found")

end TaskReadService

namespace TaskEventsService

def emitUpdated (workspaceId taskId actorId : Id) : Service TaskDto := do
  let task ← TaskReadService.findTask workspaceId taskId
  let dto := toTaskDetailDto task
  Service.emit (.emitToBoard dto.boardId (.TASK_UPDATED workspaceId dto.boardId actorId dto.id))
  return dto

end TaskEventsService

/-- The query of a board's task list; `assigneeId` may hold the word `null`. -/
structure TaskQueryDto where
  limit : Option Nat := none
  cursor : Option Id := none
  q : Option String := none
  priority : Option (List Priority) := none
  assigneeId : Option (List String) := none
  labelId : Option (List Id) := none
  dueDate : Option String := none
  dueDateGte : Option DateTime := none
  dueDateLte : Option DateTime := none

/-- `contains` with `mode: 'insensitive'`. The pattern is escaped, so it stands for itself. -/
def containsInsensitive (q text : String) : Bool :=
  ((text.toList.map Char.toLower).tails.any fun tail =>
    (q.toList.map Char.toLower).isPrefixOf tail)

def buildListWhere (boardId : Id) (dto : TaskQueryDto) : Where Row Task := fun rows task =>
  task.boardId = boardId &&
  (!truthy dto.cursor || dto.cursor.all (· < task.id)) &&
  (!truthy dto.q || dto.q.all fun q =>
    containsInsensitive q task.title || task.description.any (containsInsensitive q)) &&
  (dto.priority.all fun priorities => priorities.isEmpty || priorities.contains task.priority) &&
  (dto.assigneeId.all fun ids =>
    let assignees := (table rows : List TaskAssignee).filter (·.taskId = task.id)
    let userIds := ids.filter (· ≠ "null")
    ids.isEmpty || (ids.contains "null" && assignees.isEmpty) ||
      assignees.any fun entry => userIds.contains entry.userId) &&
  (dto.labelId.all fun ids => ids.isEmpty ||
    (table rows : List TaskLabel).any fun entry =>
      entry.taskId = task.id && ids.contains entry.labelId) &&
  (dto.dueDate ≠ some "null" || task.dueDate = none) &&
  (dto.dueDateGte.all fun bound => task.dueDate.any (bound ≤ ·)) &&
  (dto.dueDateLte.all fun bound => task.dueDate.any (· ≤ bound))

end Kurul
