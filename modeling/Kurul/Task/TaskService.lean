import Kurul.Task.Read

/-! The task service: reading, creating, editing, removing and moving tasks. A
create or move locks the column it writes into before it reads the siblings. -/
namespace Kurul

open Store Prog

/-- An ISO 8601 text by what `new Date` makes of it. -/
inductive WireDate where
  | instant (time : DateTime)
  | invalid
  deriving DecidableEq

/-- An outer `none` is an absent field, an inner one an explicit null. -/
structure CreateTaskDto where
  title : String
  columnId : Id
  description : Option (Option String) := none
  priority : Option Priority := none
  dueDate : Option (Option WireDate) := none
  estimatedMinutes : Option (Option Int) := none
  afterTaskId : Option Id := none

structure UpdateTaskDto where
  title : Option String := none
  description : Option (Option String) := none
  priority : Option Priority := none
  dueDate : Option (Option WireDate) := none
  estimatedMinutes : Option (Option Int) := none

structure MoveTaskDto where
  columnId : Id
  beforeTaskId : Option Id := none
  afterTaskId : Option Id := none

structure TaskAttributes where
  title : String
  description : Option String
  priority : Option Priority
  dueDate : Option DateTime
  estimatedMinutes : Option Int

/-- The columns a request sent. -/
structure TaskPatch where
  title : Option String
  description : Option (Option String)
  priority : Option Priority
  dueDate : Option (Option DateTime)
  estimatedMinutes : Option (Option Int)

def TaskPatch.apply (data : TaskPatch) (updatedAt : DateTime) (task : Task) : Task :=
  { task with
    title := data.title.getD task.title
    description := data.description.getD task.description
    priority := data.priority.getD task.priority
    dueDate := data.dueDate.getD task.dueDate
    estimatedMinutes := data.estimatedMinutes.getD task.estimatedMinutes
    updatedAt }

def parseDueDate : Option (Option WireDate) → Except Error (Option (Option DateTime))
  | none => .ok none
  | some none => .ok (some none)
  | some (some (.instant time)) => .ok (some (some time))
  | some (some .invalid) => .error (.badRequest "dueDate must be a valid ISO 8601 timestamp")

def createTaskAttributes (dto : CreateTaskDto) : Except Error TaskAttributes := do
  let dueDate ← parseDueDate dto.dueDate
  return {
    title := dto.title
    description := dto.description.join
    priority := dto.priority
    dueDate := dueDate.join
    estimatedMinutes := dto.estimatedMinutes.join }

def Priority.text : Priority → String
  | .LOW => "LOW"
  | .MEDIUM => "MEDIUM"
  | .HIGH => "HIGH"
  | .URGENT => "URGENT"

/-- One entry of `changes`: there when the field was sent and differs. -/
def changed [DecidableEq α] (field : String) (json : α → Json) (sent : Option α) (existing : α) :
    List (String × Json) :=
  match sent with
  | some value => if value ≠ existing then [(field, json value)] else []
  | none => []

/-- What to write, and the part of it that differs from the stored row. -/
def planTaskUpdate (existing : Task) (dto : UpdateTaskDto) :
    Except Error (TaskPatch × List (String × Json)) := do
  let dueDate ← parseDueDate dto.dueDate
  let data : TaskPatch :=
    { title := dto.title
      description := dto.description
      priority := dto.priority
      dueDate
      estimatedMinutes := dto.estimatedMinutes }
  return (data,
    changed "title" .text dto.title existing.title ++
    changed "description" (Json.ofOption .text) dto.description existing.description ++
    changed "priority" (fun priority => .text priority.text) dto.priority existing.priority ++
    changed "dueDate" (Json.ofOption .time) dueDate existing.dueDate ++
    changed "estimatedMinutes" (Json.ofOption .number) dto.estimatedMinutes
      existing.estimatedMinutes)

namespace TaskService

def list (workspaceId boardId : Id) (dto : TaskQueryDto) : Service (CursorPage TaskDto) := do
  let _ ← assertBoard workspaceId boardId
  let limit := dto.limit.getD 50
  let found ← query (.read fun rows =>
    ((orderBy Task.id ((table rows).filter (buildListWhere boardId dto rows))).take (limit + 1)).map
      (taskListInclude rows))
  let counts ← countAttachmentsByTask (found.map (·.task.id))
  let rows := found.map fun row => { row with attachmentCount := counts row.task.id }
  return toCursorPage rows (·.task.id) limit toTaskListDto

def findColumnOnBoard (workspaceId boardId columnId : Id) : Service Column :=
  found (.findFirst fun rows (column : Column) =>
    column.id = columnId && column.boardId = boardId && boardInWorkspace workspaceId rows boardId)
    (.notFound "Column not found")

def create (workspaceId boardId userId : Id) (dto : CreateTaskDto) : Service TaskDto := do
  let _ ← assertBoard workspaceId boardId
  let column ← findColumnOnBoard workspaceId boardId dto.columnId
  let attributes ← ofExcept (createTaskAttributes dto)
  let result ← transaction do
    query (.lockForUpdate (.column column.id))
    let siblings ← query (.read (taskPositions.siblings column.id))
    let slot ← ofExcept (resolveCreateNeighbors siblings dto.afterTaskId "Task not found")
    let position ← taskPositions.createPosition column.id siblings slot
    let given ← Service.fresh
    let created ← query (.create ({
      id := given.id
      boardId
      columnId := column.id
      title := attributes.title
      description := attributes.description
      priority := attributes.priority.getD .MEDIUM
      position
      dueDate := attributes.dueDate
      estimatedMinutes := attributes.estimatedMinutes
      createdById := userId
      createdAt := given.now
      updatedAt := given.now } : Task))
    let _ ← ActivityService.record {
      workspaceId
      taskId := some created.id
      userId
      type := .TaskCreated
      payload := [("title", .scalar (.text created.title)),
        ("columnId", .scalar (.text created.columnId)),
        ("boardId", .scalar (.text created.boardId))] }
    return toTaskDetailDto (emptyTaskRelations created)
  Service.emit (.emitToBoard result.boardId
    (.TASK_CREATED workspaceId result.boardId userId result.id))
  return result

def get (workspaceId taskId : Id) : Service TaskDto := do
  let task ← TaskReadService.findTask workspaceId taskId
  return toTaskDetailDto task

def update (workspaceId taskId userId : Id) (dto : UpdateTaskDto) : Service TaskDto := do
  let existing ← TaskReadService.findTask workspaceId taskId
  let (data, changes) ← ofExcept (planTaskUpdate existing.task dto)
  if changes = [] then
    return toTaskDetailDto existing
  else
    let result ← transaction do
      let _ ← found (.findFirst (scopedTask workspaceId taskId)) (.notFound "Task not found")
      let given ← Service.fresh
      let updated ← query (including
        (.update (scopedTask workspaceId taskId) (data.apply given.now)) taskDetailInclude)
      let _ ← ActivityService.record {
        workspaceId
        taskId := some taskId
        userId
        type := .TaskUpdated
        payload := [("title", .scalar (.text updated.task.title)), ("changes", .changed changes)] }
      let attachmentCount ← countAttachments taskId
      return toTaskDetailDto { updated with attachmentCount }
    Service.emit (.emitToBoard result.boardId
      (.TASK_UPDATED workspaceId result.boardId userId result.id))
    return result

def remove (workspaceId taskId userId : Id) : Service Unit := do
  let task ← transaction do
    let row ← found (.findFirst (scopedTask workspaceId taskId)) (.notFound "Task not found")
    let _ ← ActivityService.record {
      workspaceId
      taskId := none
      userId
      type := .TaskDeleted
      payload := [("taskId", .scalar (.text row.id)), ("title", .scalar (.text row.title)),
        ("columnId", .scalar (.text row.columnId)), ("boardId", .scalar (.text row.boardId))] }
    let count ← query (.deleteMany (scopedTask workspaceId taskId))
    require (count ≠ 0) (.notFound "Task not found")
    return row
  Service.emit (.emitToBoard task.boardId
    (.TASK_DELETED workspaceId task.boardId userId task.id))

/-- The name of the column a task comes from; only read when it is another one. -/
def fromColumnName (fromColumnId : Id) (targetColumn : Column) : Service String :=
  if fromColumnId = targetColumn.id then return targetColumn.name
  else do
    let fromColumn ← query (.findFirst fun _ (column : Column) => column.id = fromColumnId)
    return (fromColumn.map Column.name).getD ""

/-- Writes the moved task, and its siblings where they have to be moved apart. -/
def place (workspaceId : Id) (task : TaskRow) (targetColumnId : Id) (remaining : List Sibling)
    (slot : InsertionSlot) (attachmentCount : Nat) : Service TaskDto :=
  let prevPos := slot.prev.map Sibling.position
  let nextPos := slot.next.map Sibling.position
  if needsRebalance prevPos nextPos then do
    let moved : Sibling := { id := task.task.id, position := task.task.position }
    let positions := rebalancePositions (remaining.length + 1)
    let position := positions.getD slot.insertionIndex 0
    let given ← Service.fresh
    let _ ← query (.update (scopedTask workspaceId task.task.id) fun row =>
      { row with position, columnId := targetColumnId, updatedAt := given.now })
    batchUpdateTaskPositions targetColumnId (reorderedUpdates remaining slot.insertionIndex moved)
    return toTaskDetailDto { task with
      attachmentCount
      task := { task.task with columnId := targetColumnId, position, updatedAt := given.now } }
  else do
    let given ← Service.fresh
    let updated ← query (including
      (.update (scopedTask workspaceId task.task.id) fun row =>
        { row with
          columnId := targetColumnId
          position := midpoint prevPos nextPos
          updatedAt := given.now }) taskDetailInclude)
    return toTaskDetailDto { updated with attachmentCount }

def move (workspaceId taskId userId : Id) (dto : MoveTaskDto) : Service TaskDto := do
  let result ← transaction do
    let task ← found (findTaskDetail workspaceId taskId) (.notFound "Task not found")
    require (dto.beforeTaskId ≠ some taskId ∧ dto.afterTaskId ≠ some taskId)
      (.badRequest "A task cannot be its own neighbor")
    let targetColumn ← found (.findFirst (scopedColumn workspaceId dto.columnId))
      (.notFound "Column not found")
    require (targetColumn.boardId = task.task.boardId)
      (.unprocessable "Cannot move a task to a column on another board")
    let fromColumnId := task.task.columnId
    let fromColumnName ← fromColumnName fromColumnId targetColumn
    query (.lockForUpdate (.column targetColumn.id))
    let siblings ← query (.read (taskPositions.siblings targetColumn.id))
    let remaining := siblings.filter fun item => item.id ≠ taskId
    let slot ← ofExcept (resolveMoveNeighbors remaining dto.beforeTaskId dto.afterTaskId)
    let attachmentCount ← countAttachments taskId
    let result ← place workspaceId task targetColumn.id remaining slot attachmentCount
    let _ ← ActivityService.record {
      workspaceId
      taskId := some taskId
      userId
      type := .TaskMoved
      payload := [("title", .scalar (.text task.task.title)),
        ("fromColumnId", .scalar (.text fromColumnId)),
        ("fromColumnName", .scalar (.text fromColumnName)),
        ("toColumnId", .scalar (.text targetColumn.id)),
        ("toColumnName", .scalar (.text targetColumn.name)),
        ("toColumnCategory", .scalar (.text targetColumn.category.text))] }
    return result
  Service.emit (.emitToBoard result.boardId
    (.TASK_MOVED workspaceId result.boardId userId result.id result.columnId result.position))
  return result

end TaskService
end Kurul
