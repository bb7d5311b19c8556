import Kurul.Position

/-! The column service: the default columns of a board, and creating, seeding,
editing, removing and moving columns. All but edits and removals lock the board
before they read its columns. -/
namespace Kurul

open Store Prog

/-- `Accept-Language` only counts where the user has no supported language stored;
`negotiated` is the language it asks for. -/
def LocaleService.resolve (userId : Id) (negotiated : Option Locale) : Service Locale := do
  let stored ← (query (.read fun rows =>
    matchLocale (((table rows : List User).find? (·.id = userId)).bind User.locale))).catching
      fun _ => Prog.pure none
  return (stored.or negotiated).getD DEFAULT_LOCALE

structure DefaultColumn where
  name : String
  position : ℚ
  category : ColumnCategory
  deriving DecidableEq

/-- The columns of the Kanban template. -/
def defaultColumnsFor : Locale → List DefaultColumn
  | .en => [⟨"To Do", 1000, .UNSTARTED⟩, ⟨"In Progress", 2000, .STARTED⟩, ⟨"Done", 3000, .COMPLETED⟩]
  | .tr => [⟨"Yapılacak", 1000, .UNSTARTED⟩, ⟨"Devam Ediyor", 2000, .STARTED⟩,
      ⟨"Bitti", 3000, .COMPLETED⟩]

structure ColumnDto where
  id : Id
  boardId : Id
  name : String
  position : ℚ
  color : Option String
  category : ColumnCategory
  taskCount : Nat
  deriving DecidableEq

structure CreateColumnDto where
  name : String
  afterColumnId : Option Id := none
  color : Option String := none
  category : Option ColumnCategory := none

/-- An outer `none` is an absent field, an inner one an explicit null. -/
structure UpdateColumnDto where
  name : Option String := none
  color : Option (Option String) := none
  category : Option ColumnCategory := none

structure MoveColumnDto where
  beforeColumnId : Option Id := none
  afterColumnId : Option Id := none

namespace ColumnService

/-- The row with its `_count` of tasks. -/
def toDto (rows : List Row) (column : Column) : ColumnDto where
  id := column.id
  boardId := column.boardId
  name := column.name
  position := column.position
  color := column.color
  category := column.category
  taskCount := (table rows : List Task).countP (·.columnId = column.id)

/-- A board's columns by position, then by id. -/
def columnsOf (boardId : Id) (rows : List Row) : List Column :=
  ((table rows : List Column).filter (·.boardId = boardId)).insertionSort fun a b =>
    Sibling.before ⟨a.id, a.position⟩ ⟨b.id, b.position⟩

def emitChanged (workspaceId actorId boardId columnId : Id) : Service Unit :=
  Service.emit (.emitToBoard boardId (.COLUMN_CHANGED workspaceId boardId actorId columnId))

def list (workspaceId boardId : Id) : Service (List ColumnDto) := do
  let _ ← assertBoard workspaceId boardId
  query (.read fun rows => (columnsOf boardId rows).map (toDto rows))

def create (workspaceId boardId actorId : Id) (dto : CreateColumnDto) : Service ColumnDto := do
  let _ ← assertBoard workspaceId boardId
  let created ← transaction do
    query (.lockForUpdate (.board boardId))
    let columns ← query (.read (columnPositions.siblings boardId))
    let slot ← ofExcept (resolveCreateNeighbors columns dto.afterColumnId "Column not found")
    let position ← columnPositions.createPosition boardId columns slot
    let given ← Service.fresh
    query (including (.create {
      id := given.id
      boardId
      name := dto.name
      position
      color := dto.color
      category := dto.category.getD .UNSTARTED }) toDto)
  let _ ← transaction (ActivityService.record {
    workspaceId
    userId := actorId
    type := .ColumnCreated
    payload := [("columnId", .scalar (.text created.id)), ("boardId", .scalar (.text created.boardId)),
      ("name", .scalar (.text created.name)), ("category", .scalar (.text created.category.text))] })
  emitChanged workspaceId actorId created.boardId created.id
  return created

/-- The row a default column is stored as, under a new id. -/
def seed (boardId : Id) (column : DefaultColumn) : Service Column := do
  let given ← Service.fresh
  return {
    id := given.id
    boardId
    name := column.name
    position := column.position
    category := column.category }

def recordSeeded (workspaceId boardId actorId : Id) (column : Column) : Service Unit := do
  let _ ← ActivityService.record {
    workspaceId
    userId := actorId
    type := .ColumnCreated
    payload := [("columnId", .scalar (.text column.id)), ("boardId", .scalar (.text boardId)),
      ("name", .scalar (.text column.name)), ("category", .scalar (.text column.category.text)),
      ("seeded", .scalar (.bool true))] }

def createDefaults (workspaceId boardId actorId : Id) (negotiated : Option Locale) :
    Service (List ColumnDto) := do
  let _ ← assertBoard workspaceId boardId
  let locale ← LocaleService.resolve actorId negotiated
  let created ← transaction do
    query (.lockForUpdate (.board boardId))
    let existing ← query (.count fun _ (column : Column) => column.boardId = boardId)
    require (existing = 0) (.conflict "Board already has columns")
    let data ← collect (defaultColumnsFor locale) (seed boardId)
    let _ ← query (.createMany data)
    let rows ← query (.read fun rows =>
      (columnsOf boardId rows).map fun column => (column, toDto rows column))
    forEach (rows.map Prod.fst) (recordSeeded workspaceId boardId actorId)
    return rows
  forEach (created.map Prod.fst) fun column => emitChanged workspaceId actorId boardId column.id
  return created.map Prod.snd

def update (workspaceId columnId actorId : Id) (dto : UpdateColumnDto) : Service ColumnDto := do
  let (_, dtoOut) ← transaction do
    let before ← found (.findFirst (scopedColumn workspaceId columnId)) (.notFound "Column not found")
    let updated ← query (including (.update (scopedColumn workspaceId columnId) fun column =>
      { column with
        name := dto.name.getD column.name
        color := dto.color.getD column.color
        category := dto.category.getD column.category }) fun rows column => (column, toDto rows column))
    let after := updated.1
    let _ ← ActivityService.record {
      workspaceId
      userId := actorId
      type := .ColumnUpdated
      payload := [("columnId", .scalar (.text columnId)), ("boardId", .scalar (.text after.boardId)),
        ("name", .scalar (.text after.name)),
        ("changes", .changes (fieldChanges [
          ("name", .text before.name, .text after.name),
          ("color", Json.ofOption .text before.color, Json.ofOption .text after.color),
          ("category", .text before.category.text, .text after.category.text)]))] }
    return updated
  emitChanged workspaceId actorId dtoOut.boardId dtoOut.id
  return dtoOut

def remove (workspaceId columnId actorId : Id) : Service Unit := do
  let column ← transaction do
    let row ← found (.findFirst (scopedColumn workspaceId columnId)) (.notFound "Column not found")
    let taskCount ← query (.count fun _ (task : Task) => task.columnId = columnId)
    require (taskCount = 0) (.conflict "Column has tasks; move or delete them first")
    let _ ← ActivityService.record {
      workspaceId
      userId := actorId
      type := .ColumnDeleted
      payload := [("columnId", .scalar (.text columnId)), ("boardId", .scalar (.text row.boardId)),
        ("name", .scalar (.text row.name)), ("category", .scalar (.text row.category.text))] }
    let count ← query (.deleteMany (scopedColumn workspaceId columnId))
    require (count ≠ 0) (.notFound "Column not found")
    return row
  emitChanged workspaceId actorId column.boardId column.id

/-- Writes the moved column, and its siblings where they have to be moved apart. -/
def place (workspaceId : Id) (column : Column) (remaining : List Sibling) (slot : InsertionSlot) :
    Service ColumnDto :=
  let prevPos := slot.prev.map Sibling.position
  let nextPos := slot.next.map Sibling.position
  if needsRebalance prevPos nextPos then do
    let moved : Sibling := { id := column.id, position := column.position }
    let positions := rebalancePositions (remaining.length + 1)
    let _ ← query (.update (scopedColumn workspaceId column.id) fun row =>
      { row with position := positions.getD slot.insertionIndex 0 })
    batchUpdateColumnPositions column.boardId (reorderedUpdates remaining slot.insertionIndex moved)
    found (.read fun rows =>
      ((table rows).find? (scopedColumn workspaceId column.id rows)).map (toDto rows))
      (.database .recordNotFound)
  else
    query (including (.update (scopedColumn workspaceId column.id) fun row =>
      { row with position := midpoint prevPos nextPos }) toDto)

def move (workspaceId columnId actorId : Id) (dto : MoveColumnDto) : Service ColumnDto := do
  let moved ← transaction do
    let column ← found (.findFirst (scopedColumn workspaceId columnId)) (.notFound "Column not found")
    require (dto.beforeColumnId ≠ some columnId ∧ dto.afterColumnId ≠ some columnId)
      (.badRequest "A column cannot be its own neighbor")
    query (.lockForUpdate (.board column.boardId))
    let columns ← query (.read (columnPositions.siblings column.boardId))
    let remaining := columns.filter fun item => item.id ≠ columnId
    let slot ← ofExcept (resolveMoveNeighbors remaining dto.beforeColumnId dto.afterColumnId)
    place workspaceId column remaining slot
  emitChanged workspaceId actorId moved.boardId moved.id
  return moved

end ColumnService
end Kurul
