import Kurul.Task.Read

/-! The checklists of a task and the items of a checklist: creating, removing and
moving. A create appends under the lock of its parent; a move takes the midpoint of the
gap it read before, outside any transaction, and never spreads its siblings. -/
namespace Kurul

open Store Prog

structure CreateChecklistDto where
  title : String

structure UpdateChecklistDto where
  title : String

structure UpdateChecklistItemDto where
  content : Option String := none
  isDone : Option Bool := none

structure MoveChecklistDto where
  afterId : Option Id := none

structure CreateChecklistItemDto where
  content : String

structure MoveChecklistItemDto where
  afterId : Option Id := none

/-- Checklists stand in order within their task. -/
def checklistPositions : Positioning Checklist where
  group := Checklist.taskId
  id := Checklist.id
  position := Checklist.position
  reposition position checklist := { checklist with position }
  entryKey := .checklist
  lock := .task
  key_toRow _ := rfl
  exists_toRow {row} _ same := by
    cases row with
    | checklist checklist => exact ⟨checklist, rfl⟩
    | _ => simp [key, Row.key] at same
  entryKey_injective _ _ same := by simpa using same
  lock_ne _ _ := by simp
  group_reposition _ _ := rfl
  id_reposition _ _ := rfl
  position_reposition _ _ := rfl

/-- Items stand in order within their checklist. -/
def checklistItemPositions : Positioning ChecklistItem where
  group := ChecklistItem.checklistId
  id := ChecklistItem.id
  position := ChecklistItem.position
  reposition position item := { item with position }
  entryKey := .checklistItem
  lock := .checklist
  key_toRow _ := rfl
  exists_toRow {row} _ same := by
    cases row with
    | checklistItem item => exact ⟨item, rfl⟩
    | _ => simp [key, Row.key] at same
  entryKey_injective _ _ same := by simpa using same
  lock_ne _ _ := by simp
  group_reposition _ _ := rfl
  id_reposition _ _ := rfl
  position_reposition _ _ := rfl

namespace Positioning

variable [Entity Row α] (P : Positioning α)

/-- `orderBy: { position: 'asc' }`, two columns of each row. -/
def listed (groupId : Id) (rows : List Row) : List Sibling :=
  (orderBy P.position ((table rows).filter (P.group · = groupId))).map fun a =>
    { id := P.id a, position := P.position a }

/-- `orderBy: { position: 'desc' }, take: 1`. -/
def lastListed (groupId : Id) (rows : List Row) : List Sibling :=
  (P.listed groupId rows).reverse.take 1

end Positioning

/-- The position of a row that is appended. -/
def appendedPosition (last : List Sibling) : ℚ :=
  (last[0]?.map Sibling.position).getD 0 + POSITION_GAP

/-- The slot of a row being moved: after `afterId`, or before all others. -/
def resolveAfter (others : List Sibling) (afterId : Option Id) (notFoundMessage : String) :
    Except Error InsertionSlot :=
  let afterIndex := if truthy afterId then others.findIdx? (some ·.id = afterId) else none
  if truthy afterId && afterIndex.isNone then
    .error (.notFound notFoundMessage)
  else
    .ok (sliceSlot others (match afterIndex with | some after => after + 1 | none => 0))

def InsertionSlot.midpoint (slot : InsertionSlot) : ℚ :=
  Kurul.midpoint (slot.prev.map Sibling.position) (slot.next.map Sibling.position)

/-- The path from a checklist to its tenant. -/
def scopedChecklist (workspaceId taskId checklistId : Id) : Where Row Checklist :=
  fun rows checklist => checklist.id = checklistId && checklist.taskId = taskId &&
    taskInWorkspace workspaceId rows checklist.taskId

def scopedChecklistItem (workspaceId taskId itemId : Id) : Where Row ChecklistItem :=
  fun rows item => item.id = itemId && (table rows : List Checklist).any fun checklist =>
    checklist.id = item.checklistId && checklist.taskId = taskId &&
      taskInWorkspace workspaceId rows checklist.taskId

namespace ChecklistService

def create (workspaceId taskId actorId : Id) (dto : CreateChecklistDto) : Service TaskDto := do
  let task ← TaskReadService.findTaskBasic workspaceId taskId
  transaction do
    query (.lockForUpdate (.task task.id))
    let siblings ← query (.read (checklistPositions.lastListed task.id))
    let given ← Service.fresh
    let _ ← query (.create {
      id := given.id
      taskId := task.id
      title := dto.title
      position := appendedPosition siblings : Checklist })
  TaskEventsService.emitUpdated workspaceId taskId actorId

def update (workspaceId taskId actorId checklistId : Id) (dto : UpdateChecklistDto) : Service TaskDto := do
  let _ ← TaskReadService.findTaskBasic workspaceId taskId
  let count ← transaction (query (.updateMany (scopedChecklist workspaceId taskId checklistId) fun checklist =>
    { checklist with title := dto.title }))
  require (count ≠ 0) (.notFound "Checklist not found")
  TaskEventsService.emitUpdated workspaceId taskId actorId

def remove (workspaceId taskId actorId checklistId : Id) : Service TaskDto := do
  let _ ← TaskReadService.findTaskBasic workspaceId taskId
  let count ← transaction (query (.deleteMany (scopedChecklist workspaceId taskId checklistId)))
  require (count ≠ 0) (.notFound "Checklist not found")
  TaskEventsService.emitUpdated workspaceId taskId actorId

def move (workspaceId taskId actorId checklistId : Id) (dto : MoveChecklistDto) :
    Service TaskDto := do
  let _ ← TaskReadService.findTaskBasic workspaceId taskId
  let siblings ← query (.read (checklistPositions.listed taskId))
  require (siblings.any (·.id = checklistId)) (.notFound "Checklist not found")
  let others := siblings.filter (·.id ≠ checklistId)
  let slot ← ofExcept (resolveAfter others dto.afterId "Checklist not found")
  let _ ← transaction (query (.update (fun _ (checklist : Checklist) => checklist.id = checklistId)
    (checklistPositions.reposition slot.midpoint)))
  TaskEventsService.emitUpdated workspaceId taskId actorId

end ChecklistService

namespace ChecklistItemService

def create (workspaceId taskId actorId checklistId : Id) (dto : CreateChecklistItemDto) :
    Service TaskDto := do
  let _ ← TaskReadService.findTaskBasic workspaceId taskId
  let _ ← found (.findFirst (scopedChecklist workspaceId taskId checklistId))
    (.notFound "Checklist not found")
  transaction do
    query (.lockForUpdate (.checklist checklistId))
    let last ← query (.read (checklistItemPositions.lastListed checklistId))
    let given ← Service.fresh
    let _ ← query (.create {
      id := given.id
      checklistId
      content := dto.content
      position := appendedPosition last : ChecklistItem })
  TaskEventsService.emitUpdated workspaceId taskId actorId

/-- Without a field to write, the item is only looked up and nothing is announced. -/
def update (workspaceId taskId actorId itemId : Id) (dto : UpdateChecklistItemDto) : Service TaskDto := do
  let _ ← TaskReadService.findTaskBasic workspaceId taskId
  if dto.content = none ∧ dto.isDone = none then do
    let _ ← found (.findFirst (scopedChecklistItem workspaceId taskId itemId)) (.notFound "Checklist item not found")
    let row ← TaskReadService.findTask workspaceId taskId
    return toTaskDetailDto row
  else do
    let count ← transaction (query (.updateMany (scopedChecklistItem workspaceId taskId itemId) fun item =>
      { item with content := dto.content.getD item.content, isDone := dto.isDone.getD item.isDone }))
    require (count ≠ 0) (.notFound "Checklist item not found")
    TaskEventsService.emitUpdated workspaceId taskId actorId

def remove (workspaceId taskId actorId itemId : Id) : Service TaskDto := do
  let _ ← TaskReadService.findTaskBasic workspaceId taskId
  let count ← transaction (query (.deleteMany (scopedChecklistItem workspaceId taskId itemId)))
  require (count ≠ 0) (.notFound "Checklist item not found")
  TaskEventsService.emitUpdated workspaceId taskId actorId

def move (workspaceId taskId actorId itemId : Id) (dto : MoveChecklistItemDto) :
    Service TaskDto := do
  let _ ← TaskReadService.findTaskBasic workspaceId taskId
  let owner ← found (.findFirst (scopedChecklistItem workspaceId taskId itemId))
    (.notFound "Checklist item not found")
  let siblings ← query (.read (checklistItemPositions.listed owner.checklistId))
  let others := siblings.filter (·.id ≠ itemId)
  let slot ← ofExcept (resolveAfter others dto.afterId "Checklist item not found")
  let _ ← transaction (query (.update (fun _ (item : ChecklistItem) => item.id = itemId)
    (checklistItemPositions.reposition slot.midpoint)))
  TaskEventsService.emitUpdated workspaceId taskId actorId

end ChecklistItemService

section Slots

theorem resolveAfter_slot {others : List Sibling} {afterId : Option Id} {notFoundMessage : String}
    {slot : InsertionSlot} (resolved : resolveAfter others afterId notFoundMessage = .ok slot) :
    ∃ k ≤ others.length, slot = sliceSlot others k := by
  simp only [resolveAfter] at resolved
  generalize found : (if truthy afterId then others.findIdx? (some ·.id = afterId) else none) =
    afterIndex at resolved
  split at resolved
  · contradiction
  · cases resolved
    refine ⟨_, ?_, rfl⟩
    cases afterIndex with
    | none => exact Nat.zero_le _
    | some after =>
        split at found
        · exact (List.findIdx?_eq_some_iff_getElem.mp found).1
        · contradiction

/-- An appended row goes into the slot after the last one. -/
theorem appendedPosition_slot (siblings : List Sibling) :
    appendedPosition (siblings.reverse.take 1) = (sliceSlot siblings siblings.length).midpoint := by
  cases last : siblings.getLast? with
  | none =>
      obtain rfl := List.getLast?_eq_none_iff.mp last
      simp [appendedPosition, InsertionSlot.midpoint, sliceSlot, midpoint]
  | some sibling =>
      obtain ⟨rest, rfl⟩ := List.getLast?_eq_some_iff.mp last
      simp [appendedPosition, InsertionSlot.midpoint, sliceSlot, midpoint]

end Slots

namespace Positioning

variable [Entity Row α] {P : Positioning α} {g : Id} {rows : List Row}

theorem mem_listed {sibling : Sibling} : sibling ∈ P.listed g rows ↔
    ∃ a ∈ (table rows : List α), P.group a = g ∧ P.id a = sibling.id ∧
      P.position a = sibling.position := by
  simp only [listed, orderBy, List.mem_map, (List.perm_insertionSort _ _).mem_iff, List.mem_filter,
    decide_eq_true_eq]
  constructor
  · rintro ⟨a, ⟨member, here⟩, rfl⟩
    exact ⟨a, member, here, rfl, rfl⟩
  · rintro ⟨a, member, here, same, stands⟩
    exact ⟨a, ⟨member, here⟩, by rw [same, stands]⟩

end Positioning

end Kurul
