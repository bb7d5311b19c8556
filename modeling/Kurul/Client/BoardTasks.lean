import Kurul.Task.Read

/-! The task list a board shows, and the ways its reads, writes and events change it. -/
namespace Kurul.Client

def onBoard (tasks : List TaskDto) (taskId : Id) : Bool := tasks.any (·.id = taskId)

def taskIds (tasks : List TaskDto) : List Id := tasks.map TaskDto.id

/-- The fields of a task that a panel write may show before its answer, or put back. -/
structure TaskFields where
  title : Option String := none
  description : Option (Option String) := none
  priority : Option Priority := none
  dueDate : Option (Option DateTime) := none
  estimatedMinutes : Option (Option Int) := none
  attachmentCount : Option Nat := none
  checklistSummary : Option ChecklistSummaryDto := none
  checklists : Option (Option (List ChecklistDto)) := none
  deriving DecidableEq

/-- `isWholeTask` tells the two apart. -/
inductive TaskPatch where
  | whole (task : TaskDto)
  | fields (id : Id) (fields : TaskFields)
  deriving DecidableEq

def TaskPatch.id : TaskPatch → Id
  | .whole task => task.id
  | .fields id _ => id

/-- `{ ...current, ...patch }`. -/
def TaskPatch.merge (current : TaskDto) : TaskPatch → TaskDto
  | .whole task => task
  | .fields id shown => { current with
      id
      title := shown.title.getD current.title
      description := shown.description.getD current.description
      priority := shown.priority.getD current.priority
      dueDate := shown.dueDate.getD current.dueDate
      estimatedMinutes := shown.estimatedMinutes.getD current.estimatedMinutes
      attachmentCount := shown.attachmentCount.getD current.attachmentCount
      checklistSummary := shown.checklistSummary.getD current.checklistSummary
      checklists := shown.checklists.getD current.checklists }

/-- The refetched task takes the place of the one the board holds. -/
def upsertTask (taskId : Id) (remote : TaskDto) (current : List TaskDto) : List TaskDto :=
  match current.findIdx? (·.id = taskId) with
  | none => current ++ [remote]
  | some index => current.set index remote

/-- The first page replaces the board, a later one adds the tasks it brings. -/
def paintPage (index : Nat) (items current : List TaskDto) : List TaskDto :=
  if index = 0 then items
  else current ++ items.filter fun task => !onBoard current task.id

def appendTask (task : TaskDto) (current : List TaskDto) : List TaskDto := current ++ [task]

/-- The deep-linked task, folded in unless it has come some other way. -/
def foldPanelTask (task : TaskDto) (current : List TaskDto) : List TaskDto :=
  if onBoard current task.id then current else current ++ [task]

/-- The list after a patch, and whether the board is read again for it. -/
def applyTaskPatch (tasksRef : List TaskDto) (patch : TaskPatch) (current : List TaskDto) : List TaskDto × Bool :=
  if onBoard tasksRef patch.id then
    match current.findIdx? (·.id = patch.id) with
    | none => (current, false)
    | some index => (current.modify index fun task => patch.merge task, false)
  else match patch with
    | .whole task => (if onBoard current task.id then current else current ++ [task], false)
    | .fields _ _ => (current, true)

def moveTask (taskId columnId : Id) (position : ℚ) (current : List TaskDto) : List TaskDto :=
  current.map fun task => if task.id = taskId then { task with columnId, position } else task

def removeTask (taskId : Id) (current : List TaskDto) : List TaskDto :=
  current.filter fun task => task.id ≠ taskId

section Lists

variable {tasks items tasksRef : List TaskDto} {task remote : TaskDto} {taskId : Id}

@[simp] theorem onBoard_iff : onBoard tasks taskId = true ↔ taskId ∈ taskIds tasks := by
  simp [onBoard, taskIds]

theorem onBoard_eq_false : onBoard tasks taskId = false ↔ taskId ∉ taskIds tasks := by
  rw [← onBoard_iff, Bool.not_eq_true]

@[simp] theorem taskIds_append : taskIds (tasks ++ items) = taskIds tasks ++ taskIds items := List.map_append

@[simp] theorem taskIds_singleton : taskIds [task] = [task.id] := rfl

theorem taskIds_appendTask : taskIds (appendTask task tasks) = taskIds tasks ++ [task.id] := taskIds_append

theorem TaskPatch.merge_id {patch : TaskPatch} : (patch.merge task).id = patch.id := by
  cases patch <;> rfl

/-- A task put in the place of one of the same id. -/
theorem taskIds_set {index : Nat} (here : tasks.findIdx? (·.id = remote.id) = some index) :
    taskIds (tasks.set index remote) = taskIds tasks := by
  obtain ⟨inside, same, _⟩ := List.findIdx?_eq_some_iff_getElem.mp here
  have bound : index < (taskIds tasks).length := by simpa [taskIds] using inside
  have kept : (taskIds tasks)[index] = remote.id := by simpa [taskIds] using of_decide_eq_true same
  rw [taskIds, List.map_set, ← kept]
  exact List.set_getElem_self _

theorem taskIds_modify {patch : TaskPatch} {index : Nat} (here : tasks.findIdx? (·.id = patch.id) = some index) :
    taskIds (tasks.modify index fun task => patch.merge task) = taskIds tasks := by
  obtain ⟨inside, same, _⟩ := List.findIdx?_eq_some_iff_getElem.mp here
  apply List.ext_getElem
  · simp [taskIds]
  · intro i left right
    simp only [taskIds, List.getElem_map, List.getElem_modify]
    split
    · rename_i at_
      subst at_
      rw [TaskPatch.merge_id]
      exact (of_decide_eq_true same).symm
    · rfl

theorem findIdx?_eq_none : tasks.findIdx? (·.id = taskId) = none ↔ taskId ∉ taskIds tasks := by
  simp [List.findIdx?_eq_none_iff, taskIds]

theorem taskIds_upsertTask (own : remote.id = taskId) :
    taskIds (upsertTask taskId remote tasks) =
      if taskId ∈ taskIds tasks then taskIds tasks else taskIds tasks ++ [taskId] := by
  subst own
  unfold upsertTask
  split
  · rename_i absent
    simp [findIdx?_eq_none.mp absent]
  · rename_i index here
    have present : remote.id ∈ taskIds tasks := by
      by_contra absent
      rw [findIdx?_eq_none.mpr absent] at here
      cases here
    rw [if_pos present, taskIds_set here]

theorem taskIds_foldPanelTask :
    taskIds (foldPanelTask task tasks) =
      if task.id ∈ taskIds tasks then taskIds tasks else taskIds tasks ++ [task.id] := by
  unfold foldPanelTask
  by_cases present : task.id ∈ taskIds tasks <;> simp [present]

theorem taskIds_applyTaskPatch (tasksRef : List TaskDto) (patch : TaskPatch) (tasks : List TaskDto) :
    taskIds (applyTaskPatch tasksRef patch tasks).1 = taskIds tasks ∨
      ∃ task, patch = .whole task ∧ task.id ∉ taskIds tasks ∧
        taskIds (applyTaskPatch tasksRef patch tasks).1 = taskIds tasks ++ [task.id] := by
  unfold applyTaskPatch
  split
  · split
    · exact .inl rfl
    · rename_i index here
      exact .inl (taskIds_modify here)
  · cases patch with
    | whole task =>
        by_cases present : task.id ∈ taskIds tasks
        · left
          simp [present]
        · right
          exact ⟨task, rfl, present, by simp [present]⟩
    | fields id fields => exact .inl rfl

@[simp] theorem taskIds_moveTask {columnId : Id} {position : ℚ} :
    taskIds (moveTask taskId columnId position tasks) = taskIds tasks := by
  simp only [taskIds, moveTask, List.map_map]
  apply List.map_congr_left
  intro task _
  simp only [Function.comp]
  split <;> rfl

theorem taskIds_removeTask : taskIds (removeTask taskId tasks) = (taskIds tasks).filter (· ≠ taskId) := by
  simp only [taskIds, removeTask, List.filter_map]
  rfl

theorem nodup_paintPage {index : Nat} (page : (taskIds items).Nodup) (board : (taskIds tasks).Nodup) :
    (taskIds (paintPage index items tasks)).Nodup := by
  unfold paintPage
  split
  · exact page
  · rw [taskIds_append]
    apply List.Nodup.append board
    · exact page.sublist (List.filter_sublist.map _)
    · intro id held brought
      obtain ⟨task, new, rfl⟩ := List.mem_map.mp brought
      have absent := (List.mem_filter.mp new).2
      rw [Bool.not_eq_true', onBoard_eq_false] at absent
      exact absent held

theorem mem_paintPage {index : Nat} (member : taskId ∈ taskIds (paintPage index items tasks)) :
    taskId ∈ taskIds items ∨ taskId ∈ taskIds tasks := by
  unfold paintPage at member
  split at member
  · exact .inl member
  · rw [taskIds_append] at member
    rcases List.mem_append.mp member with held | brought
    · exact .inr held
    · exact .inl ((List.filter_sublist.map _).subset brought)

end Lists
end Kurul.Client
