import Kurul.Client.BoardClient

/-! No task twice on a board. Every writer of the task list looks for the task first, save
the one that appends a created task. -/
namespace Kurul.Client

/-- A refetch answers with the task it asks for, and a page holds a task once. -/
def Fits : Request → Answer → Prop
  | .upsert taskId, .task task => task.id = taskId
  | _, .page page => (taskIds page.items).Nodup
  | _, _ => True

namespace BoardClient

/-- The task list names no task twice. -/
def Once (s : BoardClient) : Prop := (taskIds s.tasks).Nodup

structure Sound (s : BoardClient) : Prop where
  rows : (taskIds s.rows).Nodup
  issued : ∀ task ∈ s.rows, task.id ∈ s.issued
  answers : s.EveryAnswer fun request _ answer => Fits request answer

/-- A created task is appended only where it has not come some other way. -/
def AppendsNew (s : BoardClient) (move : Move) : Prop :=
  ∀ slot flight task, move = .complete slot → s.requests slot = some flight → flight.request = .create →
    flight.answer = some (.task task) → onBoard s.tasks task.id = false

variable {s next : BoardClient} {move : Move}

theorem Start.sound (start : s.Start) : s.Sound :=
  ⟨start.rows, start.issued, fun slot _ _ held => by rw [start.requests slot] at held; cases held⟩

theorem Start.once (start : s.Start) : s.Once := by
  rw [Once, start.tasks]
  exact List.nodup_nil

theorem taskIds_replace {rows : List TaskDto} (task : TaskDto) :
    taskIds (rows.map fun row => if row.id = task.id then task else row) = taskIds rows := by
  simp only [taskIds, List.map_map]
  apply List.map_congr_left
  intro row _
  simp only [Function.comp]
  split
  · rename_i same
    exact same.symm
  · rfl

/-- A write on the server keeps the ids apart and on record. -/
theorem commit_rows {change : ServerChange} (rows : (taskIds s.rows).Nodup)
    (issued : ∀ task ∈ s.rows, task.id ∈ s.issued) (committed : s.commit change = some next) :
    (taskIds next.rows).Nodup ∧ ∀ task ∈ next.rows, task.id ∈ next.issued := by
  have replaced : ∀ task : TaskDto, task.id ∈ taskIds s.rows → ∀ row ∈ s.rows.map fun row =>
      if row.id = task.id then task else row, row.id ∈ s.issued := by
    intro task _ row member
    have listed : row.id ∈ taskIds s.rows := taskIds_replace task ▸ List.mem_map_of_mem member
    obtain ⟨old, stored, same⟩ := List.mem_map.mp listed
    exact same ▸ issued old stored
  cases change with
  | create task =>
      simp only [commit] at committed
      split at committed
      · cases committed
      · rename_i new
        cases committed
        constructor
        · rw [taskIds_append, taskIds_singleton]
          apply List.Nodup.append rows (List.nodup_singleton _)
          rintro id listed same
          cases List.mem_singleton.mp same
          obtain ⟨old, stored, same⟩ := List.mem_map.mp listed
          exact new (same ▸ issued old stored)
        · intro row member
          rcases List.mem_append.mp member with old | rfl'
          · exact List.mem_cons_of_mem _ (issued row old)
          · cases List.mem_singleton.mp rfl'
            exact List.mem_cons_self
  | update task =>
      simp only [commit] at committed
      split at committed
      · rename_i stored
        cases committed
        exact ⟨(taskIds_replace task).symm ▸ rows, replaced task (onBoard_iff.mp stored)⟩
      · cases committed
  | move task actorId =>
      simp only [commit] at committed
      split at committed
      · rename_i stored
        cases committed
        exact ⟨(taskIds_replace task).symm ▸ rows, replaced task (onBoard_iff.mp stored)⟩
      · cases committed
  | delete taskId =>
      simp only [commit] at committed
      split at committed
      · cases committed
        exact ⟨taskIds_removeTask ▸ rows.filter _, fun task member => issued task (List.mem_filter.mp member).1⟩
      · cases committed

/-- A page holds tasks of the board, each once. -/
theorem taskIds_boardPage (rows : List TaskDto) (drain : Drain) :
    ∃ few : List TaskDto, taskIds (boardPage rows drain).items = taskIds few ∧ (∀ task ∈ few, task ∈ rows) ∧
      ((taskIds rows).Nodup → (taskIds few).Nodup) := by
  let chosen := Sequence.page TaskDto.id (BOARD_TASK_PAGE_LIMIT + 1) drain.cursor (rows.filter drain.filters)
  have inside : ∀ task ∈ chosen, task ∈ rows := by
    intro task member
    have sorted := Sequence.mem_sorted.mp (List.mem_of_mem_take member)
    exact (List.mem_filter.mp (List.mem_filter.mp sorted).1).1
  have once : (taskIds rows).Nodup → (taskIds chosen).Nodup := by
    intro distinct
    have filtered := distinct.sublist ((List.filter_sublist (p := drain.filters) (l := rows)).map TaskDto.id)
    have behind := filtered.sublist
      ((List.filter_sublist (p := Sequence.behind TaskDto.id drain.cursor)).map TaskDto.id)
    have perm : (Sequence.sorted TaskDto.id
        ((rows.filter drain.filters).filter (Sequence.behind TaskDto.id drain.cursor))).Perm _ :=
      Sequence.sorted_perm _
    have sorted := (perm.map TaskDto.id).nodup_iff.mpr behind
    exact sorted.sublist ((List.take_sublist _ _).map _)
  refine ⟨if chosen.length > BOARD_TASK_PAGE_LIMIT then chosen.take BOARD_TASK_PAGE_LIMIT else chosen, ?_, ?_, ?_⟩
  · simp only [boardPage, toCursorPage, taskIds, List.map_map, decide_eq_true_eq]
    rfl
  · intro task member
    split at member
    · exact inside task (List.mem_of_mem_take member)
    · exact inside task member
  · intro distinct
    split
    · exact (once distinct).sublist ((List.take_sublist _ _).map _)
    · exact once distinct

/-- A read of one task finds it or not. -/
theorem readTask_cases (taskId : Id) :
    (∃ task, s.readTask taskId = .task task ∧ task ∈ s.rows ∧ task.id = taskId) ∨
      s.readTask taskId = .refused := by
  unfold readTask
  split
  · rename_i task found
    left
    exact ⟨task, rfl, List.mem_of_find?_eq_some found, by simpa using List.find?_some found⟩
  · exact .inr rfl

theorem fits_answerTo {request : Request} {answer : Answer} (rows : (taskIds s.rows).Nodup)
    (given : s.answerTo request = some answer) : Fits request answer := by
  cases request with
  | upsert taskId =>
      cases given
      rcases readTask_cases (s := s) taskId with ⟨task, read, _, own⟩ | read
      · exact read ▸ own
      · exact read ▸ trivial
  | page drain =>
      cases given
      obtain ⟨few, same, _, once⟩ := taskIds_boardPage s.rows drain
      have items : (taskIds (boardPage s.rows drain).items).Nodup := same ▸ once rows
      exact items
  | panelTask taskId | detail taskId | write taskId rollback =>
      cases given
      rcases readTask_cases (s := s) taskId with ⟨task, read, _⟩ | read
      · exact read ▸ trivial
      · exact read ▸ trivial
  | create | remove taskId => cases given

theorem fits_accepts {request : Request} {answer : Answer} {change : ServerChange}
    (accepted : accepts request change = some answer) : Fits request answer := by
  unfold accepts at accepted
  split at accepted
  · cases accepted
    trivial
  · split at accepted <;> cases accepted
    trivial
  · split at accepted <;> cases accepted
    trivial
  · cases accepted

theorem Sound.step (sound : s.Sound) (stepped : s.step move = some next) : next.Sound := by
  have answers : next.EveryAnswer fun request _ answer => Fits request answer := by
    apply sound.answers.step _ _ _ _ stepped
    · exact fun _ _ _ fits => fits
    · exact fun _ _ _ given => fits_answerTo sound.rows given
    · exact fun _ _ _ _ _ accepted _ => fits_accepts accepted
    · rintro (_ | _ | _ | _ | _ | _ | _) _ <;> trivial
  rcases server_step stepped with ⟨rows, issued, _⟩ | ⟨change, written, committed, rows, issued, _⟩
  · exact ⟨rows ▸ sound.rows, by rw [rows, issued]; exact sound.issued, answers⟩
  · have kept := commit_rows sound.rows sound.issued committed
    exact ⟨rows ▸ kept.1, by rw [rows, issued]; exact kept.2, answers⟩

theorem once_append {tasks : List TaskDto} {task : TaskDto} (once : (taskIds tasks).Nodup)
    (new : task.id ∉ taskIds tasks) : (taskIds tasks ++ [task.id]).Nodup := by
  apply List.Nodup.append once (List.nodup_singleton _)
  intro id listed same
  cases List.mem_singleton.mp same
  exact new listed

theorem once_patch {tasks tasksRef : List TaskDto} {patch : TaskPatch} (once : (taskIds tasks).Nodup) :
    (taskIds (applyTaskPatch tasksRef patch tasks).1).Nodup := by
  rcases taskIds_applyTaskPatch tasksRef patch tasks with
    same | ⟨task, _, new, added⟩
  · exact same ▸ once
  · exact added ▸ once_append once new

theorem once_remove {tasks : List TaskDto} {taskId : Id} (once : (taskIds tasks).Nodup) :
    (taskIds (removeTask taskId tasks)).Nodup := by
  rw [taskIds_removeTask]
  exact once.filter _

theorem Once.frame (once : s.Once) (same : next.tasks = s.tasks) : next.Once := by
  rw [Once, same]
  exact once

/-- An answer taken brings no task twice, unless it is a created task the board holds. -/
theorem once_take {slot : Nat} {request : Request} {aborted : Bool} {answer : Answer} (once : s.Once)
    (fits : Fits request answer)
    (appends : request = .create → ∀ task, answer = .task task → task.id ∉ taskIds s.tasks) :
    (s.take slot aborted request answer).Once := by
  unfold take
  split
  case h_1 taskId remote =>
    rw [Once, taskIds_upsertTask fits]
    split
    · exact once
    · rename_i absent
      exact fits ▸ once_append once (fits.symm ▸ absent)
  case h_2 taskId task =>
    split
    · exact once
    · rw [Once, taskIds_foldPanelTask]
      split
      · exact once
      · rename_i absent
        exact once_append once absent
  case h_3 =>
    split
    · exact once
    · exact once_patch once
  case h_4 drain page =>
    split
    · exact once
    · exact nodup_paintPage fits once
  case h_5 task =>
    have new : task.id ∉ taskIds s.tasks := appends rfl task rfl
    have appended : (taskIds (appendTask task s.tasks)).Nodup := by
      rw [taskIds_appendTask]
      exact once_append once new
    exact appended
  case h_6 | h_7 => exact once_patch once
  case h_8 => exact once_remove once
  case h_9 => exact once

theorem once_handle (event : BoardEvent) (once : s.Once) : (s.handle event).Once := by
  cases event with
  | created taskId =>
      unfold handle
      dsimp only
      split <;> exact once
  | updated taskId => exact once
  | moved taskId columnId position actorId =>
      have moved : (taskIds (moveTask taskId columnId position s.tasks)).Nodup := by
        rw [taskIds_moveTask]
        exact once
      unfold handle
      dsimp only
      split <;> exact moved
  | deleted taskId => exact once_remove once

theorem once_step (sound : s.Sound) (once : s.Once) (appends : s.AppendsNew move)
    (stepped : s.step move = some next) : next.Once := by
  rcases board_step stepped with ⟨same, _⟩ | ⟨event, rest, _, _, rfl⟩ |
    ⟨slot, flight, answer, rfl, held, answered, rfl⟩ | ⟨taskId, fields, shown, _⟩
  · exact once.frame same
  · exact once_handle (s := { s with events := rest }) event once
  · apply once_take once (sound.answers slot flight answer held answered)
    rintro created task rfl
    exact onBoard_eq_false.mp (appends slot flight task rfl held created answered)
  · rw [Once, shown]
    exact once_patch once

/-- Where a step leaves the list without a repeat, it appended no task that was there. -/
theorem appendsNew_of_once (stepped : s.step move = some next) (once : next.Once) : s.AppendsNew move := by
  rintro slot flight task rfl held created answered
  simp only [BoardClient.step, held, answered, created, Option.bind_eq_bind, Option.bind_some] at stepped
  cases stepped
  rw [onBoard_eq_false]
  intro listed
  have twice : (taskIds (appendTask task s.tasks)).Nodup := once
  rw [taskIds_appendTask] at twice
  exact (List.nodup_append.mp twice).2.2 _ listed _ (List.mem_singleton_self _) rfl

end BoardClient

/-- A run keeps every task on the board once exactly if each created task that is appended
had not come before its answer. -/
theorem tasks_once_iff {s t : BoardClient} (start : s.Start) {moves : List Move}
    (ran : Machine.run BoardClient.step s moves = some t) :
    Machine.Always BoardClient.step BoardClient.Once s moves ↔
      Machine.Meets BoardClient.step BoardClient.AppendsNew s moves := by
  refine Machine.always_iff_meets (I := BoardClient.Sound) ?_ ?_ start.sound start.once ran
  · exact fun _ _ _ sound stepped => sound.step stepped
  · intro s move next sound once stepped
    exact ⟨BoardClient.appendsNew_of_once stepped, fun appends => BoardClient.once_step sound once appends stepped⟩

/-- A board without a task. -/
def emptyBoard : BoardClient := { rows := [], issued := [] }

def soleTask : TaskDto where
  id := "t"
  boardId := "b"
  columnId := "c"
  title := "Task"
  description := none
  priority := .MEDIUM
  position := 1000
  dueDate := none
  estimatedMinutes := none
  createdById := "ann"
  createdAt := 0
  updatedAt := 0
  assignees := []
  labels := []
  attachmentCount := 0
  checklistSummary := { total := 0, done := 0 }
  checklists := some []

theorem emptyBoard_start : emptyBoard.Start :=
  ⟨List.nodup_nil, fun _ stored => absurd stored List.not_mem_nil, rfl, rfl, fun _ => rfl, rfl⟩

/-- The room's event and its refetch are through before the answer to the create is. -/
def lateAnswer : List Move := [
  .create 0, .serveWrite 0 (.create soleTask), .receive, .fire "t" 1, .serve 1, .complete 1, .complete 0]

theorem tasks_once_iff_prompt :
    let prompt : List Move := [
      .create 0, .serveWrite 0 (.create soleTask), .complete 0, .mirror, .receive]
    Machine.Always BoardClient.step BoardClient.Once emptyBoard prompt ↔
      Machine.Meets BoardClient.step BoardClient.AppendsNew emptyBoard prompt := by
  intro prompt
  obtain ⟨t, ran⟩ : ∃ t, Machine.run BoardClient.step emptyBoard prompt = some t :=
    Option.isSome_iff_exists.mp (by decide +kernel)
  exact tasks_once_iff emptyBoard_start ran

/-- A late answer to a create shows its task twice. -/
theorem task_twice : ¬ ∀ (s t : BoardClient) (moves : List Move), s.Start →
    Machine.run BoardClient.step s moves = some t → t.Once := by
  intro claim
  have shown : (Machine.run BoardClient.step emptyBoard lateAnswer).map (taskIds ∘ BoardClient.tasks) =
      some ["t", "t"] := by decide +kernel
  obtain ⟨t, ran, twice⟩ := Option.map_eq_some_iff.mp shown
  have once : (taskIds t.tasks).Nodup := claim emptyBoard t lateAnswer emptyBoard_start ran
  rw [show taskIds t.tasks = ["t", "t"] from twice] at once
  simp at once

end Kurul.Client
