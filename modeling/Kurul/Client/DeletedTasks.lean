import Kurul.Client.TasksOnce

/-! Deleted tasks stay off a board. What can bring one back is an answer that was given
before the deletion and is taken after it. -/
namespace Kurul.Client

/-- The answer holds the task. -/
def Answer.Brings (taskId : Id) : Answer → Prop
  | .task row => row.id = taskId
  | .page rows => taskId ∈ taskIds rows.items
  | .done | .refused => False

namespace BoardClient

/-- No answer that is still to be taken holds the task. -/
def NoneBrings (s : BoardClient) (taskId : Id) : Prop :=
  s.EveryAnswer fun request aborted answer => (aborted && request.signalled) = false → ¬ answer.Brings taskId

/-- When a deletion is handled, no answer on its way holds the deleted task. -/
def DeletesLast (s : BoardClient) (move : Move) : Prop :=
  ∀ taskId rest, move = .receive → s.events = .deleted taskId :: rest → s.NoneBrings taskId

/-- Gone from the server for good. -/
def Gone (s : BoardClient) (taskId : Id) : Prop := taskId ∉ taskIds s.rows ∧ taskId ∈ s.issued

structure Buried (s : BoardClient) : Prop where
  sound : s.Sound
  told : ∀ taskId, .deleted taskId ∈ s.events → s.Gone taskId
  gone : ∀ taskId ∈ s.deleted, s.Gone taskId ∧ s.NoneBrings taskId ∧ taskId ∉ taskIds s.tasks

variable {s next : BoardClient} {move : Move} {taskId : Id}

theorem Start.buried (start : s.Start) : s.Buried := by
  refine ⟨start.sound, ?_, ?_⟩
  · intro taskId told
    rw [start.events] at told
    cases told
  · intro taskId deleted
    rw [start.deleted] at deleted
    cases deleted

/-- No write brings a deleted id back. -/
theorem Gone.commit {change : ServerChange} (gone : s.Gone taskId) (committed : s.commit change = some next) :
    next.Gone taskId := by
  obtain ⟨absent, used⟩ := gone
  cases change with
  | create task =>
      simp only [BoardClient.commit] at committed
      split at committed
      · cases committed
      · rename_i new
        cases committed
        refine ⟨?_, List.mem_cons_of_mem _ used⟩
        rw [taskIds_append, taskIds_singleton]
        rintro listed
        rcases List.mem_append.mp listed with old | same
        · exact absent old
        · cases List.mem_singleton.mp same
          exact new used
  | update task =>
      simp only [BoardClient.commit] at committed
      split at committed
      · cases committed
        exact ⟨(taskIds_replace task).symm ▸ absent, used⟩
      · cases committed
  | move task actorId =>
      simp only [BoardClient.commit] at committed
      split at committed
      · cases committed
        exact ⟨(taskIds_replace task).symm ▸ absent, used⟩
      · cases committed
  | delete deleted =>
      simp only [BoardClient.commit] at committed
      split at committed
      · cases committed
        refine ⟨?_, used⟩
        rw [taskIds_removeTask]
        exact fun listed => absent (List.mem_filter.mp listed).1
      · cases committed

theorem Gone.step (gone : s.Gone taskId) (stepped : s.step move = some next) : next.Gone taskId := by
  rcases server_step stepped with ⟨rows, issued, _⟩ | ⟨change, written, committed, rows, issued, _⟩
  · rw [Gone, rows, issued]
    exact gone
  · rw [Gone, rows, issued]
    exact gone.commit committed

/-- A deletion is announced once the task is off the server. -/
theorem told_commit {change : ServerChange} (sound : s.Sound)
    (told : ∀ taskId, .deleted taskId ∈ s.events → s.Gone taskId) (committed : s.commit change = some next) :
    ∀ taskId, .deleted taskId ∈ next.events → next.Gone taskId := by
  intro taskId announced
  by_cases before : .deleted taskId ∈ s.events
  · exact (told taskId before).commit committed
  · cases change with
    | create task =>
        simp only [BoardClient.commit] at committed
        split at committed <;> cases committed
        simp [before] at announced
    | update task | move task actorId =>
        simp only [BoardClient.commit] at committed
        split at committed <;> cases committed
        simp [before] at announced
    | delete deleted =>
        simp only [BoardClient.commit] at committed
        split at committed
        · rename_i stored
          cases committed
          obtain rfl : taskId = deleted := by simpa [before] using announced
          obtain ⟨task, held, own⟩ := List.mem_map.mp (onBoard_iff.mp stored)
          refine ⟨?_, own ▸ sound.issued task held⟩
          rw [taskIds_removeTask]
          simp
        · cases committed

theorem readTask_brings {other : Id} (gone : s.Gone taskId) : ¬ (s.readTask other).Brings taskId := by
  rcases readTask_cases (s := s) other with ⟨task, read, stored, _⟩ | read
  · rw [read]
    intro same
    exact gone.1 (List.mem_map.mpr ⟨task, stored, same⟩)
  · rw [read]
    exact id

/-- The answers of a step hold what is on the server. -/
theorem NoneBrings.step (none_ : s.NoneBrings taskId) (gone : s.Gone taskId)
    (stepped : s.step move = some next) : next.NoneBrings taskId := by
  apply EveryAnswer.step none_ _ _ _ _ stepped
  · intro request answer aborted kept unsignalled
    apply kept
    rw [Bool.true_and] at unsignalled
    rw [unsignalled, Bool.and_false]
  · intro request aborted answer given _
    cases request with
    | upsert other | panelTask other | detail other | write other rollback =>
        cases given
        exact readTask_brings gone
    | page drain =>
        cases given
        obtain ⟨few, same, stored, _⟩ := taskIds_boardPage s.rows drain
        intro brought
        have listed : taskId ∈ taskIds few := same ▸ brought
        obtain ⟨task, member, own⟩ := List.mem_map.mp listed
        exact gone.1 (List.mem_map.mpr ⟨task, stored task member, own⟩)
    | create | remove other => cases given
  · intro request aborted answer change written accepted committed _
    unfold accepts at accepted
    split at accepted
    · cases accepted
      rintro rfl
      simp only [BoardClient.commit] at committed
      split at committed
      · cases committed
      · rename_i new
        exact new gone.2
    · split at accepted <;> cases accepted
      rintro rfl
      simp only [BoardClient.commit] at committed
      split at committed
      · rename_i stored
        exact gone.1 (onBoard_iff.mp stored)
      · cases committed
    · split at accepted <;> cases accepted
      exact id
    · cases accepted
  · exact fun _ _ _ => id

theorem mem_upsertTask {other : Id} {remote : TaskDto} {tasks : List TaskDto} (own : remote.id = other)
    (listed : taskId ∈ taskIds (upsertTask other remote tasks)) : taskId ∈ taskIds tasks ∨ remote.id = taskId := by
  rw [taskIds_upsertTask own] at listed
  split at listed
  · exact .inl listed
  · rcases List.mem_append.mp listed with held | new
    · exact .inl held
    · exact .inr (own.trans (List.mem_singleton.mp new).symm)

theorem mem_patch (tasks : List TaskDto) {tasksRef : List TaskDto} {patch : TaskPatch}
    (listed : taskId ∈ taskIds (applyTaskPatch tasksRef patch tasks).1) :
    taskId ∈ taskIds tasks ∨ ∃ task, patch = .whole task ∧ task.id = taskId := by
  rcases taskIds_applyTaskPatch tasksRef patch tasks with
    same | ⟨task, whole, _, added⟩
  · exact .inl (same ▸ listed)
  · rw [added] at listed
    rcases List.mem_append.mp listed with held | new
    · exact .inl held
    · exact .inr ⟨task, whole, (List.mem_singleton.mp new).symm⟩

/-- An answer taken adds to the board what it holds. -/
theorem mem_take {slot : Nat} {request : Request} {aborted : Bool} {answer : Answer} (fits : Fits request answer)
    (listed : taskId ∈ taskIds (s.take slot aborted request answer).tasks) :
    taskId ∈ taskIds s.tasks ∨ ((aborted && request.signalled) = false ∧ answer.Brings taskId) := by
  unfold take at listed
  split at listed
  case h_1 other remote =>
    rcases mem_upsertTask fits listed with held | new
    · exact .inl held
    · exact .inr ⟨Bool.and_false _, new⟩
  case h_2 other task =>
    split at listed
    · exact .inl listed
    · rename_i alive
      have folded : taskId ∈ taskIds (foldPanelTask task s.tasks) := listed
      rw [taskIds_foldPanelTask] at folded
      split at folded
      · exact .inl folded
      · rcases List.mem_append.mp folded with held | new
        · exact .inl held
        · exact .inr ⟨by simp [alive], (List.mem_singleton.mp new).symm⟩
  case h_3 other task =>
    split at listed
    · exact .inl listed
    · rename_i alive
      rcases mem_patch s.tasks listed with held | ⟨_, ⟨⟩, new⟩
      · exact .inl held
      · exact .inr ⟨by simp [alive], new⟩
  case h_4 drain page =>
    split at listed
    · exact .inl listed
    · rename_i alive
      rcases mem_paintPage listed with new | held
      · exact .inr ⟨by simp [alive], new⟩
      · exact .inl held
  case h_5 task =>
    have appended : taskId ∈ taskIds (appendTask task s.tasks) := listed
    rw [taskIds_appendTask] at appended
    rcases List.mem_append.mp appended with held | new
    · exact .inl held
    · exact .inr ⟨Bool.and_false _, (List.mem_singleton.mp new).symm⟩
  case h_6 other rollback task =>
    rcases mem_patch s.tasks listed with held | ⟨_, ⟨⟩, new⟩
    · exact .inl held
    · exact .inr ⟨Bool.and_false _, new⟩
  case h_7 other rollback =>
    rcases mem_patch s.tasks listed with held | ⟨_, ⟨⟩, _⟩
    exact .inl held
  case h_8 other =>
    have kept : taskId ∈ taskIds (removeTask other s.tasks) := listed
    rw [taskIds_removeTask] at kept
    exact .inl (List.mem_filter.mp kept).1
  case h_9 => exact .inl listed

theorem mem_handle {event : BoardEvent} (listed : taskId ∈ taskIds (s.handle event).tasks) :
    taskId ∈ taskIds s.tasks ∧ event ≠ .deleted taskId := by
  cases event with
  | created other =>
      unfold handle at listed
      dsimp only at listed
      split at listed <;> exact ⟨listed, by simp⟩
  | updated other => exact ⟨listed, by simp⟩
  | moved other columnId position actorId =>
      have moved : taskId ∈ taskIds (moveTask other columnId position s.tasks) := by
        unfold handle at listed
        dsimp only at listed
        split at listed <;> exact listed
      rw [taskIds_moveTask] at moved
      exact ⟨moved, by simp⟩
  | deleted other =>
      have kept : taskId ∈ taskIds (removeTask other s.tasks) := listed
      rw [taskIds_removeTask] at kept
      obtain ⟨held, apart⟩ := List.mem_filter.mp kept
      exact ⟨held, by rintro ⟨⟩; simp at apart⟩

theorem handle_deleted {event : BoardEvent} (deleted : taskId ∈ (s.handle event).deleted) :
    taskId ∈ s.deleted ∨ event = .deleted taskId := by
  cases event with
  | deleted other =>
      rcases List.mem_cons.mp deleted with rfl | before
      · exact .inr rfl
      · exact .inl before
  | _ =>
      left
      unfold handle at deleted
      first
        | exact deleted
        | (dsimp only at deleted; split at deleted <;> exact deleted)

/-- A task that no answer holds does not come to the board. -/
theorem absent_step (sound : s.Sound) (none_ : s.NoneBrings taskId) (absent : taskId ∉ taskIds s.tasks)
    (stepped : s.step move = some next) : taskId ∉ taskIds next.tasks := by
  rcases board_step stepped with ⟨same, _⟩ | ⟨event, rest, _, _, rfl⟩ |
    ⟨slot, flight, answer, _, held, answered, rfl⟩ | ⟨other, fields, shown, _⟩
  · exact same ▸ absent
  · exact fun listed => absent (mem_handle (s := { s with events := rest }) listed).1
  · intro listed
    rcases mem_take (sound.answers slot flight answer held answered) listed with before | ⟨live, brought⟩
    · exact absent before
    · exact none_ slot flight answer held answered live brought
  · rw [shown]
    intro listed
    rcases mem_patch s.tasks listed with before | ⟨_, ⟨⟩, _⟩
    exact absent before

/-- A deletion is handled as its event comes, which takes the task off the board. -/
theorem deleted_step (stepped : s.step move = some next) (deleted : taskId ∈ next.deleted) :
    taskId ∈ s.deleted ∨
      ∃ rest, move = .receive ∧ s.events = .deleted taskId :: rest ∧ taskId ∉ taskIds next.tasks := by
  rcases board_step stepped with ⟨_, same⟩ | ⟨event, rest, received, queued, rfl⟩ |
    ⟨slot, flight, answer, _, held, answered, rfl⟩ | ⟨other, fields, _, same⟩
  · exact .inl (same ▸ deleted)
  · rcases handle_deleted (s := { s with events := rest }) deleted with before | rfl
    · exact .inl before
    · exact .inr ⟨rest, received, queued, fun listed =>
        (mem_handle (s := { s with events := rest }) listed).2 rfl⟩
  · rw [(take_frame slot flight.request flight.aborted answer).2.2.2] at deleted
    exact .inl deleted
  · exact .inl (same ▸ deleted)

theorem Buried.step (buried : s.Buried) (last : s.DeletesLast move) (stepped : s.step move = some next) :
    next.Buried := by
  refine ⟨buried.sound.step stepped, ?_, ?_⟩
  · intro taskId announced
    rcases server_step stepped with ⟨_, _, events⟩ | ⟨change, written, committed, rows, issued, events⟩
    · exact (buried.told taskId (events announced)).step stepped
    · rw [Gone, rows, issued]
      exact told_commit buried.sound buried.told committed taskId (events ▸ announced)
  · intro taskId deleted
    rcases deleted_step stepped deleted with before | ⟨rest, received, queued, off⟩
    · obtain ⟨gone, none_, absent⟩ := buried.gone taskId before
      exact ⟨gone.step stepped, none_.step gone stepped, absent_step buried.sound none_ absent stepped⟩
    · have gone := buried.told taskId (queued ▸ List.mem_cons_self)
      have none_ := last taskId rest received queued
      exact ⟨gone.step stepped, none_.step gone stepped, off⟩

end BoardClient

/-- In a run whose deletions are handled while no answer on its way holds the deleted task,
a task whose deletion has been handled is not on the board. -/
theorem deleted_tasks_stay_off {s t : BoardClient} (start : s.Start) {moves : List Move}
    (ran : Machine.run BoardClient.step s moves = some t)
    (last : Machine.Meets BoardClient.step BoardClient.DeletesLast s moves) :
    ∀ taskId ∈ t.deleted, ∀ task ∈ t.tasks, task.id ≠ taskId := by
  have buried : t.Buried := by
    refine Machine.run_keeps ?_ start.buried last ran
    exact fun _ _ _ buried last stepped => buried.step last stepped
  rintro _ deleted task held rfl
  exact (buried.gone task.id deleted).2.2 (List.mem_map_of_mem held)

/-- A board with one task on the server. -/
def soleBoard : BoardClient := { rows := [soleTask], issued := ["t"] }

theorem soleBoard_start : soleBoard.Start := by
  refine ⟨by decide, ?_, rfl, rfl, fun _ => rfl, rfl⟩
  intro task stored
  cases List.mem_singleton.mp stored
  exact List.mem_cons_self

/-- A refetch is answered before the task is deleted and taken after that. -/
def staleRefetch : List Move := [
  .commit (.update soleTask), .receive, .fire "t" 0, .serve 0, .commit (.delete "t"), .receive, .complete 0]

/-- The same refetch, taken before the deletion comes. -/
def freshRefetch : List Move := [
  .commit (.update soleTask), .receive, .fire "t" 0, .commit (.delete "t"), .receive, .serve 0, .complete 0]

theorem freshRefetch_deletesLast :
    Machine.Meets BoardClient.step BoardClient.DeletesLast soleBoard freshRefetch := by
  have other : ∀ (s : BoardClient) (move : Move), move ≠ .receive → s.DeletesLast move :=
    fun _ _ apart _ _ received => absurd received apart
  refine ⟨other _ _ (by simp), ?_⟩
  rintro _ ⟨⟩
  refine ⟨?_, ?_⟩
  · rintro _ _ _ ⟨⟩
  rintro _ ⟨⟩
  refine ⟨other _ _ (by simp), ?_⟩
  rintro _ ⟨⟩
  refine ⟨other _ _ (by simp), ?_⟩
  rintro _ ⟨⟩
  refine ⟨?_, ?_⟩
  · rintro taskId rest _ _ slot flight answer held answered
    cases slot with
    | zero =>
        cases held
        cases answered
    | succ slot => cases held
  rintro _ ⟨⟩
  refine ⟨other _ _ (by simp), ?_⟩
  rintro _ ⟨⟩
  exact ⟨other _ _ (by simp), fun _ _ => trivial⟩

theorem deleted_tasks_stay_off_fresh : ∃ t, Machine.run BoardClient.step soleBoard freshRefetch = some t ∧
    "t" ∈ t.deleted ∧ ∀ task ∈ t.tasks, task.id ≠ "t" := by
  have shown : (Machine.run BoardClient.step soleBoard freshRefetch).map BoardClient.deleted = some ["t"] := by
    decide +kernel
  obtain ⟨t, ran, deleted⟩ := Option.map_eq_some_iff.mp shown
  have handled : "t" ∈ t.deleted := deleted ▸ List.mem_cons_self
  exact ⟨t, ran, handled,
    deleted_tasks_stay_off soleBoard_start ran freshRefetch_deletesLast "t" handled⟩

/-- A deleted task comes back with a refetch that was answered before. -/
theorem deleted_task_returns : ¬ ∀ (s t : BoardClient) (moves : List Move), s.Start →
    Machine.run BoardClient.step s moves = some t → (∀ slot, t.requests slot = none) →
      ∀ taskId ∈ t.deleted, ∀ task ∈ t.tasks, task.id ≠ taskId := by
  intro claim
  have shown : (Machine.run BoardClient.step soleBoard staleRefetch).map
      (fun t => (t.tasks, t.deleted)) = some ([soleTask], ["t"]) := by decide +kernel
  obtain ⟨t, ran, back⟩ := Option.map_eq_some_iff.mp shown
  obtain ⟨listed, deleted⟩ := Prod.mk.inj back
  have idle : ∀ slot, (Machine.run BoardClient.step soleBoard staleRefetch).bind (·.requests slot) = none := by
    intro slot
    cases slot with
    | zero => rfl
    | succ slot => rfl
  apply claim soleBoard t staleRefetch soleBoard_start ran _ "t" (deleted ▸ List.mem_cons_self) soleTask
    (listed ▸ List.mem_cons_self) rfl
  intro slot
  have here := idle slot
  rwa [ran] at here

end Kurul.Client
