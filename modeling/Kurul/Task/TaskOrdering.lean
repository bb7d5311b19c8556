import Kurul.Ordering
import Kurul.Task.TaskService

/-! Creates, moves and removals of tasks, interleaved in any way: every column keeps
its order. The column's row lock is what a create or move holds while it writes
around the siblings it read; a task may leave the column at any time. -/
namespace Kurul

open Store Prog Sequence

inductive TaskCall where
  | create (workspaceId boardId userId : Id) (dto : CreateTaskDto)
  | move (workspaceId taskId userId : Id) (dto : MoveTaskDto)
  | remove (workspaceId taskId userId : Id)

namespace TaskCall

def service : TaskCall → Service Unit
  | .create workspaceId boardId userId dto => do
      let _ ← TaskService.create workspaceId boardId userId dto
  | .move workspaceId taskId userId dto => do
      let _ ← TaskService.move workspaceId taskId userId dto
  | .remove workspaceId taskId userId => TaskService.remove workspaceId taskId userId

/-- What a committed call did to a watched column, given the views it had. -/
def Kept (watched : Id → Prop) : TaskCall → List (List Row) → List Row → List Row → Prop
  | .create _ _ _ dto, seen, before, after => watched dto.columnId →
      ∃ own, (∀ row ∈ before, key row ≠ Key.task own) ∧ taskPositions.PlacedInOrder dto.columnId own
        (fun siblings => resolveCreateNeighbors siblings dto.afterTaskId "Task not found")
        seen before after
  | .move _ taskId _ dto, seen, before, after => watched dto.columnId →
      taskPositions.PlacedInOrder dto.columnId taskId
        (fun siblings => resolveMoveNeighbors (siblings.filter fun item => item.id ≠ taskId)
          dto.beforeTaskId dto.afterTaskId)
        seen before after
  | .remove .., _, before, after => ∀ {columnId i p},
      taskPositions.order columnId after i p → taskPositions.order columnId before i p

def promise (call : TaskCall) (watched : Id → Prop) : Promise Row Key where
  commit l rows := call.Kept watched l.seen rows (l.view rows)

end TaskCall

/-- Distinct positions in the watched columns, kept by column locks. -/
def taskProtocol (watched : Id → Prop) : Protocol Row Key :=
  taskPositions.lanes.protocol watched fun _ => True

section Steps

variable {watched : Id → Prop} {allow : Assertion Row} {promise : Promise Row Key} {l : Local Row Key}
  {A : Assertion Row}

theorem verified_fromColumnName {Q : Protocol Row Key} {fromColumnId : Id} {targetColumn : Column}
    {post : String → Local Row Key → Assertion Row → Prop} (quiet : ∀ l, promise.statement l)
    (stable : Stable Q l.held A) (rest : ∀ name l', l.Grown l' [] → post name l' A) :
    Verified Q allow promise (TaskService.fromColumnName fromColumnId targetColumn) l A
      post := by
  unfold TaskService.fromColumnName
  split
  · exact rest _ l (Local.Grown.refl l)
  · exact Verified.bind (Verified.read (quiet _) stable fun rows _ _ => rest _ _ (l.grown_read rows))

/-- The update of a move writes the task into its column at its position. -/
theorem moved_task {workspaceId taskId columnId : Id} {position : ℚ} {change : Task → Task}
    {view : List Row} {o : Outcome Row Key Task}
    (ran : (Statement.update (scopedTask workspaceId taskId) change view : Except Error _) = .ok o)
    (moves : ∀ task, (change task).id = task.id ∧ (change task).columnId = columnId ∧
      (change task).position = position) :
    ∃ task : Task, task.id = taskId ∧ task.columnId = columnId ∧ task.position = position ∧
      o.writes = [.put (toRow task)] := by
  obtain ⟨row, _, chosen, _, written⟩ := Statement.update_ok ran
  obtain ⟨same, _⟩ : row.id = taskId ∧ _ := by simpa [scopedTask] using chosen
  obtain ⟨sameId, there, stands⟩ := moves row
  exact ⟨change row, sameId.trans same, there, stands, written⟩

/-- The moved task's own write, and its siblings' where they have to be moved apart. -/
theorem verified_place {workspaceId columnId : Id} {task : TaskRow} {L : List Sibling} {k n : Nat}
    {post : TaskDto → Local Row Key → Assertion Row → Prop} (quiet : ∀ l, promise.statement l)
    (keys : (L.map Sibling.id).Nodup)
    (ordered : watched columnId → Ordered Sibling.id Sibling.position L) (fits : k ≤ L.length)
    (absent : ∀ sibling ∈ L, sibling.id ≠ task.task.id) (clean : l.pending = [])
    (locked : (Key.column columnId, .update) ∈ l.held)
    (keeps : ∀ rows, A rows →
      taskPositions.Keeps L columnId (some task.task.id) (Positioning.still L) [] rows)
    (rest : ∀ result position moved l' A', l.Grown l' l'.pending →
      taskPositions.Puts L columnId (some task.task.id) position moved l'.pending →
      (watched columnId → Spread L.length k position moved) → Key.task task.task.id ∈ touched l'.pending →
      Stable (taskProtocol watched) l'.held A' →
      (∀ rows, A' rows →
        taskPositions.Keeps L columnId (some task.task.id) moved l'.pending rows) →
      post result l' A') :
    Verified (taskProtocol watched) allow promise
      (TaskService.place workspaceId task columnId L (sliceSlot L k) n) l A post := by
  unfold TaskService.place
  dsimp only
  split
  · refine Verified.bind fun given => Verified.bind (Positioning.verified_own quiet
      (fun _ ran => moved_task ran fun _ => ⟨rfl, rfl, rfl⟩) clean locked keeps fun _ l' A' grown target puts stable'
        kept => ?_)
    rw [show (sliceSlot L k).insertionIndex = k from rfl, reorderedUpdates_eq fits absent]
    refine Verified.bind (Positioning.verified_batch quiet keys stable' (grown.held locked)
      (grown.owned (by simp [clean, touched])) kept ?_ ?_
      fun B l'' A'' grown' batch stable'' kept' => ?_)
    · intro key member
      exact ⟨_, rfl, by simpa [target] using member⟩
    · rintro x same sibling member rfl
      exact absent sibling member (Option.some.inj same).symm
    · refine rest _ _ _ l'' A'' ((grown.trans grown').whole clean) ?_
        (fun _ => rebalance_spread _ fits) ?_ stable'' kept'
      · rw [grown'.pending]; exact (puts _).append (batch _)
      · simp [grown'.pending, target, taskPositions]
  · refine Verified.bind fun given => Verified.bind (Positioning.verified_own quiet
      (fun _ ran => ?_) clean locked keeps fun _ l' A' grown target puts stable' kept =>
        rest _ _ _ l' A' grown (puts _)
          (fun looked => midpoint_spread (ordered looked) fits)
          (by simp [target, taskPositions]) stable' kept)
    obtain ⟨o', updated, _, written, _⟩ := including_ok ran
    rw [written]
    exact moved_task updated fun _ => ⟨rfl, rfl, rfl⟩

end Steps

section Calls

theorem column_locks (column : Column) : taskPositions.lanes.LockRow (key (toRow column : Row)) :=
  ⟨column.id, rfl⟩

/-- An audit row stands in no column and locks none. -/
theorem silent_activity (activity : Activity) :
    taskPositions.lanes.Silent (.put (.activity activity)) :=
  ⟨rfl, fun ⟨_, same⟩ => by cases same⟩

/-- The deletion of tasks takes no column along. -/
theorem silent_tasks {rows : List Row} {tasks : List Task} {write : Write Row Key}
    (member : write ∈ deletion rows (cascade rows (tasks.map fun task => key (toRow task : Row)))) :
    taskPositions.lanes.Silent write := by
  have start : ∀ k ∈ tasks.map fun task => key (toRow task : Row), 3 ≤ k.depth := by
    intro k listed
    obtain ⟨task, _, rfl⟩ := List.mem_map.mp listed
    exact le_rfl
  exact Positioning.silent_deletion (fun _ => Nat.lt_succ_self 2) silent_activity
    (fun _ => ⟨rfl, fun ⟨_, same⟩ => by cases same⟩) start member

variable {watched : Id → Prop} {allow : Assertion Row}

theorem verified_create {workspaceId boardId userId : Id} {dto : CreateTaskDto} :
    Verified (taskProtocol watched) allow ((TaskCall.create workspaceId boardId userId dto).promise watched)
      (TaskService.create workspaceId boardId userId dto) {} (fun _ => True) fun _ _ _ => True := by
  have quiet : ∀ l, ((TaskCall.create workspaceId boardId userId dto).promise watched).statement l :=
    fun _ => trivial
  unfold TaskService.create
  refine Verified.bind (verified_assertBoard quiet (Stable.const _ _ True) fun _ l₁ grown₁ => ?_)
  refine Verified.bind (Positioning.verified_parent (Q := fun column => column.id = dto.columnId)
    quiet grown₁.pending column_locks (by simp +contextual) fun column l₂ same grown₂ => ?_)
  refine Verified.bind (Verified.ofExcept fun attributes _ => ?_)
  refine Verified.bind (Verified.transaction ?_)
  have clean₂ := grown₂.clean (grown₁.clean rfl)
  refine Verified.bind (Positioning.verified_lock quiet (Positioning.stable_parent _ (column_locks column)) clean₂
    (fun _ _ there => there) fun l₃ grown₃ locked₃ => ?_)
  have clean₃ := grown₃.clean clean₂
  refine Verified.bind (Positioning.verified_siblings quiet (Positioning.stable_parent _ (column_locks column)) clean₃ locked₃
    fun view l₄ grown₄ shown keys ordered stable => ?_)
  refine Verified.bind (Verified.ofExcept fun slot resolved => ?_)
  obtain ⟨k, fits, rfl⟩ := resolveCreateNeighbors_slot resolved
  have clean₄ := grown₄.clean clean₃
  refine Verified.bind (Positioning.verified_createPosition quiet keys ordered fits clean₄ (grown₄.held locked₃)
    stable (fun _ fact => fact.2.keeps)
    fun position moved l₅ A₅ grown₅ puts spread stable₅ kept₅ => ?_)
  refine Verified.bind fun given => Verified.bind (Positioning.verified_insert quiet
    (fun ran => (Statement.create_ok ran).2) rfl rfl
    ((grown₄.trans grown₅).held locked₃) (grown₅.owned (by simp [clean₄, touched])) puts kept₅
    fun created l₆ A₆ grown₆ puts₆ target stable₆ keeps₆ => ?_)
  refine Verified.bind (verified_record (quiet _) stable₆ fun activity l₇ _ grown₇ _ => ?_)
  intro rows inv fact _ _
  obtain ⟨kept, absent⟩ := keeps₆ rows fact
  have later := ((grown₄.trans grown₅).trans grown₆).trans grown₇
  obtain ⟨puts₇, kept₇⟩ := Positioning.keeps_quiet puts₆ kept (silent_activity activity)
  rw [← grown₇.pending] at puts₇ kept₇
  obtain ⟨invAfter, guar, placed⟩ := Positioning.commits
    (fun siblings => resolveCreateNeighbors siblings dto.afterTaskId "Task not found")
    inv puts₇ kept₇ keys (fun looked => ⟨ordered looked, spread looked⟩)
    (by rw [grown₇.pending]; simp [target]) trivial (later.held locked₃)
    (((grown₅.trans grown₆).trans grown₇).seen shown) resolved (List.Subset.refl _)
  rw [same] at placed
  exact ⟨invAfter, guar, fun looked => ⟨_, absent, placed looked⟩, _, trivial,
    Stable.const _ _ True, trivial⟩

theorem verified_move {workspaceId taskId userId : Id} {dto : MoveTaskDto} :
    Verified (taskProtocol watched) allow ((TaskCall.move workspaceId taskId userId dto).promise watched)
      (TaskService.move workspaceId taskId userId dto) {} (fun _ => True) fun _ _ _ => True := by
  have quiet : ∀ l, ((TaskCall.move workspaceId taskId userId dto).promise watched).statement l :=
    fun _ => trivial
  unfold TaskService.move
  refine Verified.bind (Verified.transaction ?_)
  refine Verified.bind (Verified.found trivial fun rows task _ _ hit =>
    ⟨fun _ => True, trivial, Stable.const _ _ True, ?_⟩)
  obtain ⟨row, chosen, rfl⟩ := Option.map_eq_some_iff.mp hit
  obtain ⟨own, _⟩ : row.id = taskId ∧ _ := by simpa [scopedTask] using List.find?_some chosen
  refine Verified.bind (Verified.require fun _ => ?_)
  refine Verified.bind (Positioning.verified_parent (Q := fun column => column.id = dto.columnId)
    quiet rfl column_locks (by simp +contextual [scopedColumn]) fun column l₂ same grown₂ => ?_)
  refine Verified.bind (Verified.require fun _ => ?_)
  refine Verified.bind (verified_fromColumnName quiet (Positioning.stable_parent _ (column_locks column)) fun _ l₃ grown₃ => ?_)
  have clean₃ := grown₃.clean (grown₂.clean rfl)
  refine Verified.bind (Positioning.verified_lock quiet (Positioning.stable_parent _ (column_locks column)) clean₃
    (fun _ _ there => there) fun l₄ grown₄ locked₄ => ?_)
  have clean₄ := grown₄.clean clean₃
  refine Verified.bind (Positioning.verified_siblings quiet (Positioning.stable_parent _ (column_locks column)) clean₄ locked₄
    fun view l₅ grown₅ shown keys ordered stable => ?_)
  refine Verified.bind (Verified.ofExcept fun slot resolved => ?_)
  obtain ⟨k, fits, rfl⟩ := resolveMoveNeighbors_slot resolved
  have remaining := fun looked => Positioning.ordered_remaining taskId (ordered looked)
  have keysLeft := Positioning.nodup_remaining taskId keys
  have others : ∀ sibling ∈ (taskPositions.siblings column.id view).filter (fun item => item.id ≠ taskId),
      sibling.id ≠ row.id := by
    intro sibling member
    simpa [own] using (List.mem_filter.mp member).2
  refine Verified.bind (Verified.read trivial stable fun rows' _ _ => ?_)
  have grown₆ := l₅.grown_read rows'
  refine Verified.bind (verified_place quiet keysLeft remaining fits others (grown₆.clean (grown₅.clean clean₄))
    (grown₆.held (grown₅.held locked₄)) (fun _ fact => own ▸ fact.2.keeps_remaining taskId)
    fun result position moved l₇ A₇ grown₇ puts spread target stable₇ keeps => ?_)
  refine Verified.bind (verified_record (quiet _) stable₇ fun activity l₈ _ grown₈ _ => ?_)
  intro rows inv fact _ _
  have later := ((grown₅.trans grown₆).trans grown₇).trans grown₈
  obtain ⟨puts₈, kept₈⟩ := Positioning.keeps_quiet puts (keeps rows fact) (silent_activity activity)
  rw [← grown₈.pending] at puts₈ kept₈
  have written : Key.task row.id ∈ touched l₈.pending := by
    rw [grown₈.pending, touched_append]
    exact List.mem_append_left _ target
  obtain ⟨invAfter, guar, placed⟩ := Positioning.commits
    (fun siblings => resolveMoveNeighbors (siblings.filter fun item => item.id ≠ taskId)
      dto.beforeTaskId dto.afterTaskId)
    inv puts₈ kept₈ keysLeft (fun looked => ⟨remaining looked, spread looked⟩) written trivial
    (later.held locked₄) (((grown₆.trans grown₇).trans grown₈).seen shown) resolved
    (List.filter_subset_self _)
  have promised : watched column.id →
      taskPositions.PlacedInOrder column.id row.id _ l₈.seen rows (l₈.view rows) := placed
  rw [same, own] at promised
  exact ⟨invAfter, guar, promised, _, trivial, Stable.const _ _ True, trivial⟩

theorem verified_remove {workspaceId taskId userId : Id} :
    Verified (taskProtocol watched) allow ((TaskCall.remove workspaceId taskId userId).promise watched)
      (TaskService.remove workspaceId taskId userId) {} (fun _ => True) fun _ _ _ => True := by
  have quiet : ∀ l, ((TaskCall.remove workspaceId taskId userId).promise watched).statement l :=
    fun _ => trivial
  unfold TaskService.remove
  refine Verified.bind (Verified.transaction ?_)
  refine Verified.bind (Verified.found trivial fun rows task _ _ _ =>
    ⟨fun _ => True, trivial, Stable.const _ _ True, ?_⟩)
  refine Verified.bind (verified_record (quiet _) (Stable.const _ _ True) fun activity l₂ _ grown₂ _ => ?_)
  refine Verified.bind (Verified.keep trivial (Stable.const _ _ True) fun rows _ _ o ran => ?_)
  refine Verified.bind (Verified.require fun _ => ?_)
  obtain ⟨_, written⟩ := Statement.deleteMany_ok ran
  intro rows' inv _ _ _
  have silent : ∀ write ∈ (l₂.ran rows o).pending, taskPositions.lanes.Silent write := by
    intro write member
    simp only [Local.ran, grown₂.pending, List.nil_append, List.singleton_append, List.mem_cons] at member
    obtain rfl | deleted := member
    · exact silent_activity activity
    · exact silent_tasks (written ▸ deleted)
  obtain ⟨invAfter, guar⟩ := Lanes.commit_silent silent task.columnId inv trivial
  exact ⟨invAfter, guar, Lanes.departs silent, _, trivial, Stable.const _ _ True, trivial⟩

theorem TaskCall.verified (call : TaskCall) :
    Verified (taskProtocol watched) allow (call.promise watched) call.service {} (fun _ => True) fun _ _ _ => True := by
  cases call with
  | create workspaceId boardId userId dto =>
      exact Verified.bind verified_create
  | move workspaceId taskId userId dto => exact Verified.bind verified_move
  | remove workspaceId taskId userId => exact verified_remove

end Calls

/-- Whatever creates, moves and removals run together, in every state they reach the
positions of each watched column are distinct, and each commit keeps the order: a
create or move of every other task, with its own between the neighbours it resolved. -/
theorem tasks_keep_order {ι : Type} [DecidableEq ι] (calls : ι → TaskCall) {watched : Id → Prop}
    {rows : List Row} (unique : UniqueKeys rows)
    (distinct : ∀ columnId, watched columnId → (taskPositions.order columnId rows).Distinct)
    {s : System ι Row Key Event Input Error Unit}
    (run : System.Reaches (fun _ _ => True)
      { rows, threads := fun i => { prog := (calls i).service } } s) :
    (∀ columnId, watched columnId → (taskPositions.order columnId s.rows).Distinct) ∧
      ∀ i next, (s.threads i).prog = .commit next →
        (calls i).Kept watched (s.threads i).seen s.rows
          (applyAll s.rows (s.threads i).pending) := by
  have start : Sound (taskProtocol watched) (fun _ _ => True) (fun i => (calls i).promise watched)
      ({ rows, threads := fun i => { prog := (calls i).service } } :
        System ι Row Key Event Input Error Unit) :=
    Sound.initial ⟨unique, distinct, trivial⟩ fun i => (calls i).verified
  have sound := start.reaches (fun _ _ => trivial) run
  exact ⟨sound.inv.2.1, fun i next here => (sound.commit i here trivial).1⟩

/-- One task goes in after the first, and the second moves in front of it. -/
def sampleTaskCalls : Fin 2 → TaskCall
  | 0 => .create "w" "b" "ann" { title := "Write", columnId := "c", afterTaskId := some "t1" }
  | 1 => .move "w" "t2" "bob" { columnId := "c", afterTaskId := some "t1" }

def sampleTask (id title : String) (position : ℚ) : Row :=
  .task { id, boardId := "b", columnId := "c", title, position, createdById := "ann" }

def sampleTasks : List Row := sampleWorkspace ++ [
  .column { id := "c", boardId := "b", name := "To Do", position := 1000 },
  sampleTask "t1" "Read" 1000, sampleTask "t2" "Rest" 2000]

/-- The create is about to commit, the move waits for the column. -/
def sampleTasksMidway : System (Fin 2) Row Key Event Input Error Unit :=
  (System.runs { rows := sampleTasks, threads := fun i => { prog := (sampleTaskCalls i).service } }
    (turns (List.replicate 8 0 ++ [1, 1]))).get (by decide +kernel)

theorem tasks_keep_order_midway :
    (∀ columnId, columnId = "c" → (taskPositions.order columnId sampleTasksMidway.rows).Distinct) ∧
      ∀ i next, (sampleTasksMidway.threads i).prog = .commit next →
        (sampleTaskCalls i).Kept (· = "c") (sampleTasksMidway.threads i).seen sampleTasksMidway.rows
          (applyAll sampleTasksMidway.rows (sampleTasksMidway.threads i).pending) :=
  tasks_keep_order sampleTaskCalls (by decide +kernel)
    (fun _ same => same ▸ Positioning.distinct_iff.mpr (by decide +kernel)) (System.Reaches.get _ _)

end Kurul
