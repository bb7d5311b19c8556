import Kurul.Board.ColumnService
import Kurul.Task.TaskOrdering

/-! Removing a column while tasks are created in it or moved into it. The removal
counts the column's tasks and deletes the column in two statements, and takes no lock
before the second: a task that is committed between them goes with the column. Where
none is, no removal destroys a task. -/
namespace Kurul

open Store Prog

inductive BoardCall where
  | removeColumn (workspaceId columnId actorId : Id)
  | createTask (workspaceId boardId userId : Id) (dto : CreateTaskDto)
  | moveTask (workspaceId taskId userId : Id) (dto : MoveTaskDto)

/-- Writes that put tasks into one column only, beside audit rows. -/
def TasksInto (columnId : Id) (W : List (Write Row Key)) : Prop :=
  ∀ write ∈ W, (∃ activity, write = .put (.activity activity)) ∨
    ∃ task : Task, write = .put (toRow task) ∧ task.columnId = columnId

namespace BoardCall

def service : BoardCall → Service Unit
  | .removeColumn workspaceId columnId actorId => ColumnService.remove workspaceId columnId actorId
  | .createTask workspaceId boardId userId dto => do
      let _ ← TaskService.create workspaceId boardId userId dto
  | .moveTask workspaceId taskId userId dto => do
      let _ ← TaskService.move workspaceId taskId userId dto

def Removes (columnId : Id) : BoardCall → Prop
  | .removeColumn _ named _ => named = columnId
  | _ => False

/-- The call puts its task into this column. -/
def Into (columnId : Id) : BoardCall → Prop
  | .createTask _ _ _ dto => dto.columnId = columnId
  | .moveTask _ _ _ dto => dto.columnId = columnId
  | .removeColumn .. => False

/-- Up to its delete, a removal has only written its audit row, and its second
statement counted no task. The delete is its fourth. -/
def promise : BoardCall → Promise Row Key
  | .removeColumn _ columnId _ =>
      { statement l := (∀ write ∈ l.pending, ∃ activity, write = .put (.activity activity)) ∧
          l.seen.length ≤ 3 ∧ ∀ view, l.seen[1]? = some view → NoTasks columnId view
        commit l _ := ∃ view, l.seen[3]? = some view ∧
          (∀ task, .put (.task task) ∉ l.pending) ∧
          (NoTasks columnId view → ∀ id, .del (.task id) ∉ l.pending) }
  | .createTask _ _ _ dto => { commit l _ := TasksInto dto.columnId l.pending }
  | .moveTask _ _ _ dto => { commit l _ := TasksInto dto.columnId l.pending }

end BoardCall

section Calls

variable {allow : Assertion Row}

theorem TasksInto.append {columnId : Id} {W B : List (Write Row Key)} (first : TasksInto columnId W)
    (second : TasksInto columnId B) : TasksInto columnId (W ++ B) := by
  intro write member
  obtain left | right := List.mem_append.mp member
  · exact first write left
  · exact second write right

theorem tasksInto_batch {columnId : Id} {B : List (Write Row Key)}
    (inside : ∀ write ∈ B, ∃ task, write = .put (toRow task) ∧ taskPositions.group task = columnId) :
    TasksInto columnId B := by
  intro write member
  obtain ⟨task, rfl, here⟩ := inside write member
  exact Or.inr ⟨task, rfl, here⟩

theorem tasksInto_activity (columnId : Id) (activity : Activity) :
    TasksInto columnId [.put (.activity activity)] := by
  intro write member
  exact Or.inl ⟨activity, List.mem_singleton.mp member⟩

theorem tasksInto_task {columnId : Id} {task : Task} (here : task.columnId = columnId) :
    TasksInto columnId [.put (toRow task)] := by
  intro write member
  exact Or.inr ⟨task, List.mem_singleton.mp member, here⟩

theorem verified_createInto {workspaceId boardId userId : Id} {dto : CreateTaskDto} :
    Verified Protocol.free allow (BoardCall.createTask workspaceId boardId userId dto).promise
      (TaskService.create workspaceId boardId userId dto) {} (fun _ => True) fun _ _ _ => True := by
  have quiet : ∀ l, (BoardCall.createTask workspaceId boardId userId dto).promise.statement l :=
    fun _ => trivial
  have free : ∀ held, Stable (Protocol.free : Protocol Row Key) held fun _ => True :=
    fun held => Stable.const _ held True
  unfold TaskService.create
  refine Verified.bind (verified_assertBoard quiet (free _) fun _ l₁ grown₁ => ?_)
  refine Verified.bind (Verified.found trivial fun rows column _ _ hit =>
    ⟨fun _ => True, trivial, free _, ?_⟩)
  obtain ⟨⟨own, _⟩, _⟩ : (column.id = dto.columnId ∧ column.boardId = boardId) ∧ _ := by
    simpa using List.find?_some hit
  have grown₂ := l₁.grown_read rows
  refine Verified.bind (Verified.ofExcept fun attributes _ => ?_)
  refine Verified.bind (Verified.transaction ?_)
  refine Verified.bind (Verified.keep trivial (free _) fun rows₃ _ _ o₃ ran₃ => ?_)
  refine Verified.bind (Verified.read trivial (free _) fun rows₄ _ _ => ?_)
  refine Verified.bind (Verified.ofExcept fun slot _ => ?_)
  refine Verified.bind (verified_positionWrites quiet (free _) fun position B l₅ grown₅ inside => ?_)
  refine Verified.bind fun given => Verified.bind (Verified.keep trivial (free _) fun rows₆ _ _ o₆ ran₆ => ?_)
  refine Verified.bind (verified_record trivial (free _) fun activity l₇ _ grown₇ _ => ?_)
  intro rows _ _ _ _
  refine ⟨trivial, trivial, ?_, _, trivial, free _, trivial⟩
  obtain ⟨locked, _⟩ := Statement.lockForUpdate_ok ran₃
  obtain ⟨same, written, _⟩ := Statement.create_ok ran₆
  have pending : l₇.pending = B ++ o₆.writes ++ [.put (.activity activity)] := by
    rw [grown₇.pending, (l₅.grown_ran rows₆ o₆).pending, grown₅.pending]
    simp [Local.ran, locked, grown₁.pending]
  change TasksInto dto.columnId l₇.pending
  rw [pending, written]
  exact (((own ▸ tasksInto_batch inside).append (tasksInto_task own)).append
    (tasksInto_activity _ activity))

theorem verified_placeInto {promise : Promise Row Key} {l : Local Row Key} {workspaceId columnId : Id}
    {task : TaskRow} {siblings : List Sibling} {slot : InsertionSlot} {n : Nat}
    {post : TaskDto → Local Row Key → Assertion Row → Prop} (quiet : ∀ l, promise.statement l)
    (rest : ∀ result B l', l.Grown l' B → TasksInto columnId B → post result l' fun _ => True) :
    Verified Protocol.free allow promise (TaskService.place workspaceId task columnId siblings slot n)
      l (fun _ => True) post := by
  have free : ∀ held, Stable (Protocol.free : Protocol Row Key) held fun _ => True :=
    fun held => Stable.const _ held True
  unfold TaskService.place
  dsimp only
  split
  · refine Verified.bind fun given => Verified.bind (Verified.keep (quiet _) (free _)
      fun rows _ _ o ran => ?_)
    obtain ⟨moved, _, here, _, written⟩ := moved_task ran fun _ => ⟨rfl, rfl, rfl⟩
    refine Verified.bind (verified_batchUpdate quiet (free _) fun B l' grown inside => ?_)
    refine rest _ _ l' ((l.grown_ran rows o).trans grown) ?_
    rw [written]
    exact (tasksInto_task here).append (tasksInto_batch inside)
  · refine Verified.bind fun given => Verified.bind (Verified.keep (quiet _) (free _)
      fun rows _ _ o ran => ?_)
    obtain ⟨o', updated, _, written', _⟩ := including_ok ran
    obtain ⟨moved, _, here, _, written⟩ := moved_task updated fun _ => ⟨rfl, rfl, rfl⟩
    refine rest _ _ _ (l.grown_ran rows o) ?_
    rw [written', written]
    exact tasksInto_task here

theorem verified_moveInto {workspaceId taskId userId : Id} {dto : MoveTaskDto} :
    Verified Protocol.free allow (BoardCall.moveTask workspaceId taskId userId dto).promise
      (TaskService.move workspaceId taskId userId dto) {} (fun _ => True) fun _ _ _ => True := by
  have quiet : ∀ l, (BoardCall.moveTask workspaceId taskId userId dto).promise.statement l :=
    fun _ => trivial
  have free : ∀ held, Stable (Protocol.free : Protocol Row Key) held fun _ => True :=
    fun held => Stable.const _ held True
  unfold TaskService.move
  refine Verified.bind (Verified.transaction ?_)
  refine Verified.bind (Verified.found trivial fun rows₁ task _ _ _ =>
    ⟨fun _ => True, trivial, free _, ?_⟩)
  refine Verified.bind (Verified.require fun _ => ?_)
  refine Verified.bind (Verified.found trivial fun rows₂ column _ _ hit =>
    ⟨fun _ => True, trivial, free _, ?_⟩)
  obtain ⟨own, _⟩ : column.id = dto.columnId ∧ _ := by
    simpa [scopedColumn] using List.find?_some hit
  refine Verified.bind (Verified.require fun _ => ?_)
  refine Verified.bind (verified_fromColumnName quiet (free _) fun _ l₃ grown₃ => ?_)
  refine Verified.bind (Verified.keep trivial (free _) fun rows₄ _ _ o₄ ran₄ => ?_)
  refine Verified.bind (Verified.read trivial (free _) fun rows₅ _ _ => ?_)
  refine Verified.bind (Verified.ofExcept fun slot _ => ?_)
  refine Verified.bind (Verified.read trivial (free _) fun rows₆ _ _ => ?_)
  refine Verified.bind (verified_placeInto quiet fun result B l₇ grown₇ inside => ?_)
  refine Verified.bind (verified_record trivial (free _) fun activity l₈ _ grown₈ _ => ?_)
  intro rows _ _ _ _
  refine ⟨trivial, trivial, ?_, _, trivial, free _, trivial⟩
  obtain ⟨locked, _⟩ := Statement.lockForUpdate_ok ran₄
  have pending : l₈.pending = B ++ [.put (.activity activity)] := by
    rw [grown₈.pending, grown₇.pending]
    simp [Local.ran, locked, grown₃.pending]
  change TasksInto dto.columnId l₈.pending
  rw [pending, ← own]
  exact inside.append (tasksInto_activity _ activity)

/-- The deletion of a column that has no tasks removes none. -/
theorem deletion_spares {columnId : Id} {view : List Row} {columns : List Column}
    (named : ∀ column ∈ columns, column.id = columnId) (none : NoTasks columnId view) (id : Id) :
    .del (Key.task id) ∉ deletion view (cascade view (columns.map fun column => key (toRow column : Row))) := by
  intro member
  have start : ∀ k ∈ columns.map fun column => key (toRow column : Row), k = Key.column columnId := by
    intro k listed
    obtain ⟨column, inside, rfl⟩ := List.mem_map.mp listed
    exact congrArg Key.column (named column inside)
  obtain ⟨k, doomed, same⟩ | ⟨row, _, _, emitted⟩ := mem_deletion member
  · cases same
    cases cascade_column none start _ doomed
  · obtain ⟨_, same⟩ | ⟨_, same⟩ := orphaned_history emitted <;> cases same

/-- And no deletion stores a task. -/
theorem deletion_stores_no_task {view : List Row} {keys : List Key} (task : Task) :
    .put (.task task) ∉ deletion view (cascade view keys) := by
  intro member
  obtain ⟨_, _, same⟩ | ⟨row, _, _, emitted⟩ := mem_deletion member
  · cases same
  · obtain ⟨_, same⟩ | ⟨_, same⟩ := orphaned_history emitted <;> cases same

theorem verified_removal {workspaceId columnId actorId : Id} :
    Verified Protocol.free allow (BoardCall.removeColumn workspaceId columnId actorId).promise
      (ColumnService.remove workspaceId columnId actorId) {} (fun _ => True) fun _ _ _ => True := by
  have free : ∀ held, Stable (Protocol.free : Protocol Row Key) held fun _ => True :=
    fun held => Stable.const _ held True
  unfold ColumnService.remove
  refine Verified.bind (Verified.transaction ?_)
  refine Verified.bind (Verified.found ⟨by simp, by simp, by simp⟩ fun rows₁ column _ _ _ =>
    ⟨fun _ => True, trivial, free _, ?_⟩)
  refine Verified.bind (Verified.read ⟨by simp, by simp, by simp⟩ (free _) fun rows₂ _ _ => ?_)
  refine Verified.bind (Verified.require fun counted => ?_)
  have none : NoTasks columnId rows₂ := by
    intro task member
    simpa using List.countP_eq_zero.mp (of_decide_eq_true counted) task member
  refine Verified.bind (verified_record ⟨by simp, by simp, by simpa [Local.view] using none⟩
    (free _) fun activity l₃ view₃ grown₃ seen₃ => ?_)
  have written₃ : ∀ write ∈ l₃.pending, ∃ activity, write = .put (.activity activity) := by
    intro write member
    rw [grown₃.pending] at member
    exact ⟨activity, List.mem_singleton.mp member⟩
  refine Verified.bind (Verified.keep ⟨written₃, by simp [seen₃], ?_⟩ (free _)
    fun rows₄ _ _ o ran => ?_)
  · simpa [seen₃, Local.view] using none
  refine Verified.bind (Verified.require fun _ => ?_)
  obtain ⟨_, written⟩ := Statement.deleteMany_ok ran
  intro rows _ _ _ _
  refine ⟨trivial, trivial, ⟨l₃.view rows₄, by simp [Local.ran, seen₃], ?_, fun empty id deleted => ?_⟩,
    _, trivial, free _, trivial⟩
  · intro task stored
    obtain early | late := List.mem_append.mp stored
    · obtain ⟨_, same⟩ := written₃ _ early
      cases same
    · exact deletion_stores_no_task task (written ▸ late)
  · obtain early | late := List.mem_append.mp deleted
    · obtain ⟨_, same⟩ := written₃ _ early
      cases same
    · refine deletion_spares (fun column chosen => ?_) empty id (written ▸ late)
      have scope := (List.mem_filter.mp chosen).2
      simp only [scopedColumn, Bool.and_eq_true, decide_eq_true_eq] at scope
      exact scope.1

theorem BoardCall.verified (call : BoardCall) :
    Verified Protocol.free allow call.promise call.service {} (fun _ => True) fun _ _ _ => True := by
  cases call with
  | removeColumn workspaceId columnId actorId => exact verified_removal
  | createTask workspaceId boardId userId dto => exact Verified.bind verified_createInto
  | moveTask workspaceId taskId userId dto => exact Verified.bind verified_moveInto

end Calls
section Runs

variable {ι : Type} [DecidableEq ι] {calls : ι → BoardCall}
  {s u : System ι Row Key Event Input Error Unit}

/-- A removal that has counted its tasks and has its delete still to come. -/
def Between (thread : Thread Row Key Event Input Error Unit) : Prop :=
  ¬ thread.prog.Over ∧ (thread.seen.length = 2 ∨ thread.seen.length = 3)

/-- The step commits no task into a column that a removal has counted and not deleted yet. -/
def Undisturbed (calls : ι → BoardCall) (s : System ι Row Key Event Input Error Unit)
    (action : Action ι Input Error) : Prop :=
  ∀ i j value columnId next, action = .run j value → (s.threads j).prog = .commit next →
    (calls j).Into columnId → (calls i).Removes columnId → ¬ Between (s.threads i)

/-- A column counted empty stays empty until the delete, which runs on a view that shows it so. -/
structure Counted (calls : ι → BoardCall) (s : System ι Row Key Event Input Error Unit) : Prop where
  stays : ∀ {i columnId}, (calls i).Removes columnId → ¬ (s.threads i).prog.Over →
    (s.threads i).seen.length ≤ 3 → ∀ view, (s.threads i).seen[1]? = some view →
    NoTasks columnId view → NoTasks columnId s.rows
  deleted : ∀ {i columnId}, (calls i).Removes columnId →
    ∀ view, (s.threads i).seen[3]? = some view → NoTasks columnId view

theorem NoTasks.applyAll {columnId : Id} {rows : List Row} {W : List (Write Row Key)}
    (none : NoTasks columnId rows)
    (stored : ∀ task : Task, .put (toRow task) ∈ W → task.columnId ≠ columnId) :
    NoTasks columnId (applyAll rows W) := by
  intro task member
  obtain new | ⟨old, _⟩ := mem_applyAll_cases (mem_table.mp member)
  · exact stored task new
  · exact none task (mem_table.mpr old)

theorem BoardCall.Removes.eq {call : BoardCall} {columnId : Id} (removes : call.Removes columnId) :
    ∃ workspaceId actorId, call = .removeColumn workspaceId columnId actorId := by
  cases call with
  | removeColumn workspaceId named actorId =>
      obtain rfl : named = columnId := removes
      exact ⟨workspaceId, actorId, rfl⟩
  | _ => exact removes.elim

abbrev RemovalSound (calls : ι → BoardCall) (s : System ι Row Key Event Input Error Unit) : Prop :=
  Sound Protocol.free (fun _ _ => True) (fun i => (calls i).promise) s

/-- What a commit may do to a column that a removal has counted empty. -/
theorem RemovalSound.commit_into (sound : RemovalSound calls s) {i j : ι} {value : Input}
    {columnId : Id} {next : Except Error Unit → Service Unit} {action : Action ι Input Error}
    (undisturbed : Undisturbed calls s action) (acts : action = .run j value)
    (here : (s.threads j).prog = .commit next) (removes : (calls i).Removes columnId)
    (between : Between (s.threads i)) (task : Task)
    (stored : .put (toRow task) ∈ (s.threads j).pending) : task.columnId ≠ columnId := by
  have promised := (sound.commit j here trivial).1
  have elsewhere : ∀ {target}, (calls j).Into target → TasksInto target (s.threads j).pending →
      task.columnId ≠ columnId := by
    rintro target into tasks rfl
    obtain ⟨_, same⟩ | ⟨_, same, there⟩ := tasks _ stored
    · cases same
    · cases same
      exact undisturbed i j value _ next acts here (there ▸ into) removes between
  cases call : calls j with
  | removeColumn workspaceId named actorId =>
      simp only [call] at promised
      obtain ⟨_, _, storesNone, _⟩ := promised
      exact absurd stored (storesNone task)
  | createTask workspaceId boardId userId dto =>
      simp only [call] at promised
      exact elsewhere (by rw [call]; rfl) promised
  | moveTask workspaceId taskId userId dto =>
      simp only [call] at promised
      exact elsewhere (by rw [call]; rfl) promised

/-- Under nothing but audit rows the tasks are the committed ones. -/
theorem noTasks_audited {columnId : Id} {rows : List Row} {W : List (Write Row Key)}
    (audits : ∀ write ∈ W, ∃ activity, write = .put (.activity activity)) :
    NoTasks columnId (applyAll rows W) ↔ NoTasks columnId rows := by
  have same : ∀ task : Task, toRow task ∈ applyAll rows W ↔ toRow task ∈ rows := by
    refine fun task => mem_applyAll_untouched W fun written => ?_
    obtain ⟨write, member, target⟩ := List.mem_map.mp written
    obtain ⟨activity, rfl⟩ := audits write member
    cases target
  simp only [NoTasks, mem_table, same]

theorem view_shown {seen : List (List Row)} {last view : List Row} {n : Nat}
    (shown : (seen ++ [last])[n]? = some view) :
    seen[n]? = some view ∨ (n = seen.length ∧ view = last) := by
  obtain before | after := Nat.lt_or_ge n seen.length
  · exact Or.inl (by rwa [List.getElem?_append_left before] at shown)
  · rw [List.getElem?_append_right after] at shown
    obtain ⟨inside, same⟩ := List.getElem?_eq_some_iff.mp shown
    have zero : n - seen.length = 0 := by simpa using inside
    refine Or.inr ⟨by omega, ?_⟩
    simpa [zero] using same.symm

/-- The removal's own steps. -/
theorem Counted.own_step (sound : RemovalSound calls s) (counted : Counted calls s) {i : ι}
    {action : Action ι Input Error} (effect : System.Effect s u i action) {columnId : Id}
    (removes : (calls i).Removes columnId) :
    (¬ (u.threads i).prog.Over → (u.threads i).seen.length ≤ 3 →
      ∀ view, (u.threads i).seen[1]? = some view → NoTasks columnId view → NoTasks columnId u.rows) ∧
    ∀ view, (u.threads i).seen[3]? = some view → NoTasks columnId view := by
  obtain ⟨workspaceId, actorId, call⟩ := removes.eq
  cases effect with
  | moved rows seen ended =>
      rw [rows, seen]
      exact ⟨fun left => counted.stays removes fun done => left (ended done), counted.deleted removes⟩
  | committed value next acts here rows thread =>
      have promised := (sound.commit i here trivial).1
      simp only [call] at promised
      obtain ⟨view, fourth, _⟩ := promised
      have long : 3 < (s.threads i).seen.length := (List.getElem?_eq_some_iff.mp fourth).1
      simp only [thread]
      exact ⟨fun _ short => absurd short (by omega), counted.deleted removes⟩
  | ran exec next o here answered rows thread =>
      have waits := sound.waits here
      simp only [call] at waits
      obtain ⟨audits, short, counts⟩ := waits
      have left : ¬ (s.threads i).prog.Over := by rw [here]; exact id
      have length : (s.threads i).seen.length ≤ 3 := short
      simp only [thread, rows]
      refine ⟨fun _ within view shown none => ?_, fun view shown => ?_⟩
      · rw [List.length_append, List.length_singleton] at within
        obtain early | ⟨second, rfl⟩ := view_shown shown
        · exact counted.stays removes left (by omega) view early none
        · exact (noTasks_audited audits).mp none
      · obtain early | ⟨fourth, rfl⟩ := view_shown shown
        · exact counted.deleted removes view early
        · have second : (s.threads i).seen[1]? = some (s.threads i).seen[1] := by
            simp
          exact (noTasks_audited audits).mpr
            (counted.stays removes left length _ second (counts _ second))

/-- A removal keeps what it has counted over every step of any thread. -/
theorem Counted.step (sound : RemovalSound calls s) (counted : Counted calls s)
    {action : Action ι Input Error} (undisturbed : Undisturbed calls s action)
    (stepped : s.step action = some u) : Counted calls u := by
  obtain ⟨effect, others⟩ := System.step_effect stepped
  have kept : ∀ {i columnId}, (calls i).Removes columnId →
      (¬ (u.threads i).prog.Over → (u.threads i).seen.length ≤ 3 →
        ∀ view, (u.threads i).seen[1]? = some view → NoTasks columnId view →
          NoTasks columnId u.rows) ∧
      ∀ view, (u.threads i).seen[3]? = some view → NoTasks columnId view := by
    intro i columnId removes
    by_cases own : i = action.actor
    · subst own
      exact counted.own_step sound effect removes
    · rw [others i own]
      refine ⟨fun left short view second none => ?_, counted.deleted removes⟩
      have empty := counted.stays removes left short view second none
      cases effect with
      | moved rows => exact rows ▸ empty
      | ran _ _ _ _ _ rows => exact rows ▸ empty
      | committed value next acts here rows =>
          have long : 1 < (s.threads i).seen.length := (List.getElem?_eq_some_iff.mp second).1
          have between : Between (s.threads i) := ⟨left, by omega⟩
          rw [rows]
          exact empty.applyAll (sound.commit_into undisturbed acts here removes between)
  exact ⟨fun removes => (kept removes).1, fun removes => (kept removes).2⟩

omit [DecidableEq ι] in
theorem Counted.initial {rows : List Row} : Counted calls
    ({ rows, threads := fun i => { prog := (calls i).service } } :
      System ι Row Key Event Input Error Unit) where
  stays _ _ _ view shown := by simp at shown
  deleted _ view shown := by simp at shown

/-- Writes that remove no task leave every task there, as it was or as it was put. -/
theorem tasks_stay {rows : List Row} {W : List (Write Row Key)}
    (spares : ∀ id, .del (Key.task id) ∉ W) {task : Task} (member : task ∈ (table rows : List Task)) :
    ∃ after ∈ (table (applyAll rows W) : List Task), after.id = task.id := by
  by_cases written : Key.task task.id ∈ touched W
  · obtain ⟨row, there, same, after, rfl⟩ := exists_mem_applyAll rows
      (Q := fun row => ∃ after : Task, row = toRow after) written (by
        intro write stored target
        cases write with
        | del k =>
            obtain rfl : k = Key.task task.id := target
            exact absurd stored (spares task.id)
        | put row =>
            obtain ⟨after, same⟩ := taskPositions.exists_toRow (target : key row = Key.task task.id)
            exact ⟨row, rfl, after, same.symm⟩)
    exact ⟨after, mem_table.mpr there, Key.task.inj same⟩
  · exact ⟨task, mem_table.mpr ((mem_applyAll_untouched W written).mpr (mem_table.mp member)), rfl⟩

/-- Where no create or move commits a task into a column between a removal's count of
it and its delete, no commit takes a task away, and a removal only commits when the
delete saw its column without tasks. -/
theorem removals_keep_tasks (calls : ι → BoardCall) {rows : List Row}
    (run : System.Reaches (Undisturbed calls)
      { rows, threads := fun i => { prog := (calls i).service } } s)
    (i : ι) {next : Except Error Unit → Service Unit} (here : (s.threads i).prog = .commit next) :
    (∀ task ∈ (table s.rows : List Task),
      ∃ after ∈ (table (applyAll s.rows (s.threads i).pending) : List Task), after.id = task.id) ∧
    ∀ columnId, (calls i).Removes columnId →
      ∃ view, (s.threads i).seen[3]? = some view ∧ NoTasks columnId view := by
  have start : RemovalSound calls
      ({ rows, threads := fun i => { prog := (calls i).service } } :
        System ι Row Key Event Input Error Unit) :=
    Sound.initial trivial fun i => (calls i).verified
  obtain ⟨sound, counted⟩ := run.invariant (P := fun s => RemovalSound calls s ∧ Counted calls s)
    (fun ⟨sound, counted⟩ undisturbed stepped =>
      ⟨sound.step (fun _ _ _ _ _ => trivial) stepped, counted.step sound undisturbed stepped⟩)
    ⟨start, Counted.initial⟩
  have promised := (sound.commit i here trivial).1
  have into : ∀ {columnId}, TasksInto columnId (s.threads i).pending →
      ∀ id, .del (Key.task id) ∉ (s.threads i).pending := by
    intro columnId tasks id deleted
    obtain ⟨_, same⟩ | ⟨_, same, _⟩ := tasks _ deleted <;> cases same
  cases call : calls i with
  | removeColumn workspaceId columnId actorId =>
      simp only [call] at promised
      obtain ⟨view, fourth, _, spares⟩ := promised
      have empty : NoTasks columnId view := counted.deleted (by rw [call]; rfl) view fourth
      refine ⟨fun task member => tasks_stay (spares empty) member, fun named removes => ?_⟩
      obtain rfl : columnId = named := removes
      exact ⟨view, fourth, empty⟩
  | createTask workspaceId boardId userId dto =>
      simp only [call] at promised
      exact ⟨fun task member => tasks_stay (into promised) member, fun _ removes => removes.elim⟩
  | moveTask workspaceId taskId userId dto =>
      simp only [call] at promised
      exact ⟨fun task member => tasks_stay (into promised) member, fun _ removes => removes.elim⟩

end Runs

/-- One column is removed while a task is created in another. -/
def apartCalls : Caller → BoardCall
  | .ann => .removeColumn "w" "d" "ann"
  | .bob => .createTask "w" "b" "bob" { title := "Write", columnId := "c" }

def removalRows : List Row := sampleWorkspace ++ [
  .column { id := "c", boardId := "b", name := "To Do", position := 1000 },
  .column { id := "d", boardId := "b", name := "Done", position := 2000 }]

theorem apartCalls_undisturbed (s : System Caller Row Key Event Input Error Unit)
    (action : Action Caller Input Error) : Undisturbed apartCalls s action := by
  intro i j _ columnId _ _ _ into removes
  have created : "c" = columnId := match j, into with
    | .ann, into => into.elim
    | .bob, into => into
  have removed : "d" = columnId := match i, removes with
    | .ann, removes => removes
    | .bob, removes => removes.elim
  exact absurd (created.trans removed.symm) (by decide)

/-- The removal has run its delete, and the create has ended in between. -/
def apartEnd : System Caller Row Key Event Input Error Unit :=
  (System.runs { rows := removalRows, threads := fun i => { prog := (apartCalls i).service } }
    (turns (List.replicate 2 .ann ++ List.replicate 10 .bob ++ List.replicate 3 .ann))).get
      (by decide +kernel)

theorem removals_keep_tasks_apart :
    (∀ task ∈ (table apartEnd.rows : List Task),
      ∃ after ∈ (table (applyAll apartEnd.rows (apartEnd.threads .ann).pending) : List Task),
        after.id = task.id) ∧
    ∀ columnId, (apartCalls .ann).Removes columnId →
      ∃ view, (apartEnd.threads .ann).seen[3]? = some view ∧ NoTasks columnId view := by
  obtain ⟨next, here⟩ := of_commits (p := (apartEnd.threads .ann).prog) (by decide +kernel)
  exact removals_keep_tasks apartCalls
    (.of_runs apartCalls_undisturbed _ (Option.some_get _).symm) .ann here

/-- A column is removed while a task is created in it. -/
def removalCalls : Caller → BoardCall
  | .ann => .removeColumn "w" "c" "ann"
  | .bob => .createTask "w" "b" "bob" { title := "Write", columnId := "c" }

def removalStart : System Caller Row Key Event Input Error Unit :=
  { rows := removalRows, threads := fun i => { prog := (removalCalls i).service } }

/-- The removal counts, the create runs to its end, and the removal goes on. -/
def losingOrder : List Caller :=
  List.replicate 2 .ann ++ List.replicate 10 .bob ++ List.replicate 5 .ann

/-- Both succeed, and the created task is gone with the column. -/
theorem removal_destroys_task :
    ((removalStart.runs (turns losingOrder)).map fun s =>
      ((s.threads .ann).prog.succeeded, (s.threads .bob).prog.succeeded,
        (table s.rows : List Task).length)) =
      some (true, true, 0) ∧
    ((removalStart.runs (turns (losingOrder.take 12))).map fun s => (table s.rows : List Task).length) =
      some 1 := by
  decide +kernel

end Kurul
