import Kurul.Audit.Trail
import Kurul.Task.TaskService

/-! The move history of one task under interleaved moves. A move reads the column it comes
from before it waits for the target column, so the history is a path only where no other move
has committed in between. -/
namespace Kurul

open Store Prog

/-- The entry tells the two columns. -/
def TellsMove (before : Option Id) (entry : Activity) (after : Option Id) : Prop :=
  ∃ source target, before = some source ∧ after = some target ∧
    entry.payload.lookup "fromColumnId" = some (.scalar (.text source)) ∧
    entry.payload.lookup "toColumnId" = some (.scalar (.text target))

/-- Where a task is, and its moves. -/
def moveTrail (taskId : Id) : Journal Row (Option Id) Activity where
  state rows := ((table rows : List Task).find? (·.id = taskId)).map Task.columnId
  entries rows := (table rows : List Activity).filter fun entry =>
    entry.type = .TaskMoved && entry.taskId = some taskId
  tells := TellsMove

/-- The column that entries lead to; none where one of them leaves another column than the one
that is reached. -/
def follow (start : Option Id) (entries : List Activity) : Option Id :=
  entries.foldl (fun here entry => here.bind fun source =>
    if entry.payload.lookup "fromColumnId" = some (.scalar (.text source)) then
      match entry.payload.lookup "toColumnId" with
      | some (.scalar (.text target)) => some target
      | _ => none
    else none) start

theorem follow_of_path {start last : Option Id} {entries : List Activity}
    (path : Path TellsMove start entries last) : follow start entries = last := by
  induction entries generalizing start with
  | nil => exact path
  | cons entry rest ih =>
      obtain ⟨_, ⟨source, target, rfl, rfl, left, entered⟩, later⟩ := path
      simpa [follow, left, entered] using ih later

structure MoveTaskCall where
  workspaceId : Id
  userId : Id
  dto : MoveTaskDto

def MoveTaskCall.service (call : MoveTaskCall) (taskId : Id) : Service TaskDto :=
  TaskService.move call.workspaceId taskId call.userId call.dto

/-- Only tasks are written, and the moved one into its target column. -/
structure Placed (taskId target : Id) (W : List (Write Row Key)) : Prop where
  written : Key.task taskId ∈ touched W
  tasks : ∀ write ∈ W, ∃ task : Task, write = .put (toRow task) ∧ (task.id = taskId → task.columnId = target)

section Move

variable {taskId target : Id} {rows : List Row} {W : List (Write Row Key)}

theorem moveTrail_state (unique : UniqueKeys rows) {task : Task} (stored : toRow task ∈ rows)
    (own : task.id = taskId) : (moveTrail taskId).state rows = some task.columnId := by
  have found := find?_table_eq unique (fun other : Task => decide (other.id = taskId)) stored
    (by simpa using own) (by
      intro other passes
      have same : other.id = task.id := (of_decide_eq_true passes).trans own.symm
      simp [key, toRow, Row.key, same])
  simp [moveTrail, found]

theorem Placed.elsewhere (placed : Placed taskId target W) : ∀ write ∈ W, write.Elsewhere Activity := by
  intro write member
  obtain ⟨task, rfl, _⟩ := placed.tasks write member
  simp [Write.Elsewhere, Write.target, key, toRow, Row.key]

/-- A move and the entry about it. -/
theorem Placed.step {source : Id} {activity : Activity} (placed : Placed taskId target W)
    (unique : UniqueKeys rows) (absent : ∀ row ∈ rows, key row ≠ Key.activity activity.id)
    (type : activity.type = .TaskMoved) (about : activity.taskId = some taskId)
    (was : (moveTrail taskId).state rows = some source)
    (left : activity.payload.lookup "fromColumnId" = some (.scalar (.text source)))
    (entered : activity.payload.lookup "toColumnId" = some (.scalar (.text target))) :
    (moveTrail taskId).Step rows (applyAll rows (W ++ [.put (toRow activity)])) := by
  right
  refine ⟨activity, ?_, source, target, was, ?_, left, entered⟩
  · have added := table_insert placed.elsewhere absent
    simp [moveTrail, added, List.filter_append, type, about]
  · have written : Key.task taskId ∈ touched (W ++ [.put (toRow activity)]) := by
      rw [touched_append]
      exact List.mem_append_left _ placed.written
    have puts : ∀ write ∈ W ++ [.put (toRow activity)], write.target = Key.task taskId →
        ∃ row, write = .put row ∧ ∃ task : Task, row = toRow task ∧ task.id = taskId ∧ task.columnId = target := by
      intro write member here
      rcases List.mem_append.mp member with placing | recording
      · obtain ⟨task, rfl, moved⟩ := placed.tasks write placing
        have own : task.id = taskId := by simpa [Write.target, key, toRow, Row.key] using here
        exact ⟨_, rfl, task, rfl, own, moved own⟩
      · rw [List.mem_singleton.mp recording] at here
        simp [Write.target, key, toRow, Row.key] at here
    obtain ⟨row, stored, _, task, rfl, own, there⟩ := exists_mem_applyAll rows written puts
    rw [moveTrail_state (unique.applyAll _) stored own, there]

end Move

section Calls

variable {taskId : Id} {allow : Assertion Row} {promise : Promise Row Key} {l : Local Row Key}

/-- A later point of the call, these writes further on; the views have only grown. -/
structure Since (l l' : Local Row Key) (W : List (Write Row Key)) : Prop where
  pending : l'.pending = l.pending ++ W
  seen : l.seen <+: l'.seen

theorem Since.trans {l l' l'' : Local Row Key} {W W' : List (Write Row Key)} (first : Since l l' W)
    (second : Since l' l'' W') : Since l l'' (W ++ W') :=
  ⟨by rw [second.pending, first.pending, List.append_assoc], first.seen.trans second.seen⟩

theorem Since.refl (l : Local Row Key) : Since l l [] := ⟨by simp, List.prefix_rfl⟩

theorem since_read (l : Local Row Key) (rows : List Row) :
    Since l { l with seen := l.seen ++ [l.view rows] } [] :=
  ⟨by simp, List.prefix_append ..⟩

theorem since_ran {β : Type} (l : Local Row Key) (rows : List Row) (o : Outcome Row Key β) :
    Since l (l.ran rows o) o.writes :=
  ⟨rfl, List.prefix_append ..⟩

theorem verified_nameOfColumn {fromColumnId : Id} {targetColumn : Column}
    {post : String → Local Row Key → Assertion Row → Prop} (quiet : ∀ l, promise.statement l)
    (rest : ∀ name l', Since l l' [] → post name l' fun _ => True) :
    Verified Protocol.unique allow promise (TaskService.fromColumnName fromColumnId targetColumn) l
      (fun _ => True) post := by
  unfold TaskService.fromColumnName
  split
  · exact rest _ l (.refl l)
  · apply Verified.bind
    apply Verified.read (quiet _) (Stable.const _ _ True)
    exact fun rows _ _ => rest _ _ (since_read l rows)

/-- The batch rewrites rows of the target column only. -/
theorem verified_batch {columnId : Id} {updates : List Sibling}
    {post : Unit → Local Row Key → Assertion Row → Prop} (quiet : ∀ l, promise.statement l)
    (rest : ∀ W l', Since l l' W →
      (∀ write ∈ W, ∃ task : Task, write = .put (toRow task) ∧ task.columnId = columnId) →
      post () l' fun _ => True) :
    Verified Protocol.unique allow promise (batchUpdateTaskPositions columnId updates) l (fun _ => True)
      post := by
  unfold batchUpdateTaskPositions Positioning.batchUpdate
  split
  · exact rest [] l (.refl l) (by simp)
  · apply Verified.bind
    apply Verified.keep (quiet _) (Stable.const _ _ True)
    intro rows _ _ o ran
    apply rest _ _ (since_ran l rows o)
    obtain ⟨_, written⟩ := Statement.updateMany_ok ran
    intro write member
    rw [written] at member
    obtain ⟨task, chosen, rfl⟩ := List.mem_map.mp member
    have inColumn := (List.mem_filter.mp chosen).2
    simp only [Bool.and_eq_true, decide_eq_true_eq] at inColumn
    exact ⟨_, rfl, inColumn.2⟩

/-- The write of the moved task itself. -/
theorem moved_write {workspaceId target : Id} {change : Task → Task} {view : List Row}
    {o : Outcome Row Key Task}
    (ran : (Statement.update (scopedTask workspaceId taskId) change view : Except Error _) = .ok o)
    (moves : ∀ task, (change task).id = task.id ∧ (change task).columnId = target) :
    Placed taskId target o.writes := by
  obtain ⟨row, _, chosen, _, written⟩ := Statement.update_ok ran
  obtain ⟨own, _⟩ : row.id = taskId ∧ _ := by simpa [scopedTask] using chosen
  rw [written]
  constructor
  · simp [touched, Write.target, key, toRow, Row.key, (moves row).1, own]
  · intro write member
    cases List.mem_singleton.mp member
    exact ⟨change row, rfl, fun _ => (moves row).2⟩

theorem verified_placing {workspaceId target : Id} {task : TaskRow} {remaining : List Sibling}
    {slot : InsertionSlot} {n : Nat} {post : TaskDto → Local Row Key → Assertion Row → Prop}
    (quiet : ∀ l, promise.statement l)
    (rest : ∀ result W l', Since l l' W → Placed task.task.id target W → post result l' fun _ => True) :
    Verified Protocol.unique allow promise
      (TaskService.place workspaceId task target remaining slot n) l (fun _ => True) post := by
  unfold TaskService.place
  dsimp only
  split
  · apply Verified.bind
    intro given
    apply Verified.bind
    apply Verified.keep (quiet _) (Stable.const _ _ True)
    intro rows _ _ o ran
    have placed : Placed task.task.id target o.writes := moved_write ran fun _ => ⟨rfl, rfl⟩
    apply Verified.bind
    apply verified_batch quiet
    intro W l' since inColumn
    apply rest _ _ l' ((since_ran l rows o).trans since)
    constructor
    · rw [touched_append]
      exact List.mem_append_left _ placed.written
    · intro write member
      rcases List.mem_append.mp member with own | other
      · exact placed.tasks write own
      · obtain ⟨task, rfl, there⟩ := inColumn write other
        exact ⟨task, rfl, fun _ => there⟩
  · apply Verified.bind
    intro given
    apply Verified.bind
    apply Verified.keep (quiet _) (Stable.const _ _ True)
    intro rows _ _ o ran
    obtain ⟨_, updated, _, written, _⟩ := including_ok ran
    apply rest _ _ _ (since_ran l rows o)
    rw [written]
    exact moved_write updated fun _ => ⟨rfl, rfl⟩

/-- A move that is honest about where it came from. -/
def movePromise (taskId : Id) : Promise Row Key where
  commit l rows := SinceRead (moveTrail taskId).state l rows → (moveTrail taskId).Step rows (l.view rows)

theorem verified_moveTask (call : MoveTaskCall) (taskId : Id) :
    Verified Protocol.unique allow (movePromise taskId) (call.service taskId) {} (fun _ => True)
      fun _ _ _ => True := by
  have quiet : ∀ l, (movePromise taskId).statement l := fun _ => trivial
  unfold MoveTaskCall.service TaskService.move
  apply Verified.bind
  apply Verified.transaction
  refine Verified.bind (Verified.found trivial fun view task unique _ hit =>
    ⟨fun _ => True, trivial, Stable.const _ _ True, ?_⟩)
  obtain ⟨row, chosen, rfl⟩ := Option.map_eq_some_iff.mp hit
  obtain ⟨own, _⟩ : row.id = taskId ∧ _ := by simpa [scopedTask] using List.find?_some chosen
  have stored : toRow row ∈ view := mem_table.mp (List.mem_of_find?_eq_some chosen)
  refine Verified.bind (Verified.require fun _ => ?_)
  refine Verified.bind (Verified.found trivial fun rows target _ _ _ =>
    ⟨fun _ => True, trivial, Stable.const _ _ True, ?_⟩)
  refine Verified.bind (Verified.require fun _ => ?_)
  refine Verified.bind (verified_nameOfColumn quiet fun name l₁ since₁ => ?_)
  refine Verified.bind (Verified.keep trivial (Stable.const _ _ True) fun rows₂ _ _ o locked => ?_)
  have since₂ := since_ran l₁ rows₂ o
  rw [(Statement.lockForUpdate_ok locked).1] at since₂
  refine Verified.bind (Verified.read trivial (Stable.const _ _ True) fun rows₃ _ _ => ?_)
  refine Verified.bind (Verified.ofExcept fun slot _ => ?_)
  refine Verified.bind (Verified.read trivial (Stable.const _ _ True) fun rows₄ _ _ => ?_)
  refine Verified.bind (verified_placing quiet fun result W l₅ since₅ placed => ?_)
  have all := (((since₁.trans since₂).trans (since_read _ rows₃)).trans (since_read _ rows₄)).trans since₅
  have first : l₅.seen.head? = some view := by
    obtain ⟨later, same⟩ := all.seen
    rw [← same]
    rfl
  have pending : l₅.pending = W := by simpa using all.pending
  have placed : Placed row.id target.id W := placed
  rw [own] at placed
  refine Verified.bind (verified_recorded trivial (Stable.const _ _ True) (pending ▸ placed.elsewhere)
    fun activity l₆ view₆ type about payload written seen _ => ?_)
  intro rows unique' fact _ _
  refine ⟨unique'.applyAll _, trivial, ?_, _, trivial, Stable.const _ _ True, trivial⟩
  intro since
  have was : (moveTrail taskId).state rows = some row.columnId := by
    rw [since view (by rw [seen, List.head?_append, first]; rfl)]
    exact moveTrail_state unique stored own
  rw [Local.view, written, pending]
  apply placed.step unique' fact.2 type about was
  · rw [payload]
    rfl
  · rw [payload]
    rfl

end Calls

/-- Where no move commits between another's read and its commit, the history of the task is a
path from its first column to the one it is in. -/
theorem move_history_is_path {ι : Type} [DecidableEq ι] {rows : List Row} (unique : UniqueKeys rows)
    (taskId : Id) (calls : ι → MoveTaskCall) (s : System ι Row Key Event Input Error TaskDto)
    (run : System.Reaches (ReadLast (moveTrail taskId).state)
      { rows, threads := fun i => { prog := (calls i).service taskId } } s) :
    (moveTrail taskId).Traced rows s.rows := by
  have sound : Sound Protocol.unique (fun _ _ => True) (fun _ => movePromise taskId)
      ({ rows, threads := fun i => { prog := (calls i).service taskId } } :
        System ι Row Key Event Input Error TaskDto) :=
    .initial unique fun i => verified_moveTask (calls i) taskId
  exact Journal.traced_of_reaches (J := moveTrail taskId)
    (fun _ => SinceRead (moveTrail taskId).state) sound (fun _ _ => trivial)
    (fun _ _ _ told since => told since) run

/-- Ann moves the card to one column, Bob to another. -/
def cardMoves : Caller → MoveTaskCall
  | .ann => { workspaceId := "w", userId := "ann", dto := { columnId := "c2" } }
  | .bob => { workspaceId := "w", userId := "bob", dto := { columnId := "c3" } }

def oneCard : System Caller Row Key Event Input Error TaskDto where
  rows := sampleWorkspace ++ [
    .column { id := "c1", boardId := "b", name := "To Do", position := 1000 },
    .column { id := "c2", boardId := "b", name := "Doing", position := 2000 },
    .column { id := "c3", boardId := "b", name := "Done", position := 3000 },
    .task { id := "t", boardId := "b", columnId := "c1", title := "Write", position := 1000, createdById := "ann" }]
  threads i := { prog := (cardMoves i).service "t" }

/-- Bob reads the card's column, and Ann moves it on. -/
def movedMeanwhile : List (Action Caller Input Error) := inTurn .bob 1 1 ++ inTurn .ann 10 11 ++ inTurn .bob 30 10

theorem move_history_broken :
    ∃ s, oneCard.runs movedMeanwhile = some s ∧ ¬ (moveTrail "t").Traced oneCard.rows s.rows := by
  have broken : ((oneCard.runs movedMeanwhile).map fun s =>
      decide (follow ((moveTrail "t").state oneCard.rows) ((moveTrail "t").entries s.rows) =
        (moveTrail "t").state s.rows)) = some false := by decide +kernel
  obtain ⟨s, ran, differs⟩ := Option.map_eq_some_iff.mp broken
  refine ⟨s, ran, ?_⟩
  rintro ⟨since, recorded, path⟩
  have none_ : (moveTrail "t").entries oneCard.rows = [] := by decide +kernel
  rw [none_, List.nil_append] at recorded
  rw [recorded, follow_of_path path] at differs
  simp at differs

/-- One move after the other. -/
def moveByMove : List (Action Caller Input Error) := inTurn .ann 1 11 ++ inTurn .bob 20 11

theorem move_history_moveByMove :
    ∃ s, oneCard.runsChecked (readLast (moveTrail "t").state) moveByMove = some s ∧
      (moveTrail "t").Traced oneCard.rows s.rows := by
  have runs : (oneCard.runsChecked (readLast (moveTrail "t").state) moveByMove).isSome := by decide +kernel
  obtain ⟨s, ran⟩ := Option.isSome_iff_exists.mp runs
  refine ⟨s, ran, ?_⟩
  exact move_history_is_path (by decide +kernel) "t" cardMoves s
    (.of_runsChecked (fun _ _ passed => readLast_sound _ passed) moveByMove ran)

end Kurul
