import Kurul.Board.BoardService
import Kurul.Task.ChecklistService
import Kurul.Task.LabelService
import Kurul.Task.TaskService
import Kurul.Workspace.Tenants

/-! The calls that write the boards of a workspace and what is on them: each is a program of
a run for that workspace. -/
namespace Kurul

open Store Prog

variable {w b t u : Id} {keys : List Key}

section Tasks

theorem claim_task {task : Task} (board : Key.board task.boardId ∈ keys) (column : Key.column task.columnId ∈ keys) :
    Claim w keys (toRow task : Row) where
  owned := by simp [home, toRow, Row.home]
  mine := by simp [home, toRow, Row.home]
  refs := by
    simp only [toRow, refs, Row.refs, Reference.cascades, Reference.restricts, List.mem_cons, List.not_mem_nil, or_false]
    rintro ref (rfl | rfl | rfl)
    · exact .inl board
    · exact .inl column
    · exact known_user

theorem serves_createTask {dto : CreateTaskDto} : (TaskService.create w b u dto).Serves w keys fun _ more => more = [] := by
  apply serves_assertBoard.bind
  rintro board _ ⟨_, rfl⟩
  refine Serves.bind (Serves.findFirst fun view _ _ column _ chosen => ?_) ?_
  · simp only [Bool.and_eq_true, decide_eq_true_eq] at chosen
    exact of_board chosen.2 (by rw [← chosen.1.2]; rfl)
  rintro column _ ⟨⟨_, chosen⟩, rfl⟩
  refine Serves.ofExcept.andThen fun attributes => ?_
  refine serves_announced (Serves.transaction ?_)
  refine (Serves.query Statement.Serves.lock).andThen fun _ => ?_
  refine Serves.ask.andThen fun siblings => ?_
  refine Serves.ofExcept.andThen fun slot => ?_
  refine (serves_createPosition below_tasks (by simp [taskPositions, key, Row.key, toRow]) siblings slot).andThen
    fun position => ?_
  refine serves_fresh.andThen fun given => ?_
  refine (Serves.query (Statement.Serves.create (claim_task ?_ ?_))).bind ?_
  · simp
  · simp [key, Row.key, toRow]
  · rintro created _ ⟨rfl, rfl⟩
    refine Serves.bind (serves_record rfl ?_) fun _ _ _ => ?_
    · rintro t ⟨⟩
      exact List.mem_cons_self
    · exact Serves.tell (by simp [toTaskDetailDto, toTaskCore, emptyTaskRelations])

theorem serves_updateTask {dto : UpdateTaskDto} : (TaskService.update w t u dto).Serves w keys fun _ more => more = [] := by
  apply serves_findTask.bind
  rintro existing _ ⟨same, rfl⟩
  refine Serves.ofExcept.andThen fun (data, changes) => ?_
  dsimp only
  split
  · exact Serves.pure rfl
  · refine serves_announced (Serves.transaction ?_)
    refine Serves.bind (Serves.findFirst mine_task) fun _ _ _ => ?_
    refine serves_fresh.andThen fun given => ?_
    refine Serves.bind (Serves.query (serves_including (Statement.Serves.update mine_task ?_ ?_ ?_))) ?_
    · exact fun _ => rfl
    · exact fun _ => rfl
    · exact fun _ _ listed => .inl listed
    rintro _ _ ⟨_, updated, rfl, rfl⟩
    refine Serves.bind (serves_record rfl ?_) fun _ _ _ => ?_
    · rintro t ⟨⟩
      simp
    · exact serves_countAttachments.andThen fun _ => Serves.tell (by simp [toTaskDetailDto, toTaskCore, taskDetailInclude, taskListInclude, toRow, Reference.cascades, refs, Row.refs])

theorem serves_removeTask : (TaskService.remove w t u).Serves w keys fun _ more => more = [] := by
  refine serves_announced (Serves.transaction ?_)
  refine Serves.bind (Serves.findFirst mine_task) ?_
  rintro row _ ⟨_, rfl⟩
  refine Serves.bind (serves_record rfl (by simp)) fun _ _ _ => ?_
  refine (Serves.query (Statement.Serves.deleteMany mine_task)).andThen fun _ => ?_
  exact Serves.require.andThen fun _ => Serves.tell (by simp [toRow, refs, Row.refs, Reference.cascades])

theorem serves_placeTask {task : TaskRow} {columnId : Id} {remaining : List Sibling} {slot : InsertionSlot} {count : Nat}
    (column : Key.column columnId ∈ keys) (board : Key.board task.task.boardId ∈ keys) :
    (TaskService.place w task columnId remaining slot count).Serves w keys fun result more =>
      Key.board result.boardId ∈ more := by
  have references : ∀ (position : ℚ) (now : DateTime) (row : Task), ∀ ref ∈ refs (toRow
      { row with columnId := columnId, position := position, updatedAt := now } : Row),
        ref ∈ refs (toRow row : Row) ∨ Known Row w keys ref.target := by
    intro position now row
    simp only [toRow, refs, Row.refs, List.mem_cons, List.not_mem_nil, or_false]
    rintro ref (rfl | rfl | rfl)
    · exact .inl (.inl rfl)
    · exact .inr (.inl column)
    · exact .inl (.inr (.inr rfl))
  unfold TaskService.place
  dsimp only
  split
  · refine serves_fresh.andThen fun given => ?_
    refine Serves.bind (Serves.query (Statement.Serves.update mine_task ?_ ?_ ?_)) fun _ _ _ => ?_
    · exact fun _ => rfl
    · exact fun _ => rfl
    · exact references _ _
    refine (serves_batchUpdate below_tasks ?_ _).andThen fun _ => Serves.tell ?_
    · exact List.mem_append_right _ column
    · exact List.mem_append_right _ board
  · refine serves_fresh.andThen fun given => ?_
    refine Serves.bind (Serves.query (serves_including (Statement.Serves.update mine_task ?_ ?_ ?_))) ?_
    · exact fun _ => rfl
    · exact fun _ => rfl
    · exact references _ _
    rintro _ _ ⟨_, updated, rfl, rfl⟩
    exact Serves.tell (by simp [toTaskDetailDto, toTaskCore, taskDetailInclude, taskListInclude, toRow, Reference.cascades, refs, Row.refs])

theorem serves_moveTask {dto : MoveTaskDto} : (TaskService.move w t u dto).Serves w keys fun _ more => more = [] := by
  refine serves_announced (Serves.transaction ?_)
  refine serves_findTaskDetail.bind ?_
  rintro task _ ⟨same, rfl⟩
  refine Serves.require.andThen fun _ => ?_
  refine serves_findColumn.bind ?_
  rintro column _ ⟨here, rfl⟩
  rw [← here]
  refine Serves.require.andThen fun _ => ?_
  dsimp only
  refine Serves.andThen ?_ fun name => ?_
  · unfold TaskService.fromColumnName
    split
    · exact Serves.pure rfl
    · exact Serves.ask.andThen fun _ => Serves.pure rfl
  refine (Serves.query Statement.Serves.lock).andThen fun _ => ?_
  refine Serves.ask.andThen fun siblings => ?_
  refine Serves.ofExcept.andThen fun slot => ?_
  refine serves_countAttachments.andThen fun count => ?_
  refine (serves_placeTask (by simp) (by simp)).bind fun result more met => ?_
  refine Serves.bind (serves_record rfl ?_) fun _ _ _ => Serves.tell (by simp [met])
  rintro t ⟨⟩
  simp

end Tasks

section Columns

theorem claim_column {column : Column} (board : Key.board column.boardId ∈ keys) : Claim w keys (toRow column : Row) where
  owned := by simp [home, toRow, Row.home]
  mine := by simp [home, toRow, Row.home]
  refs := by
    simp only [toRow, refs, Row.refs, Reference.cascades, List.mem_cons, List.not_mem_nil, or_false]
    rintro ref rfl
    exact .inl board

theorem serves_createColumn {dto : CreateColumnDto} :
    (ColumnService.create w b u dto).Serves w keys fun _ more => more = [] := by
  apply serves_assertBoard.bind
  rintro board _ ⟨_, rfl⟩
  refine Serves.told (fun created => Key.board created.boardId) (Serves.transaction ?_) fun created known met => ?_
  · refine (Serves.query Statement.Serves.lock).andThen fun _ => ?_
    refine Serves.ask.andThen fun columns => ?_
    refine Serves.ofExcept.andThen fun slot => ?_
    refine (serves_createPosition below_columns (by simp [columnPositions]) columns slot).andThen fun position => ?_
    refine serves_fresh.andThen fun given => ?_
    refine Serves.bind (Serves.query (serves_including (Statement.Serves.create (claim_column ?_)))) ?_
    · simp
    rintro _ _ ⟨_, _, rfl, rfl, rfl⟩
    exact Serves.tell (by simp [ColumnService.toDto])
  · refine Serves.bind (Serves.transaction (serves_record rfl (by simp))) fun _ _ _ => ?_
    exact serves_emitToBoard (List.mem_append_right _ met) (Serves.pure rfl)

/-- New columns of the board, none of them stored yet. -/
theorem serves_seedColumns {columns : List DefaultColumn} :
    (collect columns (ColumnService.seed b)).Serves w keys fun rows more =>
      (∀ row ∈ rows, row.boardId = b) ∧ more = [] :=
  Serves.collect fun _ _ => serves_fresh.andThen fun _ => Serves.pure ⟨rfl, rfl⟩

theorem serves_resolve {negotiated : Option Locale} :
    (LocaleService.resolve u negotiated).Serves w keys fun _ more => more = [] := by
  refine Serves.andThen (Serves.catching Serves.ask fun _ => Serves.pure rfl) fun stored => ?_
  exact Serves.pure rfl

theorem serves_createDefaults {negotiated : Option Locale} :
    (ColumnService.createDefaults w b u negotiated).Serves w keys fun _ more => more = [] := by
  apply serves_assertBoard.bind
  rintro board _ ⟨_, rfl⟩
  refine serves_resolve.andThen fun locale => ?_
  refine Serves.andThen (Serves.transaction ?_) fun created => ?_
  · refine (Serves.query Statement.Serves.lock).andThen fun _ => ?_
    refine Serves.ask.andThen fun existing => ?_
    refine Serves.require.andThen fun _ => ?_
    refine serves_seedColumns.bind ?_
    rintro data _ ⟨seeded, rfl⟩
    refine (Serves.query (Statement.Serves.createMany fun column member => claim_column ?_)).andThen fun _ => ?_
    · simp [seeded column member]
    refine Serves.ask.andThen fun rows => ?_
    refine Serves.andThen (Serves.forEach fun column _ => ?_) fun _ => Serves.pure rfl
    exact Serves.bind (serves_record rfl (by simp)) fun _ _ _ => Serves.pure rfl
  · exact Serves.andThen (Serves.forEach fun _ _ => serves_emitToBoard (by simp) (Serves.pure rfl)) fun _ => Serves.pure rfl

theorem serves_updateColumn {dto : UpdateColumnDto} :
    (ColumnService.update w t u dto).Serves w keys fun _ more => more = [] := by
  refine serves_announced (Serves.transaction ?_)
  refine Serves.bind (Serves.findFirst mine_column) fun _ _ _ => ?_
  refine Serves.bind (Serves.query (serves_including (Statement.Serves.update mine_column ?_ ?_ ?_))) ?_
  · exact fun _ => rfl
  · exact fun _ => rfl
  · exact fun _ _ listed => .inl listed
  rintro _ _ ⟨_, updated, rfl, rfl⟩
  exact Serves.bind (serves_record rfl (by simp)) fun _ _ _ =>
    Serves.tell (by simp [ColumnService.toDto, toRow, refs, Row.refs, Reference.cascades])

theorem serves_removeColumn : (ColumnService.remove w t u).Serves w keys fun _ more => more = [] := by
  refine serves_announced (Serves.transaction ?_)
  refine serves_findColumn.bind ?_
  rintro row _ ⟨_, rfl⟩
  refine Serves.ask.andThen fun taskCount => ?_
  refine Serves.require.andThen fun _ => ?_
  refine Serves.bind (serves_record rfl (by simp)) fun _ _ _ => ?_
  refine (Serves.query (Statement.Serves.deleteMany mine_column)).andThen fun _ => ?_
  exact Serves.require.andThen fun _ => Serves.tell (by simp)

theorem serves_placeColumn {column : Column} {remaining : List Sibling} {slot : InsertionSlot}
    (board : Key.board column.boardId ∈ keys) :
    (ColumnService.place w column remaining slot).Serves w keys fun result more => Key.board result.boardId ∈ more := by
  unfold ColumnService.place
  dsimp only
  split
  · refine Serves.bind (Serves.query (Statement.Serves.update mine_column ?_ ?_ ?_)) fun _ _ _ => ?_
    · exact fun _ => rfl
    · exact fun _ => rfl
    · exact fun _ _ listed => .inl listed
    refine (serves_batchUpdate below_columns ?_ _).andThen fun _ => ?_
    · exact List.mem_append_right _ board
    apply Serves.found
    intro view coherent near result hit
    obtain ⟨moved, first, rfl⟩ := Option.map_eq_some_iff.mp hit
    have stored := mem_table.mp (List.mem_of_find?_eq_some first)
    have own := mine_column view coherent near moved stored (List.find?_some first)
    refine ⟨[.board moved.boardId], by simp [ColumnService.toDto], ?_⟩
    rintro k member
    rw [List.mem_singleton] at member
    subst member
    exact own.refs coherent stored List.mem_cons_self
  · refine (Serves.query (serves_including (Statement.Serves.update mine_column ?_ ?_ ?_))).weaken ?_
    · exact fun _ => rfl
    · exact fun _ => rfl
    · exact fun _ _ listed => .inl listed
    rintro _ _ ⟨_, updated, rfl, rfl⟩
    simp [ColumnService.toDto, toRow, refs, Row.refs, Reference.cascades]

theorem serves_moveColumn {dto : MoveColumnDto} :
    (ColumnService.move w t u dto).Serves w keys fun _ more => more = [] := by
  refine serves_announced (Serves.transaction ?_)
  refine serves_findColumn.bind ?_
  rintro column _ ⟨_, rfl⟩
  refine Serves.require.andThen fun _ => ?_
  refine (Serves.query Statement.Serves.lock).andThen fun _ => ?_
  refine Serves.ask.andThen fun columns => ?_
  refine Serves.ofExcept.andThen fun slot => ?_
  exact serves_placeColumn (by simp)

end Columns

section Boards

theorem claim_board {board : Board} (here : board.workspaceId = w) : Claim w keys (toRow board : Row) where
  owned := by simp [home, toRow, Row.home]
  mine := by
    subst here
    simp [home, toRow, Row.home, eq_comm]
  refs := by
    subst here
    simp only [toRow, refs, Row.refs, Reference.cascades, List.mem_cons, List.not_mem_nil, or_false]
    rintro ref rfl
    exact known_workspace

theorem claim_label {label : Label} (board : Key.board label.boardId ∈ keys) : Claim w keys (toRow label : Row) where
  owned := by simp [home, toRow, Row.home]
  mine := by simp [home, toRow, Row.home]
  refs := by
    simp only [toRow, refs, Row.refs, Reference.cascades, List.mem_cons, List.not_mem_nil, or_false]
    rintro ref rfl
    exact .inl board

theorem serves_assertBoardAvailable {config : PlanConfig} :
    (PlanLimitsService.assertBoardAvailable config w).Serves w keys fun _ more => more = [] := by
  refine Serves.ask.andThen fun limits => ?_
  split
  · exact Serves.pure rfl
  · exact Serves.ask.andThen fun _ => Serves.require

theorem serves_seedLabels {labels : List DefaultLabel} (board : Key.board b ∈ keys) :
    (BoardService.seedLabels b labels).Serves w keys fun _ more => more = [] := by
  unfold BoardService.seedLabels
  split
  · exact Serves.pure rfl
  · refine Serves.bind (Serves.collect (R := fun label => label.boardId = b) fun _ _ => ?_) ?_
    · exact serves_fresh.andThen fun _ => Serves.pure ⟨rfl, rfl⟩
    rintro rows _ ⟨seeded, rfl⟩
    refine (Serves.query (Statement.Serves.createMany fun label member => claim_label ?_)).andThen fun _ => Serves.pure rfl
    rw [seeded label member]
    exact board

theorem serves_createSeeded {dto : CreateBoardDto} {seed : BoardTemplate} :
    (BoardService.createSeeded w dto seed).Serves w keys fun _ more => more = [] := by
  refine serves_fresh.andThen fun given => ?_
  refine Serves.bind (Serves.query (Statement.Serves.create (claim_board rfl))) ?_
  rintro created _ ⟨rfl, rfl⟩
  refine serves_seedColumns.bind ?_
  rintro columns _ ⟨seeded, rfl⟩
  refine (Serves.query (Statement.Serves.createMany fun column member => claim_column ?_)).andThen fun _ => ?_
  · simp [seeded column member, toRow, key, Row.key]
  refine (serves_seedLabels ?_).andThen fun _ => Serves.pure rfl
  exact List.mem_cons_self

theorem serves_createBoard {config : PlanConfig} {dto : CreateBoardDto} {negotiated : Option Locale} :
    (BoardService.create config w u dto negotiated).Serves w keys fun _ more => more = [] := by
  refine serves_resolve.andThen fun locale => ?_
  refine Serves.andThen (Serves.transaction ?_) fun _ => Serves.pure rfl
  refine serves_assertBoardAvailable.andThen fun _ => ?_
  refine serves_createSeeded.andThen fun created => ?_
  exact Serves.bind (serves_record rfl (by simp)) fun _ _ _ => Serves.pure rfl

theorem mine_board : Mine w keys (BoardService.scopedBoard w b) := by
  intro view _ _ board _ chosen
  simp only [BoardService.scopedBoard, Bool.and_eq_true, decide_eq_true_eq] at chosen
  exact .own (by rw [← chosen.2]; rfl)

theorem serves_updateBoard {dto : UpdateBoardDto} :
    (BoardService.update w b u dto).Serves w keys fun _ more => more = [] := by
  refine Serves.andThen (Serves.transaction ?_) fun _ => Serves.pure rfl
  refine Serves.bind (Serves.findFirst mine_board) fun _ _ _ => ?_
  refine Serves.bind (Serves.query (Statement.Serves.update mine_board ?_ ?_ ?_)) fun _ _ _ => ?_
  · exact fun _ => rfl
  · exact fun _ => rfl
  · exact fun _ _ listed => .inl listed
  exact Serves.bind (serves_record rfl (by simp)) fun _ _ _ => Serves.pure rfl

theorem serves_removeBoard : (BoardService.remove w b u).Serves w keys fun _ more => more = [] := by
  refine Serves.transaction ?_
  refine Serves.bind (Serves.findFirst mine_board) fun _ _ _ => ?_
  refine Serves.ask.andThen fun taskCount => ?_
  refine Serves.bind (serves_record rfl (by simp)) fun _ _ _ => ?_
  refine (Serves.query (Statement.Serves.deleteMany mine_board)).andThen fun _ => Serves.require

end Boards

section Labels

theorem mine_label : Mine w keys (scopedLabel w t) := by
  intro view _ _ label _ chosen
  simp only [scopedLabel, Bool.and_eq_true] at chosen
  exact of_board chosen.2 rfl

theorem serves_createLabel {dto : CreateLabelDto} :
    (LabelService.create w b u dto).Serves w keys fun _ more => more = [] := by
  apply serves_assertBoard.bind
  rintro board _ ⟨_, rfl⟩
  refine Serves.andThen (Serves.transaction ?_) fun created => ?_
  · refine serves_fresh.andThen fun given => (Serves.query (Statement.Serves.create (claim_label ?_))).forget
    simp
  · exact Serves.bind (Serves.transaction (serves_record rfl (by simp))) fun _ _ _ => Serves.pure rfl

theorem serves_updateLabel {dto : UpdateLabelDto} :
    (LabelService.update w t u dto).Serves w keys fun _ more => more = [] := by
  refine Serves.andThen (Serves.transaction ?_) fun _ => Serves.pure rfl
  refine Serves.bind (Serves.findFirst mine_label) fun _ _ _ => ?_
  refine Serves.bind (Serves.query (Statement.Serves.update mine_label ?_ ?_ ?_)) fun _ _ _ => ?_
  · exact fun _ => rfl
  · exact fun _ => rfl
  · exact fun _ _ listed => .inl listed
  exact Serves.bind (serves_record rfl (by simp)) fun _ _ _ => Serves.pure rfl

theorem serves_removeLabel : (LabelService.remove w t u).Serves w keys fun _ more => more = [] := by
  refine Serves.transaction ?_
  refine Serves.bind (Serves.findFirst mine_label) fun _ _ _ => ?_
  refine Serves.bind (serves_record rfl (by simp)) fun _ _ _ => ?_
  exact (Serves.query (Statement.Serves.deleteMany mine_label)).andThen fun _ => Serves.require

/-- A label of a board that has been met. -/
theorem serves_labelOf {task : Task} {labelId : Id} {error : Error} (board : Key.board task.boardId ∈ keys) :
    (TaskLabelService.labelOf task labelId error).Serves w keys fun label more =>
      more = [.label label.id, .board label.boardId] := by
  refine (Serves.findFirst fun view coherent near label stored chosen => ?_).weaken ?_
  · simp only [Bool.and_eq_true, decide_eq_true_eq] at chosen
    have known := near _ board
    rw [← chosen.2] at known
    exact Near.child known coherent stored List.mem_cons_self owned_board
  · rintro label _ ⟨_, rfl⟩
    rfl

theorem serves_conflictOnUniqueViolation {write : Service α} {message : String} {gives : α → List Key → Prop}
    (serves : write.Serves w keys gives) : (conflictOnUniqueViolation write message).Serves w keys gives := by
  refine Serves.catching serves fun error => ?_
  split <;> exact Serves.throw

theorem serves_addLabel {dto : AddTaskLabelDto} :
    (TaskLabelService.addLabel w t u dto).Serves w keys fun _ more => more = [] := by
  refine serves_findTaskBasic.bind ?_
  rintro task _ ⟨rfl, rfl⟩
  refine (serves_labelOf (by simp)).bind ?_
  rintro label _ rfl
  refine Serves.andThen (serves_conflictOnUniqueViolation (Serves.transaction ?_)) fun _ => serves_emitUpdated
  refine serves_fresh.andThen fun given => ?_
  refine (Serves.query (Statement.Serves.create ⟨?_, ?_, ?_⟩)).bind ?_
  · simp [home, toRow, Row.home]
  · simp [home, toRow, Row.home]
  · simp only [toRow, refs, Row.refs, Reference.cascades, List.mem_cons, List.not_mem_nil, or_false]
    rintro ref (rfl | rfl)
    · exact .inl (by simp)
    · exact .inl (by simp)
  rintro _ _ ⟨rfl, rfl⟩
  refine Serves.forget (serves_record rfl ?_)
  rintro t ⟨⟩
  simp

theorem serves_removeTaskLabel {labelId : Id} :
    (TaskLabelService.removeLabel w t u labelId).Serves w keys fun _ more => more = [] := by
  refine serves_findTaskBasic.bind ?_
  rintro task _ ⟨rfl, rfl⟩
  refine (serves_labelOf (by simp)).bind ?_
  rintro label _ rfl
  refine Serves.andThen (Serves.transaction ?_) fun _ => serves_emitUpdated
  refine (Serves.query (Statement.Serves.deleteMany fun view _ _ row _ chosen => ?_)).andThen fun _ => ?_
  · simp only [Bool.and_eq_true] at chosen
    exact of_task chosen.2 rfl
  refine Serves.require.andThen fun _ => ?_
  refine Serves.bind (serves_record rfl ?_) fun _ _ _ => Serves.pure rfl
  rintro t ⟨⟩
  simp

end Labels

section Rows

variable [Entity Row α] {where_ : Where Row α}

/-- Rows whose key has been met. -/
theorem mine_known {k : Key} (met : k ∈ keys) (chosen : ∀ view (a : α), where_ view a →
      key (toRow a : Row) = k ∧ (home (toRow a : Row) : Home Id Key) ≠ .shared) : Mine w keys where_ := by
  intro view coherent near a stored selected
  obtain ⟨rfl, owned⟩ := chosen view a selected
  exact (near _ met).of coherent.toIntact stored owned

/-- Rows that name the workspace. -/
theorem mine_own (chosen : ∀ view (a : α), where_ view a → (home (toRow a : Row) : Home Id Key) = .tenant w) :
    Mine w keys where_ :=
  fun view _ _ a _ selected => .own (chosen view a selected)

end Rows

section Checklists

theorem mine_checklist : Mine w keys (scopedChecklist w t b) := by
  intro view _ _ checklist _ chosen
  simp only [scopedChecklist, Bool.and_eq_true] at chosen
  exact of_task chosen.2 rfl

theorem mine_checklistItem : Mine w keys (scopedChecklistItem w t b) := by
  intro view _ _ item _ chosen
  simp only [scopedChecklistItem, Bool.and_eq_true, decide_eq_true_eq, List.any_eq_true] at chosen
  obtain ⟨_, checklist, stored, ⟨same, _⟩, within⟩ := chosen
  refine Of.beneath (toRow checklist) ?_ (mem_table.mp stored) (of_task within rfl)
  change Home.parent (Key.checklist item.checklistId) = .parent (.checklist checklist.id)
  rw [same]

theorem serves_createChecklist {dto : CreateChecklistDto} :
    (ChecklistService.create w t u dto).Serves w keys fun _ more => more = [] := by
  refine serves_findTaskBasic.bind ?_
  rintro task _ ⟨rfl, rfl⟩
  refine Serves.andThen (Serves.transaction ?_) fun _ => serves_emitUpdated
  refine (Serves.query Statement.Serves.lock).andThen fun _ => ?_
  refine Serves.ask.andThen fun siblings => ?_
  refine serves_fresh.andThen fun given => ?_
  refine Serves.andThen (Serves.forget (Serves.query (Statement.Serves.create ⟨?_, ?_, ?_⟩))) fun _ => Serves.pure rfl
  · simp [home, toRow, Row.home]
  · simp [home, toRow, Row.home]
  · simp only [toRow, refs, Row.refs, Reference.cascades, List.mem_cons, List.not_mem_nil, or_false]
    rintro ref rfl
    exact .inl (by simp)

theorem serves_updateChecklist {dto : UpdateChecklistDto} :
    (ChecklistService.update w t u b dto).Serves w keys fun _ more => more = [] := by
  refine serves_findTaskBasic.forget.andThen fun _ => ?_
  refine Serves.andThen (Serves.transaction (Serves.query (Statement.Serves.updateMany mine_checklist ?_ ?_ ?_)))
    fun _ => ?_
  · exact fun _ => rfl
  · exact fun _ => rfl
  · exact fun _ _ listed => listed
  exact Serves.require.andThen fun _ => serves_emitUpdated

theorem serves_removeChecklist : (ChecklistService.remove w t u b).Serves w keys fun _ more => more = [] := by
  refine serves_findTaskBasic.forget.andThen fun _ => ?_
  refine Serves.andThen (Serves.transaction (Serves.query (Statement.Serves.deleteMany mine_checklist))) fun _ => ?_
  exact Serves.require.andThen fun _ => serves_emitUpdated

/-- The checklists of a task that has been met. -/
theorem serves_listed (met : Key.task t ∈ keys) :
    (query (.read (checklistPositions.listed t)) : Service (List Sibling)).Serves w keys
      fun siblings more => more = siblings.map fun sibling => .checklist sibling.id := by
  refine Serves.query (.read fun view coherent near => ⟨_, rfl, fun k member => ?_⟩)
  obtain ⟨sibling, listed, rfl⟩ := List.mem_map.mp member
  obtain ⟨checklist, stored, here, same, _⟩ := Positioning.mem_listed.mp listed
  have there : toRow checklist ∈ view := mem_table.mp stored
  have known : Near w view (Reference.cascades (.task checklist.taskId)).target := by
    change Near w view (.task (checklistPositions.group checklist))
    rw [here]
    exact near _ met
  have own : Of w view (toRow checklist : Row) := by
    refine Near.child known coherent there List.mem_cons_self ?_
    intro parent target
    cases parent <;> simp_all [key, Row.key, home, Row.home, Reference.cascades]
  rw [← same]
  exact own.near coherent.unique there

theorem serves_moveChecklist {dto : MoveChecklistDto} :
    (ChecklistService.move w t u b dto).Serves w keys fun _ more => more = [] := by
  refine serves_findTaskBasic.bind ?_
  rintro task _ ⟨_, rfl⟩
  refine (serves_listed (by simp)).bind ?_
  rintro siblings _ rfl
  refine Serves.check.bind ?_
  rintro _ _ ⟨present, rfl⟩
  refine Serves.ofExcept.andThen fun slot => ?_
  obtain ⟨sibling, listed, same⟩ := List.any_eq_true.mp present
  rw [decide_eq_true_eq] at same
  have met : Key.checklist b ∈ siblings.map fun sibling => Key.checklist sibling.id :=
    List.mem_map.mpr ⟨sibling, listed, by rw [same]⟩
  refine Serves.andThen (Serves.forget (Serves.transaction (Serves.query
    (Statement.Serves.update (mine_known (List.mem_append_right _ (List.mem_append_left _ met)) ?_) ?_ ?_ ?_))))
      fun _ => serves_emitUpdated
  · intro view checklist chosen
    rw [decide_eq_true_eq] at chosen
    subst chosen
    exact ⟨rfl, by simp [home, toRow, Row.home]⟩
  · exact fun _ => rfl
  · exact fun _ => rfl
  · exact fun _ _ listed => .inl listed

theorem serves_createChecklistItem {dto : CreateChecklistItemDto} :
    (ChecklistItemService.create w t u b dto).Serves w keys fun _ more => more = [] := by
  refine serves_findTaskBasic.forget.andThen fun _ => ?_
  refine Serves.bind (Serves.findFirst mine_checklist) ?_
  rintro checklist _ ⟨⟨_, chosen⟩, rfl⟩
  simp only [scopedChecklist, Bool.and_eq_true, decide_eq_true_eq] at chosen
  obtain ⟨⟨rfl, _⟩, _⟩ := chosen
  refine Serves.andThen (Serves.transaction ?_) fun _ => serves_emitUpdated
  refine (Serves.query Statement.Serves.lock).andThen fun _ => ?_
  refine Serves.ask.andThen fun last => ?_
  refine serves_fresh.andThen fun given => ?_
  refine Serves.andThen (Serves.forget (Serves.query (Statement.Serves.create ⟨?_, ?_, ?_⟩))) fun _ => Serves.pure rfl
  · simp [home, toRow, Row.home]
  · simp [home, toRow, Row.home]
  · simp only [toRow, refs, Row.refs, Reference.cascades, List.mem_cons, List.not_mem_nil, or_false]
    rintro ref rfl
    exact .inl (by simp [key, Row.key])

theorem serves_updateChecklistItem {dto : UpdateChecklistItemDto} :
    (ChecklistItemService.update w t u b dto).Serves w keys fun _ more => more = [] := by
  refine serves_findTaskBasic.forget.andThen fun _ => ?_
  split
  · refine (Serves.findFirst mine_checklistItem).forget.andThen fun _ => ?_
    exact serves_findTask.forget.andThen fun _ => Serves.pure rfl
  · refine Serves.andThen (Serves.transaction (Serves.query (Statement.Serves.updateMany mine_checklistItem ?_ ?_ ?_)))
      fun _ => ?_
    · exact fun _ => rfl
    · exact fun _ => rfl
    · exact fun _ _ listed => listed
    exact Serves.require.andThen fun _ => serves_emitUpdated

theorem serves_removeChecklistItem : (ChecklistItemService.remove w t u b).Serves w keys fun _ more => more = [] := by
  refine serves_findTaskBasic.forget.andThen fun _ => ?_
  refine Serves.andThen (Serves.transaction (Serves.query (Statement.Serves.deleteMany mine_checklistItem))) fun _ => ?_
  exact Serves.require.andThen fun _ => serves_emitUpdated

theorem serves_moveChecklistItem {dto : MoveChecklistItemDto} :
    (ChecklistItemService.move w t u b dto).Serves w keys fun _ more => more = [] := by
  refine serves_findTaskBasic.forget.andThen fun _ => ?_
  refine Serves.bind (Serves.findFirst mine_checklistItem) ?_
  rintro owner _ ⟨⟨_, chosen⟩, rfl⟩
  simp only [scopedChecklistItem, Bool.and_eq_true, decide_eq_true_eq] at chosen
  obtain ⟨rfl, _⟩ := chosen
  refine Serves.ask.andThen fun siblings => ?_
  refine Serves.ofExcept.andThen fun slot => ?_
  refine Serves.andThen (Serves.forget (Serves.transaction (Serves.query
    (Statement.Serves.update (mine_known List.mem_cons_self ?_) ?_ ?_ ?_)))) fun _ => serves_emitUpdated
  · intro view item chosen
    rw [decide_eq_true_eq] at chosen
    exact ⟨congrArg Key.checklistItem chosen, by simp [home, toRow, Row.home]⟩
  · exact fun _ => rfl
  · exact fun _ => rfl
  · exact fun _ _ listed => .inl listed

end Checklists

end Kurul
