import Kurul.Board.ListRuns
import Kurul.Import.ImportOrder
import Kurul.Store.Landing
import Kurul.Store.Tenancy

/-! An import from the export to the rows. Where the database can hold each of the plan's values,
it takes all of its rows, so that an import ends with the whole board, or is refused for the sizes
and ceilings that are checked, or fails with the database and leaves nothing. -/
namespace Kurul.Trello

open Store Prog Draw

section Values

variable (text : JsString → Option String) (date : Int → Option DateTime) (now : DateTime)
  (group : SkipGroup → TrelloImportSkipGroupDto)

/-! What the database makes of a planned row, where it can hold its texts and dates. -/

def storeColumn (column : PlannedColumn Id) : Option Column := do
  return {
    id := column.id
    boardId := column.boardId
    name := ← text column.name
    position := column.position
    category := column.category }

def storeLabel (label : PlannedLabel Id) : Option Label :=
  match label.color with
  | .slot color => do return { id := label.id, boardId := label.boardId, name := ← text label.name, color }
  | .inherited => none

def storeTask (task : PlannedTask Id) : Option Task := do
  return {
    id := task.id
    boardId := task.boardId
    columnId := task.columnId
    title := ← text task.title
    description := ← task.description.mapM text
    position := task.position
    dueDate := ← task.dueDate.mapM date
    createdById := task.createdById
    createdAt := now
    updatedAt := now }

def storeTaskLabel (row : PlannedTaskLabel Id) : TaskLabel := { id := row.id, taskId := row.taskId, labelId := row.labelId }

def storeChecklist (checklist : PlannedChecklist Id) : Option Checklist := do
  return {
    id := checklist.id
    taskId := checklist.taskId
    title := ← text checklist.title
    position := checklist.position }

def storeItem (item : PlannedItem Id) : Option ChecklistItem := do
  return {
    id := item.id
    checklistId := item.checklistId
    content := ← text item.content
    isDone := item.isDone
    position := item.position }

def storeAttachment (row : PlannedAttachment Id) : Option Attachment := do
  return {
    id := row.id
    taskId := row.taskId
    uploadedById := row.uploadedById
    kind := .LINK
    filename := ← text row.filename
    url := some (← text row.url)
    createdAt := now }

def storePlan (plan : TrelloImportPlan Id) : Option Kurul.TrelloImportPlan := do
  return {
    board := (plan.board.id, ← text plan.board.name, ← plan.board.description.mapM text)
    columns := ← plan.columns.mapM (storeColumn text)
    labels := ← plan.labels.mapM (storeLabel text)
    tasks := ← plan.tasks.mapM (storeTask text date now)
    taskLabels := plan.taskLabels.map storeTaskLabel
    checklists := ← plan.checklists.mapM (storeChecklist text)
    checklistItems := ← plan.checklistItems.mapM (storeItem text)
    attachments := ← plan.attachments.mapM (storeAttachment text now)
    skipped := plan.skipped.map group }

end Values

def boardRow (workspaceId : Id) (plan : Kurul.TrelloImportPlan) : Board :=
  { id := plan.board.1, workspaceId, name := plan.board.2.1, description := plan.board.2.2 }

/-- The rows of an import, the board's first. -/
def planTables (workspaceId : Id) (plan : Kurul.TrelloImportPlan) : List Row :=
  [.board (boardRow workspaceId plan)] ++
    (plan.columns.map .column ++ (plan.labels.map .label ++ (plan.tasks.map .task ++ (plan.taskLabels.map .taskLabel ++
      (plan.checklists.map .checklist ++ (plan.checklistItems.map .checklistItem ++ plan.attachments.map .attachment))))))

/-- The key of a planned row in the database. -/
def PlannedRow.storedKey (row : PlannedRow Id) : Key :=
  match row with
  | .board row => .board row.id
  | .column row => .column row.id
  | .label row => .label row.id
  | .task row => .task row.id
  | .taskLabel row => .taskLabel row.id
  | .checklist row => .checklist row.id
  | .checklistItem row => .checklistItem row.id
  | .attachment row => .attachment row.id

/-- The keys an import may give a row under this id. -/
def importKeys (id : Id) : List Key :=
  [.board id, .column id, .label id, .task id, .taskLabel id, .checklist id, .checklistItem id, .attachment id]

def Unused (rows : List Row) (id : Id) : Prop := ∀ row ∈ rows, key row ∉ importKeys id

section Storing

variable {text : JsString → Option String} {date : Int → Option DateTime} {now : DateTime}
  {group : SkipGroup → TrelloImportSkipGroupDto} {plan : TrelloImportPlan Id} {stored : Kurul.TrelloImportPlan}

theorem answered_each {α β : Type} {f : α → Option β} {items : List α} {results : List β}
    (mapped : items.mapM f = some results) : List.Forall₂ (fun a b => f a = some b) items results := by
  induction items generalizing results with
  | nil =>
      obtain rfl : results = [] := by simpa using mapped.symm
      exact .nil
  | cons a rest ih =>
      rw [List.mapM_cons] at mapped
      obtain ⟨b, here, mapped⟩ := Option.bind_eq_some_iff.mp mapped
      obtain ⟨others, there, mapped⟩ := Option.bind_eq_some_iff.mp mapped
      cases mapped
      exact .cons here (ih there)

/-- The rows as they are stored, row by row. -/
structure Stores (text : JsString → Option String) (date : Int → Option DateTime) (now : DateTime)
    (plan : TrelloImportPlan Id) (stored : Kurul.TrelloImportPlan) : Prop where
  board : stored.board.1 = plan.board.id
  columns : List.Forall₂ (fun a b => storeColumn text a = some b) plan.columns stored.columns
  labels : List.Forall₂ (fun a b => storeLabel text a = some b) plan.labels stored.labels
  tasks : List.Forall₂ (fun a b => storeTask text date now a = some b) plan.tasks stored.tasks
  taskLabels : stored.taskLabels = plan.taskLabels.map storeTaskLabel
  checklists : List.Forall₂ (fun a b => storeChecklist text a = some b) plan.checklists stored.checklists
  checklistItems : List.Forall₂ (fun a b => storeItem text a = some b) plan.checklistItems stored.checklistItems
  attachments : List.Forall₂ (fun a b => storeAttachment text now a = some b) plan.attachments stored.attachments

theorem stores_of_storePlan (kept : storePlan text date now group plan = some stored) :
    Stores text date now plan stored := by
  simp only [storePlan, Option.bind_eq_bind, Option.bind_eq_some_iff, Option.pure_def, Option.some.injEq] at kept
  obtain ⟨name, _, description, _, columns, columns', labels, labels', tasks, tasks', checklists, checklists', items, items',
    attachments, attachments', rfl⟩ := kept
  exact ⟨rfl, answered_each columns', answered_each labels', answered_each tasks', rfl, answered_each checklists',
    answered_each items', answered_each attachments'⟩

theorem forall₂_origin {α β : Type} {R : α → β → Prop} {items : List α} {results : List β}
    (related : List.Forall₂ R items results) :
    ∀ b ∈ results, ∃ a ∈ items, R a b := by
  induction related with
  | nil => simp
  | cons here _ ih =>
      intro b listed
      rcases List.mem_cons.mp listed with rfl | listed
      · exact ⟨_, List.mem_cons_self, here⟩
      · obtain ⟨a, member, there⟩ := ih b listed
        exact ⟨a, List.mem_cons_of_mem _ member, there⟩

theorem forall₂_map {α β γ : Type} {R : α → β → Prop} {g : α → γ} {h : β → γ} {items : List α} {results : List β}
    (related : List.Forall₂ R items results) (same : ∀ a b, R a b → h b = g a) : results.map h = items.map g := by
  induction related with
  | nil => rfl
  | cons here _ ih => rw [List.map_cons, List.map_cons, same _ _ here, ih]

theorem storeColumn_some {a : PlannedColumn Id} {b : Column} (made : storeColumn text a = some b) :
    b.id = a.id ∧ b.boardId = a.boardId := by
  simp only [storeColumn, Option.bind_eq_bind, Option.bind_eq_some_iff, Option.pure_def, Option.some.injEq] at made
  obtain ⟨_, _, rfl⟩ := made
  exact ⟨rfl, rfl⟩

theorem storeLabel_some {a : PlannedLabel Id} {b : Label} (made : storeLabel text a = some b) :
    b.id = a.id ∧ b.boardId = a.boardId := by
  unfold storeLabel at made
  split at made
  · simp only [Option.bind_eq_bind, Option.bind_eq_some_iff, Option.pure_def, Option.some.injEq] at made
    obtain ⟨_, _, rfl⟩ := made
    exact ⟨rfl, rfl⟩
  · contradiction

theorem storeTask_some {a : PlannedTask Id} {b : Task} (made : storeTask text date now a = some b) :
    b.id = a.id ∧ b.boardId = a.boardId ∧ b.columnId = a.columnId ∧ b.createdById = a.createdById := by
  simp only [storeTask, Option.bind_eq_bind, Option.bind_eq_some_iff, Option.pure_def, Option.some.injEq] at made
  obtain ⟨_, _, _, _, _, _, rfl⟩ := made
  exact ⟨rfl, rfl, rfl, rfl⟩

theorem storeChecklist_some {a : PlannedChecklist Id} {b : Checklist} (made : storeChecklist text a = some b) :
    b.id = a.id ∧ b.taskId = a.taskId := by
  simp only [storeChecklist, Option.bind_eq_bind, Option.bind_eq_some_iff, Option.pure_def, Option.some.injEq] at made
  obtain ⟨_, _, rfl⟩ := made
  exact ⟨rfl, rfl⟩

theorem storeItem_some {a : PlannedItem Id} {b : ChecklistItem} (made : storeItem text a = some b) :
    b.id = a.id ∧ b.checklistId = a.checklistId := by
  simp only [storeItem, Option.bind_eq_bind, Option.bind_eq_some_iff, Option.pure_def, Option.some.injEq] at made
  obtain ⟨_, _, rfl⟩ := made
  exact ⟨rfl, rfl⟩

theorem storeAttachment_some {a : PlannedAttachment Id} {b : Attachment} (made : storeAttachment text now a = some b) :
    b.id = a.id ∧ b.taskId = a.taskId ∧ b.uploadedById = a.uploadedById := by
  simp only [storeAttachment, Option.bind_eq_bind, Option.bind_eq_some_iff, Option.pure_def, Option.some.injEq] at made
  obtain ⟨_, _, _, _, rfl⟩ := made
  exact ⟨rfl, rfl, rfl⟩

/-- Every planned row is stored, under its own key and in the order of the plan. -/
theorem planTables_keys (stores : Stores text date now plan stored) (workspaceId : Id) :
    (planTables workspaceId stored).map key = plan.rows.map PlannedRow.storedKey := by
  have columns := forall₂_map (g := fun a => Key.column a.id) (h := key ∘ Row.column) stores.columns
    fun a b made => congrArg Key.column (storeColumn_some made).1
  have labels := forall₂_map (g := fun a => Key.label a.id) (h := key ∘ Row.label) stores.labels
    fun a b made => congrArg Key.label (storeLabel_some made).1
  have tasks := forall₂_map (g := fun a => Key.task a.id) (h := key ∘ Row.task) stores.tasks
    fun a b made => congrArg Key.task (storeTask_some made).1
  have checklists := forall₂_map (g := fun a => Key.checklist a.id) (h := key ∘ Row.checklist) stores.checklists
    fun a b made => congrArg Key.checklist (storeChecklist_some made).1
  have items := forall₂_map (g := fun a => Key.checklistItem a.id) (h := key ∘ Row.checklistItem) stores.checklistItems
    fun a b made => congrArg Key.checklistItem (storeItem_some made).1
  have attachments := forall₂_map (g := fun a => Key.attachment a.id) (h := key ∘ Row.attachment) stores.attachments
    fun a b made => congrArg Key.attachment (storeAttachment_some made).1
  simp only [planTables, TrelloImportPlan.rows, List.map_append, List.map_cons, List.map_map, columns, labels, tasks,
    checklists, items, attachments, stores.taskLabels, List.append_assoc, List.cons_append, List.nil_append]
  simp only [key, Row.key, boardRow, stores.board, PlannedRow.storedKey]
  rfl

end Storing

section Landing

variable {rows earlier : List Row} {plan : TrelloImportPlan Id} {α β : Type}

theorem ids_sublist (plan : TrelloImportPlan Id) : ∀ part ∈ [plan.columns.map PlannedColumn.id,
    plan.labels.map PlannedLabel.id, plan.tasks.map PlannedTask.id, plan.taskLabels.map PlannedTaskLabel.id,
    plan.checklists.map PlannedChecklist.id, plan.checklistItems.map PlannedItem.id,
      plan.attachments.map PlannedAttachment.id],
    part.Sublist plan.ids := by
  intro part listed
  have whole := (List.sublist_flatten_of_mem listed).cons plan.board.id
  simpa [TrelloImportPlan.ids] using whole

variable {text : JsString → Option String} {date : Int → Option DateTime} {now : DateTime} {stored : Kurul.TrelloImportPlan}
  {workspaceId actorId : Id}

/-- What an import needs of the rows and of its plan. -/
structure Prepared (rows : List Row) (workspaceId actorId : Id) (plan : TrelloImportPlan Id) : Prop where
  intact : Intact rows
  workspace : ∃ row ∈ rows, key row = Key.workspace workspaceId
  actor : ∃ row ∈ rows, key row = Key.user actorId
  sound : Sound plan
  unused : ∀ id ∈ plan.ids, Unused rows id
  tasks : ∀ task ∈ plan.tasks, task.createdById = actorId
  attachments : ∀ row ∈ plan.attachments, row.uploadedById = actorId

theorem stored_of_planned {R : α → β → Prop} {planned : List α} {items : List β} (related : List.Forall₂ R planned items)
    {plannedId : α → Id} {itemId : β → Id} (named : ∀ a b, R a b → itemId b = plannedId a) {i : Id}
    (listed : i ∈ planned.map plannedId) : ∃ b ∈ items, itemId b = i := by
  rw [← forall₂_map related named] at listed
  exact List.mem_map.mp listed

theorem found_plain {ref : Reference Key} {other : Row} (plain : ref.through = none) (here : key other = ref.target) :
    ref.found other = true := by
  simp [Reference.found, plain, here]

section Tables

variable (prepared : Prepared rows workspaceId actorId plan)

include prepared

/-- A table of the plan that has no unique constraints. -/
theorem lands_table {R : α → β → Prop} {planned : List α} {items : List β} (related : List.Forall₂ R planned items)
    (row : β → Row) (plannedId : α → Id) (itemId : β → Id) (part : (planned.map plannedId).Sublist plan.ids)
    (named : ∀ a b, R a b → itemId b = plannedId a) (keyed : ∀ b, key (row b) ∈ importKeys (itemId b))
    (told : ∀ b c, key (row b) = key (row c) → itemId b = itemId c) (plain : ∀ b, uniques (row b) = [])
    (elsewhere : ∀ other ∈ earlier, ∀ b, key other ≠ key (row b))
    (whole : ∀ a ∈ planned, ∀ b, R a b → ∀ ref ∈ refs (row b), ∃ other ∈ rows ++ earlier, ref.found other = true) :
    Lands (rows ++ earlier) (items.map row) := by
  apply Lands.table
  · intro entry listed
    obtain ⟨b, member, rfl⟩ := List.mem_map.mp listed
    obtain ⟨a, origin, made⟩ := forall₂_origin related b member
    refine ⟨?_, whole a origin b made, by simp [plain]⟩
    intro other there same
    rcases List.mem_append.mp there with old | new
    · refine prepared.unused _ (part.subset (List.mem_map_of_mem origin)) other old ?_
      rw [same, ← named a b made]
      exact keyed b
    · exact elsewhere other new b same
  · have nodup : (items.map itemId).Nodup := by
      rw [forall₂_map related named]
      exact prepared.sound.ids_nodup.sublist part
    rw [List.pairwise_map]
    refine (List.pairwise_map.mp nodup).imp ?_
    intro b c different
    exact ⟨fun same => different (told b c same), by simp [plain]⟩

variable (stores : Stores text date now plan stored)

include stores

theorem lands_board : Lands rows [.board (boardRow workspaceId stored)] := by
  have own : plan.board.id ∈ plan.ids := List.mem_cons_self
  refine ⟨⟨?_, ?_, by simp [uniques, Row.uniques]⟩, trivial⟩
  · intro other member same
    refine prepared.unused _ own other member (same ▸ ?_)
    simp [importKeys, key, Row.key, boardRow, stores.board]
  · intro ref referred
    simp only [refs, Row.refs, List.mem_singleton] at referred
    subst referred
    obtain ⟨row, member, same⟩ := prepared.workspace
    exact ⟨row, member, found_plain rfl same⟩

theorem lands_columns (board : .board (boardRow workspaceId stored) ∈ earlier)
    (elsewhere : ∀ other ∈ earlier, ∀ column : Column, key other ≠ key (Row.column column)) :
    Lands (rows ++ earlier) (stored.columns.map .column) := by
  refine lands_table prepared stores.columns .column PlannedColumn.id Column.id (ids_sublist plan _ (by simp))
    (fun _ _ made => (storeColumn_some made).1) (by simp [importKeys, key, Row.key]) (by simp [key, Row.key])
    (fun _ => rfl) elsewhere ?_
  intro planned origin column made ref referred
  simp only [refs, Row.refs, List.mem_singleton] at referred
  subst referred
  refine ⟨_, List.mem_append_right _ board, found_plain rfl ?_⟩
  simp [key, Row.key, Reference.cascades, boardRow, stores.board, (storeColumn_some made).2,
    prepared.sound.columns_board planned origin]

theorem lands_labels (board : .board (boardRow workspaceId stored) ∈ earlier)
    (elsewhere : ∀ other ∈ earlier, ∀ label : Label, key other ≠ key (Row.label label)) :
    Lands (rows ++ earlier) (stored.labels.map .label) := by
  refine lands_table prepared stores.labels .label PlannedLabel.id Label.id (ids_sublist plan _ (by simp))
    (fun _ _ made => (storeLabel_some made).1) (by simp [importKeys, key, Row.key]) (by simp [key, Row.key])
    (fun _ => rfl) elsewhere ?_
  intro planned origin label made ref referred
  simp only [refs, Row.refs, List.mem_singleton] at referred
  subst referred
  refine ⟨_, List.mem_append_right _ board, found_plain rfl ?_⟩
  simp [key, Row.key, Reference.cascades, boardRow, stores.board, (storeLabel_some made).2,
    prepared.sound.labels_board planned origin]

/-- Each with its column, which stands on the same board. -/
theorem lands_tasks (board : .board (boardRow workspaceId stored) ∈ earlier)
    (columns : ∀ column ∈ stored.columns, .column column ∈ earlier)
    (elsewhere : ∀ other ∈ earlier, ∀ task : Task, key other ≠ key (Row.task task)) :
    Lands (rows ++ earlier) (stored.tasks.map .task) := by
  refine lands_table prepared stores.tasks .task PlannedTask.id Task.id (ids_sublist plan _ (by simp))
    (fun _ _ made => (storeTask_some made).1) (by simp [importKeys, key, Row.key]) (by simp [key, Row.key])
    (fun _ => rfl) elsewhere ?_
  intro planned origin task made ref referred
  obtain ⟨_, onBoard, inColumn, creator⟩ := storeTask_some made
  have sameBoard := prepared.sound.tasks_board planned origin
  simp only [refs, Row.refs, List.mem_cons, List.not_mem_nil, or_false] at referred
  rcases referred with rfl | rfl | rfl
  · refine ⟨_, List.mem_append_right _ board, found_plain rfl ?_⟩
    simp [key, Row.key, Reference.cascades, boardRow, stores.board, onBoard, sameBoard]
  · obtain ⟨column, member, same⟩ := stored_of_planned stores.columns (fun _ _ made => (storeColumn_some made).1)
      (prepared.sound.tasks_column planned origin)
    obtain ⟨source, listed, made'⟩ := forall₂_origin stores.columns column member
    refine ⟨_, List.mem_append_right _ (columns column member), ?_⟩
    simp [Reference.found, Reference.cascades, key, Row.key, refs, Row.refs, same, inColumn, onBoard, sameBoard,
      (storeColumn_some made').2, prepared.sound.columns_board source listed]
  · obtain ⟨row, member, same⟩ := prepared.actor
    refine ⟨row, List.mem_append_left _ member, found_plain rfl ?_⟩
    simp [same, Reference.restricts, creator, prepared.tasks planned origin]

/-- No label is on a task twice: the tasks are new, and the plan has each pair once. -/
theorem lands_taskLabels (tasks : ∀ task ∈ stored.tasks, .task task ∈ earlier)
    (labels : ∀ label ∈ stored.labels, .label label ∈ earlier)
    (elsewhere : ∀ other ∈ earlier, ∀ row : TaskLabel, key other ≠ key (Row.taskLabel row))
    (clear : ∀ other ∈ earlier, ∀ taskId labelId, Key.labelling taskId labelId ∉ uniques other) :
    Lands (rows ++ earlier) (stored.taskLabels.map .taskLabel) := by
  have ids := ids_sublist plan (plan.taskLabels.map PlannedTaskLabel.id) (by simp)
  have taskIds := ids_sublist plan (plan.tasks.map PlannedTask.id) (by simp)
  rw [stores.taskLabels, List.map_map]
  apply Lands.table
  · intro entry listed
    obtain ⟨planned, origin, rfl⟩ := List.mem_map.mp listed
    refine ⟨?_, ?_, ?_⟩
    · intro other there same
      rcases List.mem_append.mp there with old | new
      · refine prepared.unused _ (ids.subset (List.mem_map_of_mem origin)) other old ?_
        rw [same]
        simp [importKeys, key, Row.key, storeTaskLabel]
      · exact elsewhere other new _ same
    · intro ref referred
      simp only [Function.comp_apply, refs, Row.refs, List.mem_cons, List.not_mem_nil, or_false] at referred
      rcases referred with rfl | rfl
      · obtain ⟨task, member, same⟩ := stored_of_planned stores.tasks (fun _ _ made => (storeTask_some made).1)
          (prepared.sound.taskLabels_task planned origin)
        refine ⟨_, List.mem_append_right _ (tasks task member), found_plain rfl ?_⟩
        simp [key, Row.key, Reference.cascades, same, storeTaskLabel]
      · obtain ⟨label, member, same⟩ := stored_of_planned stores.labels (fun _ _ made => (storeLabel_some made).1)
          (prepared.sound.taskLabels_label planned origin)
        refine ⟨_, List.mem_append_right _ (labels label member), found_plain rfl ?_⟩
        simp [key, Row.key, Reference.cascades, same, storeTaskLabel]
    · intro other there u listed taken
      simp only [Function.comp_apply, uniques, Row.uniques, List.mem_singleton] at listed
      subst listed
      rcases List.mem_append.mp there with old | new
      · obtain ⟨labelling, rfl, same⟩ : ∃ labelling : TaskLabel, other = .taskLabel labelling ∧
          labelling.taskId = planned.taskId := by
          cases other <;> simp [uniques, Row.uniques, storeTaskLabel] at taken
          · rename_i labelling
            exact ⟨labelling, rfl, taken.1.symm⟩
          · rename_i notification
            split at taken <;> simp at taken
        obtain ⟨task, stands, at_⟩ :=
          prepared.intact.whole _ old (.cascades (.task labelling.taskId)) (by simp [refs, Row.refs])
        refine prepared.unused _ (taskIds.subset (prepared.sound.taskLabels_task planned origin)) task stands ?_
        simp [at_, Reference.cascades, same, importKeys]
      · exact clear other new _ _ taken
  · have apart := (List.pairwise_map.mp (prepared.sound.ids_nodup.sublist ids)).and
      (List.pairwise_map.mp prepared.sound.pairs_nodup)
    rw [List.pairwise_map]
    refine apart.imp ?_
    rintro a b ⟨different, pair⟩
    refine ⟨by simpa [key, Row.key, storeTaskLabel] using different, ?_⟩
    intro u listed
    simp only [Function.comp_apply, uniques, Row.uniques, List.mem_singleton] at listed
    subst listed
    simpa [uniques, Row.uniques, storeTaskLabel, eq_comm] using pair

theorem lands_checklists (tasks : ∀ task ∈ stored.tasks, .task task ∈ earlier)
    (elsewhere : ∀ other ∈ earlier, ∀ checklist : Checklist, key other ≠ key (Row.checklist checklist)) :
    Lands (rows ++ earlier) (stored.checklists.map .checklist) := by
  refine lands_table prepared stores.checklists .checklist PlannedChecklist.id Checklist.id (ids_sublist plan _ (by simp))
    (fun _ _ made => (storeChecklist_some made).1) (by simp [importKeys, key, Row.key]) (by simp [key, Row.key])
    (fun _ => rfl) elsewhere ?_
  intro planned origin checklist made ref referred
  simp only [refs, Row.refs, List.mem_singleton] at referred
  subst referred
  obtain ⟨task, member, same⟩ := stored_of_planned stores.tasks (fun _ _ made => (storeTask_some made).1)
    (prepared.sound.checklists_task planned origin)
  refine ⟨_, List.mem_append_right _ (tasks task member), found_plain rfl ?_⟩
  simp [key, Row.key, Reference.cascades, same, (storeChecklist_some made).2]

theorem lands_items (checklists : ∀ checklist ∈ stored.checklists, .checklist checklist ∈ earlier)
    (elsewhere : ∀ other ∈ earlier, ∀ item : ChecklistItem, key other ≠ key (Row.checklistItem item)) :
    Lands (rows ++ earlier) (stored.checklistItems.map .checklistItem) := by
  refine lands_table prepared stores.checklistItems .checklistItem PlannedItem.id ChecklistItem.id
    (ids_sublist plan _ (by simp))
    (fun _ _ made => (storeItem_some made).1) (by simp [importKeys, key, Row.key]) (by simp [key, Row.key])
    (fun _ => rfl) elsewhere ?_
  intro planned origin item made ref referred
  simp only [refs, Row.refs, List.mem_singleton] at referred
  subst referred
  obtain ⟨checklist, member, same⟩ := stored_of_planned stores.checklists (fun _ _ made => (storeChecklist_some made).1)
    (prepared.sound.items_checklist planned origin)
  refine ⟨_, List.mem_append_right _ (checklists checklist member), found_plain rfl ?_⟩
  simp [key, Row.key, Reference.cascades, same, (storeItem_some made).2]

theorem lands_attachments (tasks : ∀ task ∈ stored.tasks, .task task ∈ earlier)
    (elsewhere : ∀ other ∈ earlier, ∀ row : Attachment, key other ≠ key (Row.attachment row)) :
    Lands (rows ++ earlier) (stored.attachments.map .attachment) := by
  refine lands_table prepared stores.attachments .attachment PlannedAttachment.id Attachment.id
    (ids_sublist plan _ (by simp))
    (fun _ _ made => (storeAttachment_some made).1) (by simp [importKeys, key, Row.key]) (by simp [key, Row.key])
    (fun _ => rfl) elsewhere ?_
  intro planned origin attachment made ref referred
  obtain ⟨_, onTask, uploader⟩ := storeAttachment_some made
  simp only [refs, Row.refs, List.mem_cons, List.not_mem_nil, or_false] at referred
  rcases referred with rfl | rfl
  · obtain ⟨task, member, same⟩ := stored_of_planned stores.tasks (fun _ _ made => (storeTask_some made).1)
      (prepared.sound.attachments_task planned origin)
    refine ⟨_, List.mem_append_right _ (tasks task member), found_plain rfl ?_⟩
    simp [key, Row.key, Reference.cascades, same, onTask]
  · obtain ⟨row, member, same⟩ := prepared.actor
    refine ⟨row, List.mem_append_left _ member, found_plain rfl ?_⟩
    simp [same, Reference.restricts, uploader, prepared.attachments planned origin]

/-- All of a plan's rows find what they need, in the order in which they are inserted. -/
theorem lands_tables : Lands rows (planTables workspaceId stored) := by
  unfold planTables
  refine lands_append.mpr ⟨lands_board prepared stores, ?_⟩
  refine lands_append.mpr ⟨lands_columns prepared stores (by simp) (by simp [key, Row.key]), ?_⟩
  rw [List.append_assoc]
  refine lands_append.mpr ⟨lands_labels prepared stores (by simp) (by simp [key, Row.key, or_imp, forall_and]), ?_⟩
  rw [List.append_assoc]
  refine lands_append.mpr ⟨lands_tasks prepared stores (by simp) (by simp) (by simp [key, Row.key, or_imp, forall_and]), ?_⟩
  rw [List.append_assoc]
  refine lands_append.mpr ⟨lands_taskLabels prepared stores (by simp) (by simp) (by simp [key, Row.key, or_imp, forall_and])
    (by simp [uniques, Row.uniques, or_imp, forall_and]), ?_⟩
  rw [List.append_assoc]
  refine lands_append.mpr ⟨lands_checklists prepared stores (by simp) (by simp [key, Row.key, or_imp, forall_and]), ?_⟩
  rw [List.append_assoc]
  refine lands_append.mpr ⟨lands_items prepared stores (by simp) (by simp [key, Row.key, or_imp, forall_and]), ?_⟩
  rw [List.append_assoc]
  exact lands_attachments prepared stores (by simp) (by simp [key, Row.key, or_imp, forall_and])

end Tables
end Landing

section Writing

variable {α : Type} [Entity Row α] {rows : List Row} {W : List (Write Row Key)} {now : Prop} {time : Input → Prop}
  {faults : Error → Prop} {failed : Error → Prop → List Row → List (Write Row Key) → Prop}

/-- In whatever chunks, the rows of a table are all taken. -/
theorem timely_writeAll {items : List α} (lands : Lands (applyAll rows W) (items.map (toRow : α → Row)))
    {ok : Unit → Prop → List Row → List (Write Row Key) → Prop}
    (refused : ∀ error W, faults error → failed error now rows W)
    (rest : ∀ W', applyAll rows W' = applyAll rows W ++ items.map toRow → ok () now rows W') :
    (TrelloImportService.writeAll items).Timely time faults ok failed now rows W := by
  rw [← flatten_chunked items (show 0 < IMPORT_CHUNK_SIZE by decide)] at lands rest
  unfold TrelloImportService.writeAll
  generalize chunked items IMPORT_CHUNK_SIZE = chunks at lands rest
  induction chunks generalizing W with
  | nil => exact rest W (by simp)
  | cons chunk chunks ih =>
      rw [List.flatten_cons, List.map_append] at lands rest
      obtain ⟨first, later⟩ := lands_append.mp lands
      apply Timely.bind
      apply Timely.bind
      apply Timely.createMany first fun error => refused error W
      intro n W' written
      rw [← written] at later
      refine ih later fun W'' more => rest W'' ?_
      rw [more, written, List.append_assoc]

/-- One table after the other. -/
theorem timely_then {items : List α} {more : List Row}
    (lands : Lands (applyAll rows W) (items.map (toRow : α → Row) ++ more))
    {next : Unit → Service Unit} {ok : Unit → Prop → List Row → List (Write Row Key) → Prop}
    (refused : ∀ error W, faults error → failed error now rows W)
    (rest : ∀ W', applyAll rows W' = applyAll rows W ++ items.map toRow → Lands (applyAll rows W') more →
      (next ()).Timely time faults ok failed now rows W') :
    ((TrelloImportService.writeAll items).bind next).Timely time faults ok failed now rows W := by
  obtain ⟨first, later⟩ := lands_append.mp lands
  apply Timely.bind
  apply timely_writeAll first refused
  intro W' written
  exact rest W' written (written ▸ later)

theorem timely_writePlan {workspaceId : Id} {stored : Kurul.TrelloImportPlan}
    (lands : Lands (applyAll rows W) (planTables workspaceId stored))
    {ok : Unit → Prop → List Row → List (Write Row Key) → Prop}
    (refused : ∀ error W, faults error → failed error now rows W)
    (rest : ∀ W', applyAll rows W' = applyAll rows W ++ planTables workspaceId stored → ok () now rows W') :
    (TrelloImportService.writePlan workspaceId stored).Timely time faults ok failed now rows W := by
  obtain ⟨⟨board, _⟩, lands⟩ := lands_append.mp lands
  apply Timely.bind
  apply Timely.create board fun error => refused error W
  intro W₁ first
  change applyAll rows W₁ = applyAll rows W ++ [.board (boardRow workspaceId stored)] at first
  rw [← first] at lands
  apply timely_then lands refused
  intro W₂ columns lands
  apply timely_then lands refused
  intro W₃ labels lands
  apply timely_then lands refused
  intro W₄ tasks lands
  apply timely_then lands refused
  intro W₅ taskLabels lands
  apply timely_then lands refused
  intro W₆ checklists lands
  apply timely_then lands refused
  intro W₇ items lands
  apply timely_writeAll lands refused
  intro W₈ attachments
  refine rest W₈ ?_
  rw [attachments, items, checklists, taskLabels, tasks, labels, columns, first, planTables]
  simp only [List.append_assoc]
  rfl

/-- The workspace has a ceiling, and has reached it. -/
def Full (config : PlanConfig) (workspaceId : Id) (rows : List Row) (boards : Nat) : Prop :=
  (PlanLimitsService.limitsOf config workspaceId rows).boards = some boards ∧
    boards ≤ (table rows : List Board).countP (·.workspaceId = workspaceId)

/-- The board ceiling lets the next step run, or refuses with its own error. -/
theorem timely_assertBoardAvailable {config : PlanConfig} {workspaceId : Id}
    {ok : Unit → Prop → List Row → List (Write Row Key) → Prop}
    (refused : ∀ error, faults error → failed error now rows W)
    (full : ∀ boards, Full config workspaceId (applyAll rows W) boards →
      failed (.planLimitExceeded boards ((table (applyAll rows W) : List Board).countP (·.workspaceId = workspaceId))
        "This workspace has reached the number of boards its plan allows") now rows W)
    (rest : (∀ boards, ¬Full config workspaceId (applyAll rows W) boards) → ok () now rows W) :
    (PlanLimitsService.assertBoardAvailable config workspaceId).Timely time faults ok failed now rows W := by
  apply Timely.bind
  apply Timely.read refused
  cases limit : (PlanLimitsService.limitsOf config workspaceId (applyAll rows W)).boards with
  | none =>
      apply rest
      rintro boards ⟨reached, _⟩
      rw [limit] at reached
      contradiction
  | some boards =>
      apply Timely.bind
      apply Timely.read refused
      apply Timely.require
      · intro passed
        exact full boards ⟨limit, by simpa using passed⟩
      · intro below
        apply rest
        rintro ceiling ⟨reached, taken⟩
        cases limit.symm.trans reached
        exact Nat.not_lt.mpr taken (of_decide_eq_true below)

end Writing

section Runs

variable {runtime : Runtime} {supply : Nat → Id} {read : TrelloExportReadResult} {workspaceId actorId : Id}
  {rows : List Row}
  {text : JsString → Option String} {date : Int → Option DateTime} {now : DateTime}
  {group : SkipGroup → TrelloImportSkipGroupDto} {stored : Kurul.TrelloImportPlan}

theorem prepared_plan (runtime : Runtime) (read : TrelloExportReadResult) (distinct : Function.Injective supply)
    (intact : Intact rows)
    (workspace : ∃ row ∈ rows, key row = Key.workspace workspaceId) (actor : ∃ row ∈ rows, key row = Key.user actorId)
    (unused : ∀ n, Unused rows (supply n)) :
    Prepared rows workspaceId actorId (planTrelloImport runtime supply read actorId) where
  intact := intact
  workspace := workspace
  actor := actor
  sound := planTrelloImport_sound runtime supply read actorId distinct
  unused := by
    intro id listed
    obtain ⟨_, drawn⟩ := spent_plan runtime supply read actorId
    obtain ⟨n, _, rfl⟩ := List.mem_map.mp (drawn.mem_iff.mp listed)
    exact unused n
  tasks := by
    intro task member
    obtain ⟨card, listed, rfl⟩ := List.mem_map.mp member
    obtain ⟨column, _, trello, _, count, index, n, _, rfl⟩ := card_origin listed
    rfl
  attachments := by
    intro row member
    obtain ⟨card, listed, inside⟩ := List.mem_flatMap.mp member
    obtain ⟨column, _, trello, _, count, index, n, _, rfl⟩ := card_origin listed
    obtain ⟨place, attachment, m, _, made⟩ := mem_forEachIdx (List.reduceOption_mem_iff.mp inside)
    unfold planAttachment at made
    cases verdict : classifyUrl runtime attachment.url with
    | error reason =>
        rw [verdict] at made
        exact nomatch made
    | ok href =>
        rw [verdict] at made
        injection made with made
        exact congrArg PlannedAttachment.uploadedById made

/-- Why an import is refused: the export holds more than is accepted, or the workspace may have no further board. -/
inductive Refused (config : PlanConfig) (limits : TrelloImportConfig) (workspaceId : Id) (rows : List Row)
    (lists cards : Nat) :
    Error → Prop
  | tooLarge (beyond : limits.maxLists < lists ∨ limits.maxCards < cards) :
      Refused config limits workspaceId rows lists cards
      (.badRequest (s!"This export has more lists or cards than this instance accepts " ++
        s!"(limit {limits.maxLists} lists, {limits.maxCards} cards)"))
  | full (boards : Nat) (reached : Full config workspaceId rows boards) : Refused config limits workspaceId rows lists cards
      (.planLimitExceeded boards ((table rows : List Board).countP (·.workspaceId = workspaceId))
        "This workspace has reached the number of boards its plan allows")

/-- What an import leaves: its tables, the one record of it in the workspace's activity, and a report of what it stored. -/
def Imported (workspaceId actorId : Id) (rows : List Row) (stored : Kurul.TrelloImportPlan) (report : TrelloImportReportDto)
    (rows' : List Row) : Prop :=
  (∃ activity : Activity, rows' = rows ++ planTables workspaceId stored ++ [.activity activity] ∧
    activity.workspaceId = workspaceId ∧ activity.userId = actorId ∧ activity.type = .BoardImported) ∧
  report = ⟨stored.board.1, stored.board.2.1, importedCounts stored, stored.skipped⟩

theorem planTables_key {row : Row} (member : row ∈ planTables workspaceId stored) {id : Id} :
    key row ≠ Key.activity id := by
  revert row
  simp [planTables, key, Row.key, or_imp, forall_and]

/-- The record of an import stands among its tables: its id is its own, and the workspace and the actor are there. -/
theorem accepts_record {activity : Activity} (workspace : ∃ row ∈ rows, key row = Key.workspace workspaceId)
    (actor : ∃ row ∈ rows, key row = Key.user actorId) (fresh : ∀ row ∈ rows, key row ≠ Key.activity activity.id)
    (here : activity.workspaceId = workspaceId) (own : activity.userId = actorId) (plain : activity.taskId = none) :
    Accepts (rows ++ planTables workspaceId stored) (.activity activity) := by
  refine ⟨?_, ?_, by simp [uniques, Row.uniques]⟩
  · intro other member
    rcases List.mem_append.mp member with old | new
    · exact fresh other old
    · exact planTables_key new
  · intro ref referred
    simp only [refs, Row.refs, plain, Option.toList, List.map_nil, List.nil_append, List.cons_append, List.mem_cons,
      List.not_mem_nil, or_false] at referred
    rcases referred with rfl | rfl
    · obtain ⟨row, member, same⟩ := workspace
      exact ⟨row, List.mem_append_left _ member, found_plain rfl (same.trans (congrArg Key.workspace here.symm))⟩
    · obtain ⟨row, member, same⟩ := actor
      exact ⟨row, List.mem_append_left _ member, found_plain rfl (same.trans (congrArg Key.user own.symm))⟩

theorem timely_importBoard (config : PlanConfig) (limits : TrelloImportConfig) (lists cards : Nat) (faults : Error → Prop)
    {plan : TrelloImportPlan Id} (prepared : Prepared rows workspaceId actorId plan)
    (stores : Stores text date now plan stored) :
    (TrelloImportService.importBoard config limits workspaceId actorId (.ok (⟨lists, cards, stored⟩ : Kurul.TrelloExport))).Timely
      (fun x => ∀ row ∈ rows, key row ≠ Key.activity x.id) faults
      (fun report _ rows' _ => Imported workspaceId actorId rows stored report rows' ∧
        ∀ error, ¬Refused config limits workspaceId rows lists cards error)
      (fun error _ rows' _ => rows' = rows ∧ (faults error ∨ Refused config limits workspaceId rows lists cards error))
      True rows [] := by
  apply Timely.bind
  by_cases beyond : limits.maxLists < lists ∨ limits.maxCards < cards
  · simp only [TrelloImportService.acceptExport, Bind.bind, Except.bind, gt_iff_lt, if_pos beyond]
    exact ⟨rfl, .inr (.tooLarge beyond)⟩
  simp only [TrelloImportService.acceptExport, Bind.bind, Except.bind, gt_iff_lt, if_neg beyond]
  have failing : ∀ error, faults error → rows = rows ∧
      (faults error ∨ Refused config limits workspaceId rows lists cards error) := fun _ fault => ⟨rfl, .inl fault⟩
  apply Timely.bind
  apply Timely.transaction
  apply Timely.bind
  apply timely_assertBoardAvailable failing
  · intro boards reached
    exact ⟨rfl, .inr (.full boards reached)⟩
  intro room
  apply Timely.bind
  apply timely_writePlan (W := []) (lands_tables prepared stores) fun error _ => failing error
  intro W written
  change applyAll rows W = rows ++ planTables workspaceId stored at written
  apply Timely.bind
  intro x fresh
  apply Timely.create ?_ failing
  · intro W' recorded
    refine ⟨failing, ⟨⟨_, recorded.trans (congrArg (· ++ _) written), rfl, rfl, rfl⟩, rfl⟩, ?_⟩
    rintro error (large | ⟨boards, reached⟩)
    · exact beyond large
    · exact room boards reached
  · rw [written]
    exact accepts_record prepared.workspace prepared.actor (fresh trivial) rfl rfl rfl

/-- Where the database can hold what the planner makes of an export, an import either is refused for its size or
for the ceiling of the workspace, or fails as the database fails, and then has changed nothing; or it stores
every row of the plan under its own key, and is not one that is to be refused. -/
theorem imports_whole (config : PlanConfig) (limits : TrelloImportConfig) (runtime : Runtime) (supply : Nat → Id)
    (read : TrelloExportReadResult) (workspaceId actorId : Id) (rows : List Row) (oracle : Nat → Choice Input Error)
    (text : JsString → Option String) (date : Int → Option DateTime) (now : DateTime)
    (group : SkipGroup → TrelloImportSkipGroupDto) (stored : Kurul.TrelloImportPlan) (distinct : Function.Injective supply)
    (intact : Intact rows) (workspace : ∃ row ∈ rows, key row = Key.workspace workspaceId)
    (actor : ∃ row ∈ rows, key row = Key.user actorId) (unused : ∀ n, Unused rows (supply n))
    (fresh : ∀ n, ∀ row ∈ rows, key row ≠ Key.activity (oracle n).value.id)
    (kept : storePlan text date now group (planTrelloImport runtime supply read actorId) = some stored) :
    let ended := (TrelloImportService.importBoard config limits workspaceId actorId
      (.ok (⟨read.source.lists.length, read.source.cards.length, stored⟩ : Kurul.TrelloExport))).run oracle { rows }
    let refused := Refused config limits workspaceId rows read.source.lists.length read.source.cards.length
    (planTables workspaceId stored).map key = (planTrelloImport runtime supply read actorId).rows.map PlannedRow.storedKey ∧
    ((∃ report, ended.1 = .ok report ∧ Imported workspaceId actorId rows stored report ended.2.rows ∧ ∀ error, ¬refused error) ∨
      ∃ error, ended.1 = .error error ∧ ended.2.rows = rows ∧ ((∃ n, (oracle n).fault = some error) ∨ refused error)) := by
  have prepared := prepared_plan runtime read distinct intact workspace actor unused
  have timely := timely_importBoard config limits read.source.lists.length read.source.cards.length
    (fun error => ∃ n, (oracle n).fault = some error) prepared (stores_of_storePlan kept)
  have given : Given (fun x : Input => ∀ row ∈ rows, key row ≠ Key.activity x.id)
    (fun error => ∃ n, (oracle n).fault = some error)
      oracle 0 True := ⟨fun n _ _ => fresh n, fun _ m _ _ _ => fresh m, fun n _ error fault => ⟨n, fault⟩⟩
  obtain ⟨_, _, _, reached⟩ := timely.run (s := { rows }) given
  exact ⟨planTables_keys (stores_of_storePlan kept) workspaceId, reached⟩

end Runs

def sampleText (units : JsString) : String := String.ofList (units.map fun unit => Char.ofNat unit.val)

/-- Ids that are all different. -/
def tally (n : Nat) : Id := String.ofList (List.replicate (n + 1) 'i')

theorem tally_injective : Function.Injective tally := by
  intro n m same
  have lengths := congrArg List.length (String.ofList_inj.mp same)
  simpa using lengths

theorem tally_unused (n : Nat) : Unused sampleWorkspace (tally n) := by
  have other : "b" ≠ tally n := by
    intro same
    have letters : ['b'] = List.replicate (n + 1) 'i' := String.ofList_inj.mp same
    rw [List.replicate_succ] at letters
    cases letters
  intro row stored
  simp only [sampleWorkspace, List.mem_cons, List.not_mem_nil, or_false] at stored
  rcases stored with rfl | rfl | rfl | rfl | rfl | rfl <;> simp [key, Row.key, importKeys, other]

theorem imports_whole_sample : ∃ read stored, parseTrelloExport sampleExport = some read ∧
    (read.source.lists.length, read.source.cards.length, stored.tasks.length, stored.checklistItems.length) = (3, 2, 1, 1) ∧
    ∃ report, ((TrelloImportService.importBoard {} {} "w" "ann"
        (.ok (⟨read.source.lists.length, read.source.cards.length, stored⟩ : Kurul.TrelloExport))).run smooth
      { rows := sampleWorkspace }).1 = .ok report ∧
      Imported "w" "ann" sampleWorkspace stored report ((TrelloImportService.importBoard {} {} "w" "ann"
        (.ok (⟨read.source.lists.length, read.source.cards.length, stored⟩ : Kurul.TrelloExport))).run smooth
          { rows := sampleWorkspace }).2.rows := by
  have planned : ((parseTrelloExport sampleExport).bind fun read =>
      (storePlan (fun units => some (sampleText units)) some 0 (fun skipped => ⟨"", "", skipped.count, []⟩)
        (planTrelloImport sampleRuntime tally read "ann")).map fun stored =>
          (read.source.lists.length, read.source.cards.length, stored.tasks.length, stored.checklistItems.length)) =
      some (3, 2, 1, 1) := by decide +kernel
  obtain ⟨read, parsed, planned⟩ := Option.bind_eq_some_iff.mp planned
  obtain ⟨stored, kept, counts⟩ := Option.map_eq_some_iff.mp planned
  refine ⟨read, stored, parsed, counts, ?_⟩
  obtain ⟨lists, cards, _⟩ := Prod.mk.inj counts |>.imp id fun rest => Prod.mk.inj rest
  obtain ⟨_, ended⟩ := imports_whole {} {} sampleRuntime tally read "w" "ann" sampleWorkspace smooth _ _ _ _ stored
    tally_injective ⟨by decide +kernel, by decide +kernel⟩
    ⟨.workspace { id := "w", name := "Kurul", slug := "kurul" }, by simp [sampleWorkspace], rfl⟩
    ⟨.user { id := "ann", email := "ann@kurul.dev", name := "Ann" }, by simp [sampleWorkspace], rfl⟩
    tally_unused (by simp [sampleWorkspace, key, Row.key]) kept
  rcases ended with ⟨report, answered, imported, _⟩ | ⟨error, _, _, ⟨n, fault⟩ | refused⟩
  · exact ⟨report, answered, imported⟩
  · cases fault
  · cases refused with
    | tooLarge beyond =>
        rw [lists, cards] at beyond
        exact absurd beyond (by decide)
    | full boards reached =>
        have open_ : (PlanLimitsService.limitsOf {} "w" sampleWorkspace).boards = none := by decide +kernel
        have limited := open_.symm.trans reached.1
        cases limited

end Kurul.Trello
