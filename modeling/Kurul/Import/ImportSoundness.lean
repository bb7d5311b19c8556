import Kurul.Import.ImportPlans

/-! A plan refers to its own rows only, and is written in an order that never refers ahead. -/
namespace Kurul.Trello

open Draw

variable {ι : Type}

section Rows

variable [DecidableEq ι] {runtime : Runtime} {supply : Nat → ι} {read : TrelloExportReadResult} {actorId : Id}

theorem mem_lastSet {κ ν : Type} [DecidableEq κ] {entries : List (κ × ν)} {key : κ} {value : ν}
    (found : lastSet entries key = some value) : (key, value) ∈ entries := by
  obtain ⟨entry, located, rfl⟩ := Option.map_eq_some_iff.mp found
  have member := List.mem_reverse.mp (List.mem_of_find?_eq_some located)
  have same : entry.1 = key := by simpa using List.find?_some located
  rw [← same]
  exact member

omit [DecidableEq ι] in
theorem column_boardId {column : JsString × PlannedColumn ι} (member : column ∈ (columnStage supply read).value) :
    column.2.boardId = supply 0 := by
  obtain ⟨place, list, m, _, rfl⟩ := mem_forEachIdx member
  rfl

omit [DecidableEq ι] in
theorem label_boardId {label : JsString × PlannedLabel ι} (member : label ∈ (labelStage runtime supply read).value) :
    label.2.boardId = supply 0 := by
  obtain ⟨place, list, m, _, rfl⟩ := mem_forEachIdx member
  rfl

theorem positionsFor_eq (count index : Nat) : positionsFor count index = ((index : ℚ) + 1) * POSITION_GAP := by
  unfold positionsFor
  by_cases inside : index < count
  · rw [← rebalancePositions_getD inside]
    simp [List.getD_eq_getElem?_getD, rebalancePositions, inside]
  · simp [rebalancePositions, Nat.not_lt.mp inside]

theorem positionsFor_lt (count i j : Nat) (less : i < j) : positionsFor count i < positionsFor count j := by
  rw [positionsFor_eq, positionsFor_eq]
  have less' : (i : ℚ) < (j : ℚ) := by exact_mod_cast less
  exact mul_lt_mul_of_pos_right (by linarith) (by norm_num [POSITION_GAP])

/-- The labels of one card: its own, known ones, none twice. -/
theorem planTaskLabels_rows (known : JsString → Option ι) (taskId : ι) (title : JsString) (attached : List ι)
    (wanted : List JsString) (n : Nat) :
    (∀ row ∈ (planTaskLabels supply known taskId title attached wanted n).value,
      row.taskId = taskId ∧ row.labelId ∉ attached ∧ ∃ key, known key = some row.labelId) ∧
    (planTaskLabels supply known taskId title attached wanted n).value.Pairwise
      fun a b => a.labelId ≠ b.labelId := by
  induction wanted generalizing attached n with
  | nil => exact ⟨fun row member => (List.not_mem_nil member).elim, List.Pairwise.nil⟩
  | cons trelloLabelId rest ih =>
      unfold planTaskLabels
      cases found : known trelloLabelId with
      | none => exact ih attached n
      | some labelId =>
          by_cases there : labelId ∈ attached
          · simp only [if_pos there]
            exact ih attached n
          · simp only [if_neg there]
            obtain ⟨rows, apart⟩ := ih (labelId :: attached) (n + 1)
            refine ⟨?_, List.pairwise_cons.mpr ⟨?_, apart⟩⟩
            · intro row member
              rcases List.mem_cons.mp member with rfl | later
              · exact ⟨rfl, there, trelloLabelId, found⟩
              · obtain ⟨own, new, key⟩ := rows row later
                exact ⟨own, fun old => new (List.mem_cons_of_mem _ old), key⟩
            · intro row member same
              exact (rows row member).2.1 (same ▸ List.mem_cons_self)

theorem planTask_attachments {labels : JsString → Option ι} {boardId columnId : ι} {count index n : Nat}
    {card : TrelloCard} {row : PlannedAttachment ι}
    (member : row ∈ (planTask runtime supply actorId labels boardId columnId count index card n).value.attachments) :
    row.taskId = (planTask runtime supply actorId labels boardId columnId count index card n).value.task.id := by
  obtain ⟨place, attachment, m, _, made⟩ := mem_forEachIdx (List.reduceOption_mem_iff.mp member)
  unfold planAttachment at made
  cases verdict : classifyUrl runtime attachment.url with
  | error reason =>
      rw [verdict] at made
      exact nomatch made
  | ok href =>
      rw [verdict] at made
      injection made with made
      exact congrArg PlannedAttachment.taskId made

/-- Every card planned comes from a card of the export and stands in a column of the plan. -/
theorem card_origin {card : PlannedCard ι} (member : card ∈ plannedCards runtime supply read actorId) :
    ∃ column ∈ (columnStage supply read).value.map Prod.snd, ∃ trello ∈ read.source.cards, ∃ count index n,
      verdictOf supply read trello = .ok column.id ∧
      card = (planTask runtime supply actorId (labelOf runtime supply read) column.boardId column.id count index
        trello n).value := by
  obtain ⟨cards, listed, inside⟩ := List.mem_flatten.mp member
  obtain ⟨place, column, m, there, rfl⟩ := mem_forEachIdx listed
  obtain ⟨place', trello, n, there', rfl⟩ := mem_forEachIdx inside
  have own := (List.perm_insertionSort _ _).mem_iff.mp (List.mem_of_getElem? there')
  obtain ⟨listed', verdict⟩ := List.mem_filter.mp own
  refine ⟨column, List.mem_of_getElem? there, trello, listed', _, _, n, ?_, rfl⟩
  cases made : verdictOf supply read trello with
  | error reason => simp [made, Except.toOption] at verdict
  | ok columnId =>
      have same : columnId = column.id := by simpa [made, Except.toOption] using verdict
      rw [same]

/-- Every checklist planned hangs on a task of the plan. -/
theorem hung_origin {hung : PlannedChecklist ι × List (PlannedItem ι)}
    (member : hung ∈ (checklistStage runtime supply read actorId).value.flatten) :
    ∃ task ∈ (plannedCards runtime supply read actorId).map PlannedCard.task, ∃ trello ∈ read.source.checklists,
      ∃ count index n, hung = (planChecklist supply task.id count index trello n).value := by
  obtain ⟨rows, listed, inside⟩ := List.mem_flatten.mp member
  obtain ⟨place, task, m, there, rfl⟩ := mem_forEachIdx listed
  obtain ⟨place', trello, n, there', rfl⟩ := mem_forEachIdx inside
  have own := (List.perm_insertionSort _ _).mem_iff.mp (List.mem_of_getElem? there')
  exact ⟨task, List.mem_of_getElem? there, trello, (List.mem_filter.mp own).1, _, _, n, rfl⟩

end Rows

/-- The ids of a plan, the board's first. -/
def TrelloImportPlan.ids (plan : TrelloImportPlan ι) : List ι :=
  plan.board.id :: (plan.columns.map PlannedColumn.id ++ plan.labels.map PlannedLabel.id ++
    plan.tasks.map PlannedTask.id ++ plan.taskLabels.map PlannedTaskLabel.id ++
    plan.checklists.map PlannedChecklist.id ++ plan.checklistItems.map PlannedItem.id ++
    plan.attachments.map PlannedAttachment.id)

/-- A plan that refers to rows of its own alone, numbers its rows apart and lays out the rows
of each parent in order. -/
structure Sound (plan : TrelloImportPlan ι) : Prop where
  columns_board : ∀ column ∈ plan.columns, column.boardId = plan.board.id
  labels_board : ∀ label ∈ plan.labels, label.boardId = plan.board.id
  tasks_board : ∀ task ∈ plan.tasks, task.boardId = plan.board.id
  tasks_column : ∀ task ∈ plan.tasks, task.columnId ∈ plan.columns.map PlannedColumn.id
  taskLabels_task : ∀ row ∈ plan.taskLabels, row.taskId ∈ plan.tasks.map PlannedTask.id
  taskLabels_label : ∀ row ∈ plan.taskLabels, row.labelId ∈ plan.labels.map PlannedLabel.id
  checklists_task : ∀ checklist ∈ plan.checklists, checklist.taskId ∈ plan.tasks.map PlannedTask.id
  items_checklist : ∀ item ∈ plan.checklistItems, item.checklistId ∈ plan.checklists.map PlannedChecklist.id
  attachments_task : ∀ row ∈ plan.attachments, row.taskId ∈ plan.tasks.map PlannedTask.id
  ids_nodup : plan.ids.Nodup
  pairs_nodup : (plan.taskLabels.map fun row => (row.taskId, row.labelId)).Nodup
  columns_rise : plan.columns.Pairwise fun a b => a.position < b.position
  tasks_rise : plan.tasks.Pairwise fun a b => a.columnId = b.columnId → a.position < b.position
  checklists_rise : plan.checklists.Pairwise fun a b => a.taskId = b.taskId → a.position < b.position
  items_rise : plan.checklistItems.Pairwise fun a b => a.checklistId = b.checklistId → a.position < b.position

section Ids

variable [DecidableEq ι] (runtime : Runtime) (supply : Nat → ι) (read : TrelloExportReadResult) (actorId : Id)

omit [DecidableEq ι] in
theorem spent_columns : Spent supply 1 (columnStage supply read).next
    (((columnStage supply read).value.map Prod.snd).map PlannedColumn.id) := by
  have spent := Fresh.forEachIdx 0 (liveLists read) (fresh_planColumn supply (supply 0) (liveLists read).length) 1
  beta_reduce at spent
  rw [← List.map_eq_flatMap] at spent
  rw [List.map_map]
  exact spent

omit [DecidableEq ι] in
theorem spent_labels : Spent supply (columnStage supply read).next (labelStage runtime supply read).next
    (((labelStage runtime supply read).value.map Prod.snd).map PlannedLabel.id) := by
  have spent := Fresh.forEachIdx 0 read.source.labels (fun _ => fresh_planLabel runtime supply (supply 0))
    (columnStage supply read).next
  beta_reduce at spent
  rw [← List.map_eq_flatMap] at spent
  rw [List.map_map]
  exact spent

theorem spent_cards : Spent supply (labelStage runtime supply read).next (cardStage runtime supply read actorId).next
    ((plannedCards runtime supply read actorId).flatMap PlannedCard.ids) := by
  have column : ∀ (_ : Nat) (column : PlannedColumn ι), Fresh supply (fun cards => cards.flatMap PlannedCard.ids)
      (planCards runtime supply actorId (labelOf runtime supply read) (verdictOf supply read) read.source.cards column) :=
    fun _ column => Fresh.forEachIdx 0 _ (fresh_planTask runtime supply actorId _ column.boardId column.id _)
  have spent := Fresh.forEachIdx 0 ((columnStage supply read).value.map Prod.snd) column
    (labelStage runtime supply read).next
  beta_reduce at spent
  rw [plannedCards, ← List.flatMap_id, List.flatMap_assoc]
  exact spent

theorem spent_checklists : Spent supply (cardStage runtime supply read actorId).next
    (checklistStage runtime supply read actorId).next
    ((checklistStage runtime supply read actorId).value.flatten.flatMap hungIds) := by
  have task : ∀ (_ : Nat) (task : PlannedTask ι), Fresh supply (fun rows => rows.flatMap hungIds)
      (planChecklists supply (hangsOn runtime supply read actorId) read.source.checklists task) :=
    fun _ task => Fresh.forEachIdx 0 _ (fresh_planChecklist supply task.id _)
  have spent := Fresh.forEachIdx 0 ((plannedCards runtime supply read actorId).map PlannedCard.task) task
    (cardStage runtime supply read actorId).next
  beta_reduce at spent
  rw [← List.flatMap_id, List.flatMap_assoc]
  exact spent

omit [DecidableEq ι] in
/-- The rows of several kinds, one kind after the other. -/
theorem perm_ids (cards : List (PlannedCard ι)) :
    (cards.flatMap PlannedCard.ids).Perm ((cards.map PlannedCard.task).map PlannedTask.id ++
      ((cards.flatMap PlannedCard.taskLabels).map PlannedTaskLabel.id ++
        (cards.flatMap PlannedCard.attachments).map PlannedAttachment.id)) := by
  have tasks := List.flatMap_append_perm cards (fun card => [card.task.id]) fun card =>
    card.taskLabels.map PlannedTaskLabel.id ++ card.attachments.map PlannedAttachment.id
  have parts := List.flatMap_append_perm cards (fun card => card.taskLabels.map PlannedTaskLabel.id) fun card =>
    card.attachments.map PlannedAttachment.id
  rw [List.map_map, List.map_flatMap, List.map_flatMap]
  rw [← List.map_eq_flatMap] at tasks
  exact tasks.symm.trans ((List.Perm.refl _).append parts.symm)

omit [DecidableEq ι] in
theorem perm_hungIds (hung : List (PlannedChecklist ι × List (PlannedItem ι))) :
    (hung.flatMap hungIds).Perm ((hung.map Prod.fst).map PlannedChecklist.id ++
      (hung.flatMap Prod.snd).map PlannedItem.id) := by
  have parts := List.flatMap_append_perm hung (fun row => [row.1.id]) fun row => row.2.map PlannedItem.id
  rw [List.map_map, List.map_flatMap]
  rw [← List.map_eq_flatMap] at parts
  exact parts.symm

/-- A plan uses each id it draws once. -/
theorem spent_plan : Spent supply 0 (checklistStage runtime supply read actorId).next
    (planTrelloImport runtime supply read actorId).ids := by
  have board : Spent supply 0 1 [supply 0] := Spent.one
  have spent := board.append ((spent_columns supply read).append ((spent_labels runtime supply read).append
    ((spent_cards runtime supply read actorId).append (spent_checklists runtime supply read actorId))))
  rw [List.singleton_append] at spent
  refine spent.perm (List.Perm.cons _ ?_)
  have cards := perm_ids (plannedCards runtime supply read actorId)
  have hung := perm_hungIds (checklistStage runtime supply read actorId).value.flatten
  refine List.Perm.trans ?_ ((List.Perm.refl _).append ((List.Perm.refl _).append (cards.append hung).symm))
  simp only [planTrelloImport, planRows_value, List.append_assoc]
  refine (List.Perm.refl _).append ((List.Perm.refl _).append ((List.Perm.refl _).append
    ((List.Perm.refl _).append ?_)))
  rw [← List.append_assoc]
  exact List.perm_append_comm

theorem tasks_apart (distinct : Function.Injective supply) :
    (plannedCards runtime supply read actorId).Pairwise fun a b => a.task.id ≠ b.task.id := by
  have ids := (spent_cards runtime supply read actorId).nodup distinct
  have tasks := (List.nodup_append.mp ((perm_ids _).nodup_iff.mp ids)).1
  rw [List.map_map] at tasks
  exact List.pairwise_map.mp tasks

end Ids

section Soundness

variable [DecidableEq ι] (runtime : Runtime) (supply : Nat → ι) (read : TrelloExportReadResult) (actorId : Id)

/-- The tasks of a column in order, column by column. -/
theorem cards_rise (distinct : Function.Injective supply) :
    (plannedCards runtime supply read actorId).Pairwise
      fun a b => a.task.columnId = b.task.columnId → a.task.position < b.task.position := by
  have columns : ((columnStage supply read).value.map Prod.snd).Pairwise fun a b => a.id ≠ b.id :=
    List.pairwise_map.mp ((spent_columns supply read).nodup distinct)
  refine List.pairwise_flatten.mpr ⟨?_, ?_⟩
  · intro cards listed
    obtain ⟨place, column, m, _, rfl⟩ := mem_forEachIdx listed
    have rises : (planCards runtime supply actorId (labelOf runtime supply read) (verdictOf supply read)
        read.source.cards column m).value.Pairwise fun a b => a.task.position < b.task.position :=
      rising_forEachIdx (fun card : PlannedCard ι => card.task.position) (positionsFor _) (positionsFor_lt _)
        fun _ _ _ => rfl
    refine rises.imp ?_
    intro a b less _
    exact less
  · refine pairwise_forEachIdx columns 0 _ ?_
    intro i j column other k m apart x inside y inside' same
    obtain ⟨_, _, _, _, rfl⟩ := mem_forEachIdx inside
    obtain ⟨_, _, _, _, rfl⟩ := mem_forEachIdx inside'
    exact (apart same).elim

theorem checklists_rise (distinct : Function.Injective supply) :
    (checklistStage runtime supply read actorId).value.flatten.Pairwise
      fun a b => a.1.taskId = b.1.taskId → a.1.position < b.1.position := by
  have tasks : ((plannedCards runtime supply read actorId).map PlannedCard.task).Pairwise fun a b => a.id ≠ b.id :=
    List.pairwise_map.mpr (tasks_apart runtime supply read actorId distinct)
  refine List.pairwise_flatten.mpr ⟨?_, ?_⟩
  · intro rows listed
    obtain ⟨place, task, m, _, rfl⟩ := mem_forEachIdx listed
    have rises : (planChecklists supply (hangsOn runtime supply read actorId) read.source.checklists task m).value.Pairwise
        fun a b => a.1.position < b.1.position :=
      rising_forEachIdx (fun row : PlannedChecklist ι × List (PlannedItem ι) => row.1.position) (positionsFor _)
        (positionsFor_lt _) fun _ _ _ => rfl
    refine rises.imp ?_
    intro a b less _
    exact less
  · refine pairwise_forEachIdx tasks 0 _ ?_
    intro i j task other k m apart x inside y inside' same
    obtain ⟨_, _, _, _, rfl⟩ := mem_forEachIdx inside
    obtain ⟨_, _, _, _, rfl⟩ := mem_forEachIdx inside'
    exact (apart same).elim

omit [DecidableEq ι] in
/-- What a checklist holds is its own, in order. -/
theorem planChecklist_items {taskId : ι} {count index n : Nat} {checklist : TrelloChecklist} :
    (∀ item ∈ (planChecklist supply taskId count index checklist n).value.2,
      item.checklistId = (planChecklist supply taskId count index checklist n).value.1.id) ∧
    (planChecklist supply taskId count index checklist n).value.2.Pairwise fun a b => a.position < b.position := by
  refine ⟨?_, rising_forEachIdx PlannedItem.position (positionsFor _) (positionsFor_lt _) fun _ _ _ => rfl⟩
  intro item member
  obtain ⟨_, _, _, _, rfl⟩ := mem_forEachIdx member
  rfl

theorem hung_apart (distinct : Function.Injective supply) :
    (checklistStage runtime supply read actorId).value.flatten.Pairwise fun a b => a.1.id ≠ b.1.id := by
  have ids := (spent_checklists runtime supply read actorId).nodup distinct
  have checklists := (List.nodup_append.mp ((perm_hungIds _).nodup_iff.mp ids)).1
  rw [List.map_map] at checklists
  exact List.pairwise_map.mp checklists

theorem items_rise (distinct : Function.Injective supply) :
    ((checklistStage runtime supply read actorId).value.flatten.flatMap Prod.snd).Pairwise
      fun a b => a.checklistId = b.checklistId → a.position < b.position := by
  have own : ∀ hung ∈ (checklistStage runtime supply read actorId).value.flatten,
      (∀ item ∈ hung.2, item.checklistId = hung.1.id) ∧ hung.2.Pairwise fun a b => a.position < b.position := by
    intro hung member
    obtain ⟨task, _, trello, _, count, index, n, rfl⟩ := hung_origin member
    exact planChecklist_items supply
  refine List.pairwise_flatMap.mpr ⟨?_, ?_⟩
  · intro hung member
    refine (own hung member).2.imp ?_
    intro a b less _
    exact less
  · refine (hung_apart runtime supply read actorId distinct).imp_of_mem ?_
    intro hung other member member' apart item inside item' inside' same
    exact (apart (((own hung member).1 item inside).symm.trans (same.trans ((own other member').1 item' inside')))).elim

theorem pairs_apart (distinct : Function.Injective supply) :
    ((plannedCards runtime supply read actorId).flatMap PlannedCard.taskLabels).Pairwise
      fun a b => (a.taskId, a.labelId) ≠ (b.taskId, b.labelId) := by
  have own : ∀ card ∈ plannedCards runtime supply read actorId,
      (∀ row ∈ card.taskLabels, row.taskId = card.task.id) ∧ card.taskLabels.Pairwise fun a b => a.labelId ≠ b.labelId := by
    intro card member
    obtain ⟨column, _, trello, _, count, index, n, _, rfl⟩ := card_origin member
    obtain ⟨rows, apart⟩ := planTaskLabels_rows (labelOf runtime supply read) (supply n)
      (clampToLength trello.name MAX_TASK_TITLE_LENGTH).value [] trello.idLabels (n + 1)
    exact ⟨fun row inside => (rows row inside).1, apart⟩
  refine List.pairwise_flatMap.mpr ⟨fun card member => (own card member).2.imp ?_, ?_⟩
  · intro a b apart same
    exact apart (congrArg Prod.snd same)
  · refine (tasks_apart runtime supply read actorId distinct).imp_of_mem ?_
    intro card other member member' apart row inside row' inside' same
    have tasks : row.taskId = row'.taskId := congrArg Prod.fst same
    exact apart (((own card member).1 row inside).symm.trans (tasks.trans ((own other member').1 row' inside')))

/-- A label of a card is one of the plan's. -/
theorem taskLabel_known {card : PlannedCard ι} (member : card ∈ plannedCards runtime supply read actorId)
    {row : PlannedTaskLabel ι} (inside : row ∈ card.taskLabels) :
    row.taskId = card.task.id ∧
      row.labelId ∈ ((labelStage runtime supply read).value.map Prod.snd).map PlannedLabel.id := by
  obtain ⟨column, _, trello, _, count, index, n, _, rfl⟩ := card_origin member
  obtain ⟨rows, _⟩ := planTaskLabels_rows (labelOf runtime supply read) (supply n)
    (clampToLength trello.name MAX_TASK_TITLE_LENGTH).value [] trello.idLabels (n + 1)
  obtain ⟨own, _, key, known⟩ := rows row inside
  refine ⟨own, ?_⟩
  obtain ⟨label, listed, same⟩ := List.mem_map.mp (mem_lastSet known)
  rw [List.map_map]
  exact List.mem_map.mpr ⟨label, listed, congrArg Prod.snd same⟩

theorem planTrelloImport_sound (distinct : Function.Injective supply) :
    Sound (planTrelloImport runtime supply read actorId) where
  columns_board := by
    intro column member
    obtain ⟨entry, listed, rfl⟩ := List.mem_map.mp member
    exact column_boardId listed
  labels_board := by
    intro label member
    obtain ⟨entry, listed, rfl⟩ := List.mem_map.mp member
    exact label_boardId listed
  tasks_board := by
    intro task member
    obtain ⟨card, listed, rfl⟩ := List.mem_map.mp member
    obtain ⟨column, inside, trello, _, count, index, n, _, rfl⟩ := card_origin listed
    obtain ⟨entry, there, rfl⟩ := List.mem_map.mp inside
    exact column_boardId there
  tasks_column := by
    intro task member
    obtain ⟨card, listed, rfl⟩ := List.mem_map.mp member
    obtain ⟨column, inside, trello, _, count, index, n, _, rfl⟩ := card_origin listed
    exact List.mem_map.mpr ⟨column, inside, rfl⟩
  taskLabels_task := by
    intro row member
    obtain ⟨card, listed, inside⟩ := List.mem_flatMap.mp member
    rw [(taskLabel_known runtime supply read actorId listed inside).1]
    exact List.mem_map.mpr ⟨card.task, List.mem_map.mpr ⟨card, listed, rfl⟩, rfl⟩
  taskLabels_label := by
    intro row member
    obtain ⟨card, listed, inside⟩ := List.mem_flatMap.mp member
    exact (taskLabel_known runtime supply read actorId listed inside).2
  checklists_task := by
    intro checklist member
    obtain ⟨hung, listed, rfl⟩ := List.mem_map.mp member
    obtain ⟨task, inside, trello, _, count, index, n, rfl⟩ := hung_origin listed
    exact List.mem_map.mpr ⟨task, inside, rfl⟩
  items_checklist := by
    intro item member
    obtain ⟨hung, listed, inside⟩ := List.mem_flatMap.mp member
    have own : item.checklistId = hung.1.id := by
      obtain ⟨task, _, trello, _, count, index, n, rfl⟩ := hung_origin listed
      exact (planChecklist_items supply).1 item inside
    exact List.mem_map.mpr ⟨hung.1, List.mem_map.mpr ⟨hung, listed, rfl⟩, own.symm⟩
  attachments_task := by
    intro row member
    obtain ⟨card, listed, inside⟩ := List.mem_flatMap.mp member
    have own : row.taskId = card.task.id := by
      obtain ⟨column, _, trello, _, count, index, n, _, rfl⟩ := card_origin listed
      exact planTask_attachments inside
    exact List.mem_map.mpr ⟨card.task, List.mem_map.mpr ⟨card, listed, rfl⟩, own.symm⟩
  ids_nodup := (spent_plan runtime supply read actorId).nodup distinct
  pairs_nodup := List.pairwise_map.mpr (pairs_apart runtime supply read actorId distinct)
  columns_rise := List.pairwise_map.mpr
    (rising_forEachIdx (fun entry : JsString × PlannedColumn ι => entry.2.position) (positionsFor _) (positionsFor_lt _) fun _ _ _ => rfl)
  tasks_rise := List.pairwise_map.mpr (cards_rise runtime supply read actorId distinct)
  checklists_rise := List.pairwise_map.mpr (checklists_rise runtime supply read actorId distinct)
  items_rise := items_rise runtime supply read actorId distinct

end Soundness

end Kurul.Trello
