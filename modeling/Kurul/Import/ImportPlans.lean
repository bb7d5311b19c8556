import Kurul.Import.TrelloImportPlanner

/-! The stages of a plan, what each of them draws and where its rows come from. -/
namespace Kurul.Trello

open Draw

variable {ι : Type}

/-- The plan of a document, where the document is an export. -/
def trelloPlan [DecidableEq ι] (runtime : Runtime) (supply : Nat → ι) (actorId : Id) (raw : Value) :
    Option (TrelloImportPlan ι) :=
  (parseTrelloExport raw).map fun read => planTrelloImport runtime supply read actorId

section Stages

variable [DecidableEq ι] (runtime : Runtime) (supply : Nat → ι) (read : TrelloExportReadResult) (actorId : Id)

def liveLists : List TrelloList := orderedByPos (read.source.lists.filter isLive)

def columnStage : Drawn SkipCall (List (JsString × PlannedColumn ι)) :=
  forEachIdx (planColumn supply (supply 0) (liveLists read).length) 0 (liveLists read) 1

def labelStage : Drawn SkipCall (List (JsString × PlannedLabel ι)) :=
  forEach read.source.labels (planLabel runtime supply (supply 0)) (columnStage supply read).next

/-- Where a card goes. -/
def verdictOf : TrelloCard → Except TrelloImportSkipReason ι :=
  cardVerdict (lastSet ((columnStage supply read).value.map fun column => (column.1, column.2.id)))
    fun listId => read.source.lists.any fun list => list.closed && list.id = listId

def labelOf : JsString → Option ι :=
  lastSet ((labelStage runtime supply read).value.map fun label => (label.1, label.2.id))

def cardStage : Drawn SkipCall (List (List (PlannedCard ι))) :=
  forEach ((columnStage supply read).value.map Prod.snd)
    (planCards runtime supply actorId (labelOf runtime supply read) (verdictOf supply read) read.source.cards)
    (labelStage runtime supply read).next

def plannedCards : List (PlannedCard ι) := (cardStage runtime supply read actorId).value.flatten

/-- Where a checklist goes. -/
def hangsOn : TrelloChecklist → Except TrelloImportSkipReason ι :=
  checklistVerdict (lastSet ((plannedCards runtime supply read actorId).map fun card => (card.trelloId, card.task.id)))
    (skippedReason (verdictOf supply read) read.source.cards)

def checklistStage : Drawn SkipCall (List (List (PlannedChecklist ι × List (PlannedItem ι)))) :=
  forEach ((plannedCards runtime supply read actorId).map PlannedCard.task)
    (planChecklists supply (hangsOn runtime supply read actorId) read.source.checklists)
    (cardStage runtime supply read actorId).next

theorem planRows_value : (planRows runtime supply read actorId 0).value = {
    board := {
      id := supply 0
      name := (clampToLength (if isUnnamed read.source.name then BOARD_NAME_FALLBACK else read.source.name)
        MAX_BOARD_NAME_LENGTH).value
      description := (clampNullable (emptyToNull read.source.desc) MAX_BOARD_DESCRIPTION_LENGTH).value }
    columns := (columnStage supply read).value.map Prod.snd
    labels := (labelStage runtime supply read).value.map Prod.snd
    tasks := (plannedCards runtime supply read actorId).map PlannedCard.task
    taskLabels := (plannedCards runtime supply read actorId).flatMap PlannedCard.taskLabels
    checklists := (checklistStage runtime supply read actorId).value.flatten.map Prod.fst
    checklistItems := (checklistStage runtime supply read actorId).value.flatten.flatMap Prod.snd
    attachments := (plannedCards runtime supply read actorId).flatMap PlannedCard.attachments
    skipped := [] } := rfl

theorem planRows_log : (planRows runtime supply read actorId 0).log =
    (read.issues.map fun issue => skip issue.scope issue.reason issue.sample) ++
    (read.source.lists.flatMap listSkips ++
    ((columnStage supply read).log ++
    ([{ scope := .Column, reason := .Defaulted, count := (columnStage supply read).value.length,
        samples := (columnStage supply read).value.map fun column => some column.2.name }] ++
    ((labelStage runtime supply read).log ++
    (read.source.cards.flatMap (cardSkips (verdictOf supply read)) ++
    ((cardStage runtime supply read actorId).log ++
    (read.source.checklists.flatMap (checklistSkips (hangsOn runtime supply read actorId)) ++
    ((checklistStage runtime supply read actorId).log ++
    [{ scope := .Member, reason := .Unmappable, count := read.source.memberCount },
      { scope := .Comment, reason := .OutOfScope, count := read.source.commentCount }])))))))) := rfl

end Stages

section Draws

variable (runtime : Runtime) (supply : Nat → ι)

def PlannedCard.ids (card : PlannedCard ι) : List ι :=
  card.task.id :: (card.taskLabels.map PlannedTaskLabel.id ++ card.attachments.map PlannedAttachment.id)

/-- A checklist and its items. -/
def hungIds (hung : PlannedChecklist ι × List (PlannedItem ι)) : List ι := hung.1.id :: hung.2.map PlannedItem.id

theorem fresh_planColumn (boardId : ι) (count index : Nat) (list : TrelloList) :
    Fresh supply (fun column => [column.2.id]) (planColumn supply boardId count index list) :=
  fun _ => Spent.one

theorem fresh_planLabel (boardId : ι) (label : TrelloLabel) :
    Fresh supply (fun row => [row.2.id]) (planLabel runtime supply boardId label) :=
  fun _ => Spent.one

theorem fresh_planTaskLabels [DecidableEq ι] (labelOf : JsString → Option ι) (taskId : ι) (title : JsString)
    (attached : List ι) (wanted : List JsString) :
    Fresh supply (List.map PlannedTaskLabel.id) (planTaskLabels supply labelOf taskId title attached wanted) := by
  induction wanted generalizing attached with
  | nil => exact fun _ => Spent.nil
  | cons trelloLabelId rest ih =>
      unfold planTaskLabels
      cases labelOf trelloLabelId with
      | none => exact fun n => ih attached n
      | some labelId =>
          by_cases there : labelId ∈ attached
          · simp only [if_pos there]
            exact ih attached
          · simp only [if_neg there]
            exact fun n => Spent.one.append (ih (labelId :: attached) (n + 1))

theorem fresh_planAttachment (actorId : Id) (taskId : ι) (attachment : TrelloAttachment) :
    Fresh supply (fun row => row.toList.map PlannedAttachment.id)
      (planAttachment runtime supply actorId taskId attachment) := by
  unfold planAttachment
  cases classifyUrl runtime attachment.url with
  | error reason => exact fun _ => Spent.nil
  | ok href => exact fun _ => Spent.one

theorem map_reduceOption {α β : Type} (rows : List (Option α)) (f : α → β) :
    rows.reduceOption.map f = rows.flatMap fun row => row.toList.map f := by
  induction rows with
  | nil => rfl
  | cons row rest ih => cases row <;> simp [ih]

theorem fresh_planTask [DecidableEq ι] (actorId : Id) (labelOf : JsString → Option ι) (boardId columnId : ι)
    (count index : Nat) (card : TrelloCard) :
    Fresh supply PlannedCard.ids (planTask runtime supply actorId labelOf boardId columnId count index card) := by
  intro n
  have labels := fresh_planTaskLabels supply labelOf (supply n) (clampToLength card.name MAX_TASK_TITLE_LENGTH).value []
    card.idLabels (n + 1)
  have attachments := Fresh.forEachIdx 0 card.attachments fun _ attachment =>
    fresh_planAttachment runtime supply actorId (supply n) attachment
  have spent := Spent.one.append (labels.append (attachments _))
  beta_reduce at spent
  rw [← map_reduceOption] at spent
  exact spent

theorem fresh_planItem (checklistId : ι) (count index : Nat) (item : TrelloCheckItem) :
    Fresh supply (fun row => [row.id]) (planItem supply checklistId count index item) :=
  fun _ => Spent.one

theorem fresh_planChecklist (taskId : ι) (count index : Nat) (checklist : TrelloChecklist) :
    Fresh supply hungIds (planChecklist supply taskId count index checklist) := by
  intro n
  let usable := (orderedByPos checklist.checkItems).filter fun item => !isUnnamed item.name
  have each := fresh_planItem supply (supply n) usable.length
  have items := Fresh.forEachIdx 0 usable each
  have spent := Spent.one.append (items (n + 1))
  beta_reduce at spent
  rw [← List.map_eq_flatMap] at spent
  exact spent

end Draws

end Kurul.Trello
