import Kurul.Drawing
import Kurul.Import.ImportSkip
import Kurul.Import.TrelloImportService
import Kurul.Position

/-! The planner of the Trello import: a read export mapped to the rows that are written and
the report of what is not. Every id is drawn here, in the order the source draws them. -/
namespace Kurul.Trello

/-- What the planner takes from the runtime: dates, URLs and lower case. A URL is answered
with its protocol and its text. -/
structure Runtime where
  parseDate : JsString → Option Int
  parseUrl : JsString → Option (JsString × JsString)
  toLowerCase : JsString → JsString

def MAX_BOARD_NAME_LENGTH : Nat := 120
def MAX_BOARD_DESCRIPTION_LENGTH : Nat := 2000
def MAX_COLUMN_NAME_LENGTH : Nat := 120
def MAX_LABEL_NAME_LENGTH : Nat := 50
def MAX_TASK_TITLE_LENGTH : Nat := 500
def MAX_TASK_DESCRIPTION_LENGTH : Nat := 20000
def MAX_CHECKLIST_TITLE_LENGTH : Nat := 255
def MAX_CHECKLIST_ITEM_CONTENT_LENGTH : Nat := 1000
def MAX_ATTACHMENT_URL_LENGTH : Nat := 2048

structure PlannedBoard (ι : Type) where
  id : ι
  name : JsString
  description : Option JsString

structure PlannedColumn (ι : Type) where
  id : ι
  boardId : ι
  name : JsString
  position : ℚ
  category : ColumnCategory

/-- A colour looked up in the table of slots, which as an object inherits `constructor`. -/
inductive SlotValue where
  | slot (name : String)
  | inherited
  deriving DecidableEq

structure PlannedLabel (ι : Type) where
  id : ι
  boardId : ι
  name : JsString
  color : SlotValue

structure PlannedTask (ι : Type) where
  id : ι
  boardId : ι
  columnId : ι
  title : JsString
  description : Option JsString
  position : ℚ
  dueDate : Option Int
  createdById : Id

structure PlannedTaskLabel (ι : Type) where
  id : ι
  taskId : ι
  labelId : ι

structure PlannedChecklist (ι : Type) where
  id : ι
  taskId : ι
  title : JsString
  position : ℚ

structure PlannedItem (ι : Type) where
  id : ι
  checklistId : ι
  content : JsString
  isDone : Bool
  position : ℚ

/-- A link; it has no bytes, so no key, type or size. -/
structure PlannedAttachment (ι : Type) where
  id : ι
  taskId : ι
  uploadedById : Id
  filename : JsString
  url : JsString

structure TrelloImportPlan (ι : Type) where
  board : PlannedBoard ι
  columns : List (PlannedColumn ι)
  labels : List (PlannedLabel ι)
  tasks : List (PlannedTask ι)
  taskLabels : List (PlannedTaskLabel ι)
  checklists : List (PlannedChecklist ι)
  checklistItems : List (PlannedItem ι)
  attachments : List (PlannedAttachment ι)
  skipped : List SkipGroup

def BOARD_NAME_FALLBACK : JsString := js "Imported board"
def LABEL_NAME_FALLBACK : JsString := js "Label"
def ALLOWED_URL_SCHEMES : List JsString := [js "http:", js "https:"]

/-- What is ordered by `pos`. -/
class Positioned (α : Type) where
  id : α → JsString
  pos : α → Option ℚ

instance : Positioned TrelloList := ⟨TrelloList.id, TrelloList.pos⟩
instance : Positioned TrelloCard := ⟨TrelloCard.id, TrelloCard.pos⟩
instance : Positioned TrelloChecklist := ⟨TrelloChecklist.id, TrelloChecklist.pos⟩
instance : Positioned TrelloCheckItem := ⟨TrelloCheckItem.id, TrelloCheckItem.pos⟩

/-- The comparison of `orderedByPos`. -/
def comparePos {α : Type} [Positioned α] (a b : α) : Ordering :=
  match Positioned.pos a, Positioned.pos b with
  | some p, some q => if p ≠ q then compare p q else compare (Positioned.id a) (Positioned.id b)
  | some _, none => .lt
  | none, some _ => .gt
  | none, none => compare (Positioned.id a) (Positioned.id b)

def orderedByPos {α : Type} [Positioned α] (rows : List α) : List α :=
  rows.insertionSort fun a b => comparePos a b ≠ .gt

def positionsFor (count : Nat) (index : Nat) : ℚ :=
  ((rebalancePositions count)[index]?).getD (((index : ℚ) + 1) * POSITION_GAP)

def isUnnamed (value : JsString) : Bool := trim value = []

def emptyToNull (value : Option JsString) : Option JsString := value.filter fun text => !isUnnamed text

/-- What closes a quoted header early, the control characters and the bidi overrides. -/
def isUnsafe (unit : CodeUnit) : Bool :=
  unit.val = 0x22 || unit.val = 0x5c || unit.val ≤ 0x1f || (0x7f ≤ unit.val && unit.val ≤ 0x9f) ||
    unit.val = 0x61c || unit.val = 0x200e || unit.val = 0x200f || (0x202a ≤ unit.val && unit.val ≤ 0x202e) ||
      (0x2066 ≤ unit.val && unit.val ≤ 0x2069)

def safeDisplayName (value : JsString) : JsString := (trim (value.filter fun unit => !isUnsafe unit)).take 255

/-- The text before the first underscore. -/
def beforeUnderscore (text : JsString) : JsString := text.takeWhile fun unit => unit.val ≠ 0x5f

def TRELLO_COLOR_TO_SLOT : List (String × String) := [
  ("blue", "slot-1"), ("orange", "slot-2"), ("green", "slot-3"), ("yellow", "slot-4"), ("pink", "slot-5"),
  ("lime", "slot-6"), ("purple", "slot-7"), ("red", "slot-8"), ("sky", "slot-1"), ("black", "slot-7")]

section Planner

variable {ι : Type} (runtime : Runtime) (supply : Nat → ι)

/-- The slot of a colour, if the table has one. -/
def trelloColorToSlot (color : Option JsString) : Option SlotValue :=
  let base := beforeUnderscore (runtime.toLowerCase (color.getD []))
  if base = js "constructor" then some .inherited
  else (TRELLO_COLOR_TO_SLOT.find? fun entry => js entry.1 = base).map fun entry => .slot entry.2

def parseDueDate (raw : Option JsString) : Option Int := raw.bind runtime.parseDate

def classifyUrl (raw : JsString) : Except TrelloImportSkipReason JsString :=
  match runtime.parseUrl (trim raw) with
  | none => .error .Malformed
  | some (protocol, href) => if ALLOWED_URL_SCHEMES.contains protocol then .ok href else .error .UnsupportedScheme

def uuidv7 : Draw SkipCall ι := Draw.fresh supply

/-- `Map`: the value set last for a key. -/
def lastSet {κ ν : Type} [DecidableEq κ] (entries : List (κ × ν)) (key : κ) : Option ν :=
  (entries.reverse.find? fun entry => entry.1 = key).map Prod.snd

def listSkips (list : TrelloList) : List SkipCall :=
  if list.closed then [skip .List .Archived (some (clampToLength list.name MAX_COLUMN_NAME_LENGTH).value)]
  else if isUnnamed list.name then [skip .List .Malformed none]
  else []

def isLive (list : TrelloList) : Bool := !list.closed && !isUnnamed list.name

def planColumn (boardId : ι) (count index : Nat) (list : TrelloList) : Draw SkipCall (JsString × PlannedColumn ι) := do
  let id ← uuidv7 supply
  return (list.id, {
    id
    boardId
    name := (clampToLength list.name MAX_COLUMN_NAME_LENGTH).value
    position := positionsFor count index
    category := .UNSTARTED })

/-- The name of a label, else its colour's, else a word. -/
def labelName (label : TrelloLabel) : JsString :=
  if isUnnamed label.name then
    let colorName := trim (label.color.getD [])
    if colorName = [] then LABEL_NAME_FALLBACK else colorName
  else label.name

def planLabel (boardId : ι) (label : TrelloLabel) : Draw SkipCall (JsString × PlannedLabel ι) := do
  let slot := trelloColorToSlot runtime label.color
  let name := clampToLength (labelName label) MAX_LABEL_NAME_LENGTH
  let id ← uuidv7 supply
  Draw.tellIf (slot.isNone || isUnnamed label.name || name.truncated) [skip .Label .Defaulted (some name.value)]
  return (label.id, { id, boardId, name := name.value, color := slot.getD (.slot "slot-1") })

/-- The column of a card, or why it is dropped. -/
def cardVerdict (columnOf : JsString → Option ι) (archived : JsString → Bool) (card : TrelloCard) :
    Except TrelloImportSkipReason ι :=
  if card.closed then .error .Archived
  else if isUnnamed card.name then .error .Malformed
  else match card.idList.bind columnOf with
    | some columnId => .ok columnId
    | none => .error (if card.idList.any archived then .Archived else .Malformed)

def cardSkips (verdict : TrelloCard → Except TrelloImportSkipReason ι) (card : TrelloCard) : List SkipCall :=
  match verdict card with
  | .ok _ => []
  | .error reason => [skip .Card reason (some (clampToLength card.name MAX_TASK_TITLE_LENGTH).value)]

def skippedReason (verdict : TrelloCard → Except TrelloImportSkipReason ι) (cards : List TrelloCard) :
    JsString → Option TrelloImportSkipReason :=
  lastSet (cards.filterMap fun card =>
    match verdict card with
    | .ok _ => none
    | .error reason => some (card.id, reason))

/-- The labels of a card, each once; one that the export does not have is reported. -/
def planTaskLabels [DecidableEq ι] (labelOf : JsString → Option ι) (taskId : ι) (title : JsString) :
    List ι → List JsString → Draw SkipCall (List (PlannedTaskLabel ι))
  | _, [] => return []
  | attached, trelloLabelId :: rest =>
      match labelOf trelloLabelId with
      | none => do
          Draw.tell [skip .Label .Malformed (some title)]
          planTaskLabels labelOf taskId title attached rest
      | some labelId =>
          if labelId ∈ attached then planTaskLabels labelOf taskId title attached rest
          else do
            let id ← uuidv7 supply
            let others ← planTaskLabels labelOf taskId title (labelId :: attached) rest
            return { id, taskId, labelId } :: others

def planAttachment (actorId : Id) (taskId : ι) (attachment : TrelloAttachment) :
    Draw SkipCall (Option (PlannedAttachment ι)) :=
  match classifyUrl runtime attachment.url with
  | .error reason => do
      Draw.tell [skip .Attachment reason (some (safeDisplayName attachment.name))]
      return none
  | .ok href => do
      let url := clampToLength href MAX_ATTACHMENT_URL_LENGTH
      let cleaned := safeDisplayName attachment.name
      let filename := if cleaned = [] then url.value else cleaned
      Draw.tellIf url.truncated [skip .Attachment .Defaulted (some filename)]
      let id ← uuidv7 supply
      return some { id, taskId, uploadedById := actorId, filename, url := url.value }

structure PlannedCard (ι : Type) where
  trelloId : JsString
  task : PlannedTask ι
  taskLabels : List (PlannedTaskLabel ι)
  attachments : List (PlannedAttachment ι)

def planTask [DecidableEq ι] (actorId : Id) (labelOf : JsString → Option ι) (boardId columnId : ι) (count index : Nat)
    (card : TrelloCard) : Draw SkipCall (PlannedCard ι) := do
  let taskId ← uuidv7 supply
  let title := clampToLength card.name MAX_TASK_TITLE_LENGTH
  let description := clampNullable (emptyToNull card.desc) MAX_TASK_DESCRIPTION_LENGTH
  Draw.tellIf (title.truncated || description.truncated) [skip .Card .Defaulted (some title.value)]
  let taskLabels ← planTaskLabels supply labelOf taskId title.value [] card.idLabels
  let attachments ← Draw.forEach card.attachments (planAttachment runtime supply actorId taskId)
  return {
    trelloId := card.id
    task := {
      id := taskId
      boardId
      columnId
      title := title.value
      description := description.value
      position := positionsFor count index
      dueDate := parseDueDate runtime card.due
      createdById := actorId }
    taskLabels
    attachments := attachments.reduceOption }

def planCards [DecidableEq ι] (actorId : Id) (labelOf : JsString → Option ι)
    (verdict : TrelloCard → Except TrelloImportSkipReason ι)
    (cards : List TrelloCard) (column : PlannedColumn ι) : Draw SkipCall (List (PlannedCard ι)) :=
  let own := orderedByPos (cards.filter fun card => (verdict card).toOption = some column.id)
  Draw.forEachIdx (planTask runtime supply actorId labelOf column.boardId column.id own.length) 0 own

/-- The task of a checklist, or why it is dropped. -/
def checklistVerdict (taskOf : JsString → Option ι) (reasonOf : JsString → Option TrelloImportSkipReason)
    (checklist : TrelloChecklist) : Except TrelloImportSkipReason ι :=
  match checklist.idCard.bind taskOf with
  | none => .error ((checklist.idCard.bind reasonOf).getD .Malformed)
  | some taskId =>
      if isUnnamed checklist.name || checklist.checkItems.isEmpty then .error .Malformed else .ok taskId

def checklistSkips (verdict : TrelloChecklist → Except TrelloImportSkipReason ι) (checklist : TrelloChecklist) :
    List SkipCall :=
  match verdict checklist with
  | .ok _ => []
  | .error reason =>
      [skip .Checklist reason (some (clampToLength checklist.name MAX_CHECKLIST_TITLE_LENGTH).value)]

def planItem (checklistId : ι) (count index : Nat) (item : TrelloCheckItem) : Draw SkipCall (PlannedItem ι) := do
  let content := clampToLength item.name MAX_CHECKLIST_ITEM_CONTENT_LENGTH
  Draw.tellIf content.truncated [skip .ChecklistItem .Defaulted (some content.value)]
  let id ← uuidv7 supply
  return {
    id
    checklistId
    content := content.value
    isDone := item.state = some (js "complete")
    position := positionsFor count index }

def itemSkips (item : TrelloCheckItem) : List SkipCall :=
  if isUnnamed item.name then [skip .ChecklistItem .Malformed none] else []

def planChecklist (taskId : ι) (count index : Nat) (checklist : TrelloChecklist) :
    Draw SkipCall (PlannedChecklist ι × List (PlannedItem ι)) := do
  let checklistId ← uuidv7 supply
  let title := clampToLength checklist.name MAX_CHECKLIST_TITLE_LENGTH
  Draw.tellIf title.truncated [skip .Checklist .Defaulted (some title.value)]
  let ordered := orderedByPos checklist.checkItems
  Draw.tell (ordered.flatMap itemSkips)
  let usable := ordered.filter fun item => !isUnnamed item.name
  let items ← Draw.forEachIdx (planItem supply checklistId usable.length) 0 usable
  return ({ id := checklistId, taskId, title := title.value, position := positionsFor count index }, items)

def planChecklists [DecidableEq ι] (verdict : TrelloChecklist → Except TrelloImportSkipReason ι)
    (checklists : List TrelloChecklist)
    (task : PlannedTask ι) : Draw SkipCall (List (PlannedChecklist ι × List (PlannedItem ι))) :=
  let own := orderedByPos (checklists.filter fun checklist => (verdict checklist).toOption = some task.id)
  Draw.forEachIdx (planChecklist supply task.id own.length) 0 own

/-- The rows of a plan, and the calls that make its report. -/
def planRows [DecidableEq ι] (read : TrelloExportReadResult) (actorId : Id) : Draw SkipCall (TrelloImportPlan ι) := do
  let source := read.source
  Draw.tell (read.issues.map fun issue => skip issue.scope issue.reason issue.sample)
  let boardId ← uuidv7 supply
  Draw.tell (source.lists.flatMap listSkips)
  let live := orderedByPos (source.lists.filter isLive)
  let columns ← Draw.forEachIdx (planColumn supply boardId live.length) 0 live
  Draw.tell [{
    scope := .Column
    reason := .Defaulted
    count := columns.length
    samples := columns.map fun column => some column.2.name }]
  let labels ← Draw.forEach source.labels (planLabel runtime supply boardId)
  let columnOf := lastSet (columns.map fun column => (column.1, column.2.id))
  let archived := fun listId => source.lists.any fun list => list.closed && list.id = listId
  let verdict := cardVerdict columnOf archived
  Draw.tell (source.cards.flatMap (cardSkips verdict))
  let labelOf := lastSet (labels.map fun label => (label.1, label.2.id))
  let cards ← Draw.forEach (columns.map Prod.snd) (planCards runtime supply actorId labelOf verdict source.cards)
  let taskOf := lastSet (cards.flatten.map fun card => (card.trelloId, card.task.id))
  let hung := checklistVerdict taskOf (skippedReason verdict source.cards)
  Draw.tell (source.checklists.flatMap (checklistSkips hung))
  let tasks := cards.flatten.map PlannedCard.task
  let checklists ← Draw.forEach tasks (planChecklists supply hung source.checklists)
  Draw.tell [
    { scope := .Member, reason := .Unmappable, count := source.memberCount },
    { scope := .Comment, reason := .OutOfScope, count := source.commentCount }]
  return {
    board := {
      id := boardId
      name := (clampToLength (if isUnnamed source.name then BOARD_NAME_FALLBACK else source.name)
        MAX_BOARD_NAME_LENGTH).value
      description := (clampNullable (emptyToNull source.desc) MAX_BOARD_DESCRIPTION_LENGTH).value }
    columns := columns.map Prod.snd
    labels := labels.map Prod.snd
    tasks
    taskLabels := cards.flatten.flatMap PlannedCard.taskLabels
    checklists := checklists.flatten.map Prod.fst
    checklistItems := checklists.flatten.flatMap Prod.snd
    attachments := cards.flatten.flatMap PlannedCard.attachments
    skipped := [] }

def planTrelloImport [DecidableEq ι] (read : TrelloExportReadResult) (actorId : Id) : TrelloImportPlan ι :=
  let planned := planRows runtime supply read actorId 0
  { planned.value with skipped := toReport (collect planned.log) }

end Planner
end Kurul.Trello
