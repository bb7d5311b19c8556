import Kurul.Plan.PlanLimits

/-! The Trello import: a plan that is complete before the transaction opens, written table
by table in chunks. How an export is read and planned is left open, so the results hold of
any plan. -/
namespace Kurul

open Store Prog

/-- The ceilings of an import, the `TRELLO_IMPORT_MAX_*` variables. -/
structure TrelloImportConfig where
  maxLists : Nat := 5000
  maxCards : Nat := 50000

structure TrelloImportSkipGroupDto where
  scope : String
  reason : String
  count : Nat
  samples : List String

/-- Every row an import writes, and the report of what it does not. -/
structure TrelloImportPlan where
  board : Id × String × Option String
  columns : List Column := []
  labels : List Label := []
  tasks : List Task := []
  taskLabels : List TaskLabel := []
  checklists : List Checklist := []
  checklistItems : List ChecklistItem := []
  attachments : List Attachment := []
  skipped : List TrelloImportSkipGroupDto := []

/-- An export as it was read: the reader's own counts, and the plan made of it. -/
structure TrelloExport where
  lists : Nat
  cards : Nat
  plan : TrelloImportPlan

structure TrelloImportReportDto where
  boardId : Id
  boardName : String
  imported : List (String × Nat)
  skipped : List TrelloImportSkipGroupDto

def importedCounts (plan : TrelloImportPlan) : List (String × Nat) :=
  [("columns", plan.columns.length), ("tasks", plan.tasks.length), ("labels", plan.labels.length),
    ("checklists", plan.checklists.length), ("checklistItems", plan.checklistItems.length),
    ("attachments", plan.attachments.length)]

def IMPORT_CHUNK_SIZE : Nat := 1000

/-- Runs of at most `size`; nothing at all of an empty list. -/
def chunked (rows : List α) (size : Nat) : List (List α) :=
  (List.range ((rows.length + size - 1) / size)).map fun chunk => (rows.drop (chunk * size)).take size

namespace TrelloImportService

/-- One table of the plan. -/
def writeAll [Entity Row α] (rows : List α) : Service Unit :=
  forEach (chunked rows IMPORT_CHUNK_SIZE) fun chunk => do
    let _ ← query (.createMany chunk)

/-- Tasks after the columns they refer to. -/
def writePlan (workspaceId : Id) (plan : TrelloImportPlan) : Service Unit := do
  let _ ← query (.create ({
    id := plan.board.1
    workspaceId
    name := plan.board.2.1
    description := plan.board.2.2 } : Board))
  writeAll plan.columns
  writeAll plan.labels
  writeAll plan.tasks
  writeAll plan.taskLabels
  writeAll plan.checklists
  writeAll plan.checklistItems
  writeAll plan.attachments

/-- `read` is what `parseTrelloExport` makes of the bytes, an error where they are no export. -/
def acceptExport (limits : TrelloImportConfig) (read : Except Error TrelloExport) :
    Except Error TrelloExport := do
  let found ← read
  if found.lists > limits.maxLists ∨ found.cards > limits.maxCards then
    .error (.badRequest (s!"This export has more lists or cards than this instance accepts " ++
      s!"(limit {limits.maxLists} lists, {limits.maxCards} cards)"))
  else return found

/-- The transaction of an import, and its report. -/
def writeImport (config : PlanConfig) (workspaceId actorId : Id) (plan : TrelloImportPlan) :
    Service TrelloImportReportDto := do
  let imported := importedCounts plan
  transaction do
    PlanLimitsService.assertBoardAvailable config workspaceId
    writePlan workspaceId plan
    let _ ← ActivityService.record {
      workspaceId
      userId := actorId
      type := .BoardImported
      payload := [("boardId", .scalar (.text plan.board.1)), ("name", .scalar (.text plan.board.2.1)),
        ("source", .scalar (.text "trello")),
        ("imported", .changed (imported.map fun (table, count) => (table, .number count))),
        ("skippedTotal", .scalar (.number (plan.skipped.map TrelloImportSkipGroupDto.count).sum))] }
  return {
    boardId := plan.board.1
    boardName := plan.board.2.1
    imported
    skipped := plan.skipped }

def importBoard (config : PlanConfig) (limits : TrelloImportConfig) (workspaceId actorId : Id)
    (read : Except Error TrelloExport) : Service TrelloImportReportDto := do
  let accepted ← ofExcept (acceptExport limits read)
  writeImport config workspaceId actorId accepted.plan

end TrelloImportService
end Kurul
