import Kurul.Board.ColumnService
import Kurul.Plan.PlanLimits

/-! The board service: the templates a board can start from, and creating, editing and
removing boards. -/
namespace Kurul

open Store Prog

structure DefaultLabel where
  name : String
  color : String
  deriving DecidableEq

inductive BoardTemplateSlug where
  | kanban | scrum_sprint | bug_triage | content_pipeline
  deriving DecidableEq

def BoardTemplateSlug.text : BoardTemplateSlug → String
  | .kanban => "kanban"
  | .scrum_sprint => "scrum-sprint"
  | .bug_triage => "bug-triage"
  | .content_pipeline => "content-pipeline"

/-- The categories of a template's columns, and how many labels it has. -/
def TEMPLATE_STRUCTURE : BoardTemplateSlug → List ColumnCategory × Nat
  | .kanban => ([.UNSTARTED, .STARTED, .COMPLETED], 4)
  | .scrum_sprint => ([.BACKLOG, .UNSTARTED, .STARTED, .STARTED, .COMPLETED], 5)
  | .bug_triage => ([.BACKLOG, .UNSTARTED, .STARTED, .STARTED, .COMPLETED, .CANCELED], 5)
  | .content_pipeline => ([.BACKLOG, .UNSTARTED, .STARTED, .STARTED, .COMPLETED], 4)

/-- The names of the columns and of the labels, in the order of the structure. -/
def TEMPLATE_COPY : Locale → BoardTemplateSlug → List String × List String
  | .en, .kanban => (["To Do", "In Progress", "Done"], ["Bug", "Feature", "Chore", "Blocked"])
  | .en, .scrum_sprint => (["Backlog", "Sprint Backlog", "In Progress", "Review", "Done"],
      ["Story", "Bug", "Spike", "Tech Debt", "Blocked"])
  | .en, .bug_triage => (["Reported", "Triaged", "Fixing", "Verifying", "Closed", "Won’t Fix"],
      ["Critical", "Major", "Minor", "Regression", "Needs Info"])
  | .en, .content_pipeline => (["Ideas", "Approved", "Drafting", "Editing", "Published"],
      ["Blog", "Social", "Video", "Newsletter"])
  | .tr, .kanban => (["Yapılacak", "Devam Ediyor", "Bitti"], ["Hata", "Özellik", "Rutin İş", "Engelli"])
  | .tr, .scrum_sprint => (["Birikim", "Sprint Birikimi", "Devam Ediyor", "İnceleme", "Bitti"],
      ["Hikâye", "Hata", "Araştırma", "Teknik Borç", "Engelli"])
  | .tr, .bug_triage =>
      (["Bildirildi", "Triyaj Edildi", "Düzeltiliyor", "Doğrulanıyor", "Kapandı", "Düzeltilmeyecek"],
        ["Kritik", "Önemli", "Küçük", "Regresyon", "Bilgi Gerekli"])
  | .tr, .content_pipeline => (["Fikirler", "Onaylandı", "Yazılıyor", "Düzenleniyor", "Yayında"],
      ["Blog", "Sosyal Medya", "Video", "Bülten"])

/-- What a template writes. -/
structure BoardTemplate where
  columns : List DefaultColumn
  labels : List DefaultLabel
  deriving DecidableEq

/-- Columns stand at 1000, 2000 and so on, and labels take the colour slots from the first. -/
def boardTemplateFor (slug : BoardTemplateSlug) (locale : Locale) : BoardTemplate :=
  let (categories, labels) := TEMPLATE_STRUCTURE slug
  let copy := TEMPLATE_COPY locale slug
  { columns := (copy.1.zip categories).mapIdx fun place (name, category) =>
      ⟨name, 1000 * (place + 1), category⟩
    labels := (copy.2.take labels).mapIdx fun place name => ⟨name, s!"slot-{place + 1}"⟩ }

structure BoardDto where
  id : Id
  workspaceId : Id
  name : String
  description : Option String
  deriving DecidableEq

structure CreateBoardDto where
  name : String
  description : Option String := none
  template : Option BoardTemplateSlug := none

/-- An outer `none` is an absent field, an inner one an explicit null. -/
structure UpdateBoardDto where
  name : Option String := none
  description : Option (Option String) := none

namespace BoardService

def toDto (board : Board) : BoardDto where
  id := board.id
  workspaceId := board.workspaceId
  name := board.name
  description := board.description

/-- Without a template the default columns are written, and no labels. -/
def seedFor (dto : CreateBoardDto) (locale : Locale) : BoardTemplate :=
  match dto.template with
  | none => { columns := defaultColumnsFor locale, labels := [] }
  | some slug => boardTemplateFor slug locale

def seedLabel (boardId : Id) (label : DefaultLabel) : Service Label := do
  let given ← Service.fresh
  return { id := given.id, boardId, name := label.name, color := label.color }

def seedLabels (boardId : Id) (labels : List DefaultLabel) : Service Unit :=
  if labels = [] then Prog.pure () else do
    let rows ← collect labels (seedLabel boardId)
    let _ ← query (.createMany rows)

/-- The nested create: the board, then its columns and labels. -/
def createSeeded (workspaceId : Id) (dto : CreateBoardDto) (seed : BoardTemplate) : Service Board := do
  let given ← Service.fresh
  let created ← query (.create ({
    id := given.id
    workspaceId
    name := dto.name
    description := dto.description } : Board))
  let columns ← collect seed.columns (ColumnService.seed created.id)
  let _ ← query (.createMany columns)
  seedLabels created.id seed.labels
  return created

def createdPayload (board : Board) (dto : CreateBoardDto) (seed : BoardTemplate) : Payload :=
  [("boardId", .scalar (.text board.id)), ("name", .scalar (.text board.name)),
    ("seededColumns", .texts (seed.columns.map DefaultColumn.name))] ++
  (dto.template.toList.map fun slug => ("template", .scalar (.text slug.text))) ++
  (if seed.labels = [] then [] else [("seededLabels", .texts (seed.labels.map DefaultLabel.name))])

def create (config : PlanConfig) (workspaceId actorId : Id) (dto : CreateBoardDto)
    (negotiated : Option Locale) : Service BoardDto := do
  let locale ← LocaleService.resolve actorId negotiated
  let seed := seedFor dto locale
  let board ← transaction do
    PlanLimitsService.assertBoardAvailable config workspaceId
    let created ← createSeeded workspaceId dto seed
    let _ ← ActivityService.record {
      workspaceId
      userId := actorId
      type := .BoardCreated
      payload := createdPayload created dto seed }
    return created
  return toDto board

/-- The tenant scope that reads and writes of one board repeat. -/
def scopedBoard (workspaceId boardId : Id) : Where Row Board := fun _ board =>
  board.id = boardId && board.workspaceId = workspaceId

def get (workspaceId boardId : Id) : Service BoardDto := do
  let board ← assertBoard workspaceId boardId
  return toDto board

def update (workspaceId boardId actorId : Id) (dto : UpdateBoardDto) : Service BoardDto := do
  let board ← transaction do
    let before ← found (.findFirst (scopedBoard workspaceId boardId)) (.notFound "Board not found")
    let after ← query (.update (scopedBoard workspaceId boardId) fun board =>
      { board with
        name := dto.name.getD board.name
        description := dto.description.getD board.description })
    let _ ← ActivityService.record {
      workspaceId
      userId := actorId
      type := .BoardUpdated
      payload := [("boardId", .scalar (.text boardId)), ("name", .scalar (.text after.name)),
        ("changes", .changes (fieldChanges [
          ("name", .text before.name, .text after.name),
          ("description", Json.ofOption .text before.description,
            Json.ofOption .text after.description)]))] }
    return after
  return toDto board

def remove (workspaceId boardId actorId : Id) : Service Unit :=
  transaction do
    let board ← found (.findFirst (scopedBoard workspaceId boardId)) (.notFound "Board not found")
    let taskCount ← query (.count fun _ (task : Task) => task.boardId = boardId)
    let _ ← ActivityService.record {
      workspaceId
      userId := actorId
      type := .BoardDeleted
      payload := [("boardId", .scalar (.text boardId)), ("name", .scalar (.text board.name)),
        ("taskCount", .scalar (.number taskCount))] }
    let count ← query (.deleteMany (scopedBoard workspaceId boardId))
    require (count ≠ 0) (.notFound "Board not found")

end BoardService
end Kurul
