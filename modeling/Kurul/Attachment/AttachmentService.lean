import Kurul.Attachment.DisplayName
import Kurul.Plan.PlanLimits
import Kurul.Text

/-! Uploads. The bytes are written before the row and no transaction spans the two, so a call
is taken from one await to the next: the rows that others commit, their files and the clock
move in between, and every step may throw. The audit row is not kept, nothing here reads it. -/
namespace Kurul

/-- A task by its board and its workspace. -/
structure TaskPlace where
  boardId : Id
  workspaceId : Id
  deriving DecidableEq

structure UploadedFile where
  originalname : String
  mimetype : String
  buffer : List UInt8

/-- The arguments of a call, and the `uuidv7` it draws. -/
structure Upload where
  workspaceId : Id
  taskId : Id
  actorId : Id
  file : UploadedFile
  id : Id

structure StoredFile where
  key : String
  modifiedAt : DateTime
  deriving DecidableEq

def storageKeyFor (attachmentId : Id) : String :=
  let hex := attachmentId.toList.filter (· ≠ '-')
  .ofList (hex.take 2 ++ '/' :: (hex.drop 2).take 2 ++ '/' :: attachmentId.toList)

section Sniffing

def ALLOWED_MIME_TYPES : List String := [
  "image/png",
  "image/jpeg",
  "image/gif",
  "image/webp",
  "application/pdf",
  "application/vnd.openxmlformats-officedocument.wordprocessingml.document",
  "application/vnd.openxmlformats-officedocument.spreadsheetml.sheet",
  "application/vnd.openxmlformats-officedocument.presentationml.presentation",
  "application/vnd.oasis.opendocument.text",
  "application/vnd.oasis.opendocument.spreadsheet",
  "application/vnd.oasis.opendocument.presentation",
  "application/zip",
  "text/plain",
  "text/csv"]

def TEXT_DECLARATIONS : List String := ["text/plain", "text/csv"]

/-- Lower case in the letters of the two declarations is ASCII's. -/
def plainTextType (bytes : List UInt8) (declared : String) : Option String :=
  let label := (trim (.ofList (declared.toList.takeWhile (· ≠ ';')))).map Char.toLower
  match TEXT_DECLARATIONS.find? (· = label) with
  | none => none
  | some declaration =>
      if bytes.contains 0 then none
      else match String.fromUTF8? ⟨bytes.toArray⟩ with
        | none => none
        | some text =>
            if (text.toList.dropWhile isTrimmed).head? = some '<' then none else some declaration

/-- `fileTypeFromBuffer` is what the bytes look like. None is the refusal of the type. -/
def assertAllowedMimeType (fileTypeFromBuffer : List UInt8 → Option String) (bytes : List UInt8)
    (declared : String) : Option String :=
  match fileTypeFromBuffer bytes with
  | some sniffed => if sniffed ∈ ALLOWED_MIME_TYPES then some sniffed else none
  | none => plainTextType bytes declared

end Sniffing

/-- The display name as its row holds it, with U+FFFD for a half character that the cut has left. -/
def storedFilename (original : String) : String :=
  .ofList (Encoding.toWellFormed (DisplayName.displayFilename (Encoding.encodeUtf16 original.toList)))

/-- What the service takes from its surroundings: the tasks that there are, the plans, and the
sniffer. A task does not change its workspace. -/
structure AttachmentConfig where
  place : Id → Option TaskPlace
  planLimits : Id → Option (List (String × StoredLimit)) := fun _ => none
  plan : PlanConfig := {}
  fileTypeFromBuffer : List UInt8 → Option String

/-- Zero is no ceiling. -/
def AttachmentConfig.workspaceStorageQuotaBytes (config : AttachmentConfig) (workspaceId : Id) : Nat :=
  (resolveWorkspacePlanLimits config.plan
    (parseWorkspacePlanOverride (config.planLimits workspaceId))).storageBytes.getD 0

namespace AttachmentService

/-- Where a call of `createFile` stands: at one of its awaits, in the broadcast or the mapping
that follow the last of them, in the clean-up of its `catch`, or at its end. -/
inductive Stage where
  | findTask | sniff | workspaceLimit | workspaceSum | instanceSum | write
  | create | record | commit | announce | toAttachmentDto
  | clean | returned | thrown
  deriving DecidableEq

structure Call where
  stage : Stage := .findTask
  mimeType : String := ""
  workspaceQuota : Nat := 0
  /-- The row of the open transaction. -/
  created : Option Attachment := none
  /-- When the bytes were written; no step reads it. -/
  writtenAt : DateTime := 0

/-- How a step ends. One that throws may have taken effect before it did. -/
inductive Outcome where
  | done
  | threw (effect : Bool)
  deriving DecidableEq

def storedFileBytes (scope : Attachment → Bool) (attachments : List Attachment) : Nat :=
  ((attachments.filter fun row => row.kind = .FILE && scope row).map fun row => row.size.getD 0).sum

/-- `task: { board: { workspaceId } }`. -/
def inWorkspace (config : AttachmentConfig) (workspaceId : Id) (row : Attachment) : Bool :=
  (config.place row.taskId).any (·.workspaceId = workspaceId)

/-- The committed attachment rows, the files, the clock and the calls. -/
structure Depot (ι : Type) where
  attachments : List Attachment
  files : List StoredFile := []
  now : DateTime := 0
  calls : ι → Call := fun _ => {}

namespace Depot

variable {ι : Type} [DecidableEq ι]

def setCall (s : Depot ι) (i : ι) (call : Call) : Depot ι :=
  { s with calls := Function.update s.calls i call }

def goto (s : Depot ι) (i : ι) (stage : Stage) : Depot ι := s.setCall i { s.calls i with stage }

/-- `StorageService.write`. -/
def writeFile (s : Depot ι) (key : String) : Depot ι :=
  { s with files := s.files.filter (·.key ≠ key) ++ [{ key, modifiedAt := s.now }] }

/-- `StorageService.remove`: a missing file is none to remove. -/
def removeFile (s : Depot ι) (key : String) : Depot ι :=
  { s with files := s.files.filter (·.key ≠ key) }

/-- The write of the bytes, which the call remembers. -/
def writeBytes (s : Depot ι) (i : ι) (upload : Upload) : Depot ι :=
  (s.writeFile (storageKeyFor upload.id)).setCall i { s.calls i with writtenAt := s.now }

def insert (s : Depot ι) (row : Option Attachment) : Depot ι :=
  { s with attachments := s.attachments ++ row.toList }

/-- The second half of the quota check, or the first byte. -/
def afterWorkspace (config : AttachmentConfig) : Stage :=
  if 0 < config.plan.instanceQuotaBytes then .instanceSum else .write

/-- The row that an upload stores. -/
def fileRow (upload : Upload) (mimeType : String) (now : DateTime) : Attachment where
  id := upload.id
  taskId := upload.taskId
  uploadedById := upload.actorId
  kind := .FILE
  filename := storedFilename upload.file.originalname
  storageKey := some (storageKeyFor upload.id)
  mimeType := some mimeType
  size := some upload.file.buffer.length
  createdAt := now

/-- A step that goes well, refusals of the service included. -/
def advance (config : AttachmentConfig) (upload : Upload) (s : Depot ι) (i : ι) : Depot ι :=
  let call := s.calls i
  match call.stage with
  | .findTask =>
      match (config.place upload.taskId).filter (·.workspaceId = upload.workspaceId) with
      | none => s.goto i .thrown
      | some _ => s.goto i .sniff
  | .sniff =>
      match assertAllowedMimeType config.fileTypeFromBuffer upload.file.buffer upload.file.mimetype with
      | none => s.goto i .thrown
      | some mimeType => s.setCall i { call with mimeType, stage := .workspaceLimit }
  | .workspaceLimit =>
      let workspaceQuota := config.workspaceStorageQuotaBytes upload.workspaceId
      s.setCall i { call with
        workspaceQuota
        stage := if 0 < workspaceQuota then .workspaceSum else afterWorkspace config }
  | .workspaceSum =>
      let used := storedFileBytes (inWorkspace config upload.workspaceId) s.attachments
      if used + upload.file.buffer.length > call.workspaceQuota then s.goto i .thrown
      else s.goto i (afterWorkspace config)
  | .instanceSum =>
      let used := storedFileBytes (fun _ => true) s.attachments
      if used + upload.file.buffer.length > config.plan.instanceQuotaBytes then s.goto i .thrown
      else s.goto i .write
  | .write => (s.writeBytes i upload).goto i .create
  | .create =>
      -- the primary key; the task is locked against deletion from here to the commit
      if s.attachments.any (·.id = upload.id) then s.goto i .clean
      else s.setCall i { call with created := some (fileRow upload call.mimeType s.now), stage := .record }
  | .record => s.goto i .commit
  | .commit => (s.insert call.created).goto i .announce
  | .announce => s.goto i .toAttachmentDto
  | .toAttachmentDto => s.goto i .returned
  | .clean => (s.removeFile (storageKeyFor upload.id)).goto i .thrown
  | .returned | .thrown => s

/-- A step that throws. The `try` opens after the write, and its `catch` swallows what the
clean-up throws. -/
def throw_ (upload : Upload) (s : Depot ι) (i : ι) (effect : Bool) : Depot ι :=
  match (s.calls i).stage with
  | .findTask | .sniff | .workspaceLimit | .workspaceSum | .instanceSum => s.goto i .thrown
  | .write => (if effect then s.writeBytes i upload else s).goto i .thrown
  | .create | .record | .announce | .toAttachmentDto => s.goto i .clean
  | .commit => (if effect then s.insert (s.calls i).created else s).goto i .clean
  | .clean => (if effect then s.removeFile (storageKeyFor upload.id) else s).goto i .thrown
  | .returned | .thrown => s

def createFile (config : AttachmentConfig) (upload : Upload) (s : Depot ι) (i : ι) : Outcome → Depot ι
  | .done => s.advance config upload i
  | .threw effect => s.throw_ upload i effect

end Depot

/-- A step of a call; a commit that deletes rows, by `AttachmentService.remove` or the cascade
from a task, a board or a workspace, and leaves the bytes; or the clock. -/
inductive Action (ι : Type) where
  | createFile (i : ι) (outcome : Outcome)
  | delete (doomed : Attachment → Bool)
  | clock (elapsed : Nat)

variable {ι : Type} [DecidableEq ι]

def Depot.step (config : AttachmentConfig) (uploads : ι → Upload) (s : Depot ι) : Action ι → Depot ι
  | .createFile i outcome => s.createFile config (uploads i) i outcome
  | .delete doomed => { s with attachments := s.attachments.filter (!doomed ·) }
  | .clock elapsed => { s with now := s.now + elapsed }

def Depot.run (config : AttachmentConfig) (uploads : ι → Upload) (s : Depot ι) : List (Action ι) → Depot ι
  | [] => s
  | action :: rest => (s.step config uploads action).run config uploads rest

end AttachmentService
end Kurul
