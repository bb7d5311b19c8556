import Kurul.Encoding.Utf16
import Kurul.Sequence.Trimming

/-! A Trello export as the importer reads it: what is unusable becomes an issue, and only a
document that is no board at all is refused. Text is in UTF-16 code units, as JavaScript
measures and cuts it. -/
namespace Kurul.Trello

open Encoding (isLead isWhiteSpace)

abbrev CodeUnit := Encoding.Unit16
abbrev JsString := List CodeUnit

/-- A constant of the source, all ASCII. -/
def js (text : String) : JsString := text.toList.map fun c => Fin.ofNat 65536 c.toNat

def isSpace (unit : CodeUnit) : Bool := isWhiteSpace unit.val

def trim (text : JsString) : JsString := Sequence.trimmed isSpace text

structure Clamped (α : Type) where
  value : α
  truncated : Bool

def clampToLength (value : JsString) (maxLength : Nat) : Clamped JsString :=
  if value.length ≤ maxLength then ⟨value, false⟩
  else
    let sliced := value.take maxLength
    ⟨if sliced.getLast?.any isLead then sliced.dropLast else sliced, true⟩

def clampNullable (value : Option JsString) (maxLength : Nat) : Clamped (Option JsString) :=
  match value with
  | none => ⟨none, false⟩
  | some text => ⟨some (clampToLength text maxLength).value, (clampToLength text maxLength).truncated⟩

/-- What `JSON.parse` gives; a number is absent when it is not finite. -/
inductive Value where
  | null
  | bool (value : Bool)
  | num (value : Option ℚ)
  | str (value : JsString)
  | arr (entries : List Value)
  | obj (fields : List (JsString × Value))

inductive TrelloImportScope where
  | List | Column | Card | Label | Checklist | ChecklistItem | Attachment | Member | Comment
  deriving DecidableEq

inductive TrelloImportSkipReason where
  | OutOfScope | Archived | Unmappable | UnsupportedScheme | Malformed | Defaulted
  deriving DecidableEq

structure TrelloList where
  id : JsString
  name : JsString
  pos : Option ℚ
  closed : Bool

structure TrelloAttachment where
  id : JsString
  name : JsString
  url : JsString

structure TrelloCard where
  id : JsString
  name : JsString
  desc : Option JsString
  idList : Option JsString
  pos : Option ℚ
  closed : Bool
  due : Option JsString
  idLabels : List JsString
  idMembers : List JsString
  attachments : List TrelloAttachment

structure TrelloLabel where
  id : JsString
  name : JsString
  color : Option JsString

structure TrelloCheckItem where
  id : JsString
  name : JsString
  state : Option JsString
  pos : Option ℚ

structure TrelloChecklist where
  id : JsString
  idCard : Option JsString
  name : JsString
  pos : Option ℚ
  checkItems : List TrelloCheckItem

structure TrelloExport where
  name : JsString
  desc : Option JsString
  lists : List TrelloList
  cards : List TrelloCard
  labels : List TrelloLabel
  checklists : List TrelloChecklist
  commentCount : Nat
  memberCount : Nat

structure TrelloReadIssue where
  scope : TrelloImportScope
  reason : TrelloImportSkipReason
  sample : Option JsString

structure TrelloExportReadResult where
  source : TrelloExport
  issues : List TrelloReadIssue

/-- The last binding of a key; an absent one is `undefined`. -/
def get (fields : List (JsString × Value)) (name : String) : Option Value :=
  (fields.reverse.find? fun field => field.1 = js name).map Prod.snd

/-- A field read with its fallback, and whether the entry is unusable for it. -/
structure FieldRead (α : Type) where
  value : α
  unusable : Bool := false

namespace EntryFields

def string (value : Option Value) (fallback : JsString) : FieldRead JsString :=
  match value with
  | some (.str text) => ⟨text, false⟩
  | none | some .null => ⟨fallback, false⟩
  | some _ => ⟨fallback, true⟩

def nullableString (value : Option Value) : FieldRead (Option JsString) :=
  match value with
  | some (.str text) => ⟨some text, false⟩
  | none | some .null => ⟨none, false⟩
  | some _ => ⟨none, true⟩

def boolean (value : Option Value) : FieldRead Bool :=
  match value with
  | some (.bool flag) => ⟨flag, false⟩
  | none | some .null => ⟨false, false⟩
  | some _ => ⟨false, true⟩

def array (value : Option Value) : FieldRead (List Value) :=
  match value with
  | some (.arr entries) => ⟨entries, false⟩
  | none | some .null => ⟨[], false⟩
  | some _ => ⟨[], true⟩

def stringArray (value : Option Value) : FieldRead (List JsString) :=
  let entries := array value
  let strings := entries.value.filterMap fun entry =>
    match entry with
    | .str text => some text
    | _ => none
  ⟨strings, entries.unusable || strings.length ≠ entries.value.length⟩

end EntryFields

open EntryFields

def readPos : Option Value → Option ℚ
  | some (.num value) => value
  | _ => none

def readId : Option Value → Option JsString
  | some (.str text) => if text.length > 0 then some text else none
  | _ => none

def readList : Value → Option TrelloList
  | .obj entry => do
      let id ← readId (get entry "id")
      let name := string (get entry "name") []
      let closed := boolean (get entry "closed")
      if name.unusable || closed.unusable then none
      else some { id, name := name.value, pos := readPos (get entry "pos"), closed := closed.value }
  | _ => none

def readAttachment : Value → Option TrelloAttachment
  | .obj entry => do
      let url ← readId (get entry "url")
      let id := string (get entry "id") []
      let name := string (get entry "name") url
      if id.unusable || name.unusable then none else some { id := id.value, name := name.value, url }
  | _ => none

def readCard : Value → Option TrelloCard
  | .obj entry => do
      let id ← readId (get entry "id")
      let raw := array (get entry "attachments")
      let attachments := raw.value.filterMap readAttachment
      let name := string (get entry "name") []
      let desc := nullableString (get entry "desc")
      let idList := nullableString (get entry "idList")
      let closed := boolean (get entry "closed")
      let due := nullableString (get entry "due")
      let idLabels := stringArray (get entry "idLabels")
      let idMembers := stringArray (get entry "idMembers")
      if raw.unusable || attachments.length ≠ raw.value.length || name.unusable || desc.unusable ||
          idList.unusable || closed.unusable || due.unusable || idLabels.unusable || idMembers.unusable then none
      else some {
        id
        name := name.value
        desc := desc.value
        idList := idList.value
        pos := readPos (get entry "pos")
        closed := closed.value
        due := due.value
        idLabels := idLabels.value
        idMembers := idMembers.value
        attachments }
  | _ => none

def readLabel : Value → Option TrelloLabel
  | .obj entry => do
      let id ← readId (get entry "id")
      let name := string (get entry "name") []
      let color := nullableString (get entry "color")
      if name.unusable || color.unusable then none else some { id, name := name.value, color := color.value }
  | _ => none

def readCheckItem : Value → Option TrelloCheckItem
  | .obj entry => do
      let id ← readId (get entry "id")
      let name := string (get entry "name") []
      let state := nullableString (get entry "state")
      if name.unusable || state.unusable then none
      else some { id, name := name.value, state := state.value, pos := readPos (get entry "pos") }
  | _ => none

/-- What one entry of a section comes to: a row or none, and the issues inside it. -/
structure EntryRead (α : Type) where
  row : Option α
  issues : List TrelloReadIssue := []

/-- An unreadable item is an issue of its own. -/
def readChecklist : Value → EntryRead TrelloChecklist
  | .obj entry =>
      match readId (get entry "id") with
      | none => ⟨none, []⟩
      | some id =>
          let raw := array (get entry "checkItems")
          let issues := raw.value.filterMap fun item =>
            if (readCheckItem item).isNone then some ⟨.ChecklistItem, .Malformed, none⟩ else none
          let idCard := nullableString (get entry "idCard")
          let name := string (get entry "name") []
          if raw.unusable || idCard.unusable || name.unusable then ⟨none, issues⟩
          else ⟨some {
            id
            idCard := idCard.value
            name := name.value
            pos := readPos (get entry "pos")
            checkItems := raw.value.filterMap readCheckItem }, issues⟩
  | _ => ⟨none, []⟩

/-- The name an unreadable entry is reported with. -/
def sampleOf : Value → Option JsString
  | .obj entry =>
      match get entry "name" with
      | some (.str text) => some text
      | _ => none
  | _ => none

section Sections

variable {α : Type} (scope : TrelloImportScope) (read : Value → EntryRead α)

/-- The issues of one entry, those inside it first. -/
def entryIssues (entry : Value) : List TrelloReadIssue :=
  (read entry).issues ++
    if (read entry).row.isNone then [⟨scope, .Malformed, sampleOf entry⟩] else []

def readSection (raw : Option Value) : List α × List TrelloReadIssue :=
  match raw with
  | some (.arr entries) => (entries.filterMap fun entry => (read entry).row, entries.flatMap (entryIssues scope read))
  | _ => ([], [⟨scope, .Malformed, none⟩])

end Sections

def isCommentCard : Value → Bool
  | .obj entry =>
      match get entry "type" with
      | some (.str text) => text = js "commentCard"
      | _ => false
  | _ => false

def countActions : Option Value → Nat × List TrelloReadIssue
  | some (.arr entries) => ((entries.filter isCommentCard).length, [])
  | _ => (0, [⟨.Comment, .Malformed, none⟩])

def countMembers : Option Value → Nat × List TrelloReadIssue
  | some (.arr entries) => (entries.length, [])
  | _ => (0, [⟨.Member, .Malformed, none⟩])

/-- A board has a name and an array of lists; anything else is refused. -/
def parseTrelloExport (raw : Value) : Option TrelloExportReadResult :=
  match raw with
  | .obj fields =>
      match get fields "name", get fields "lists" with
      | some (.str name), some (.arr _) =>
          let lists := readSection .List (fun entry => ⟨readList entry, []⟩) (get fields "lists")
          let cards := readSection .Card (fun entry => ⟨readCard entry, []⟩) (get fields "cards")
          let labels := readSection .Label (fun entry => ⟨readLabel entry, []⟩) (get fields "labels")
          let checklists := readSection .Checklist readChecklist (get fields "checklists")
          let comments := countActions (get fields "actions")
          let members := countMembers (get fields "members")
          some {
            source := {
              name
              desc := (nullableString (get fields "desc")).value
              lists := lists.1
              cards := cards.1
              labels := labels.1
              checklists := checklists.1
              commentCount := comments.1
              memberCount := members.1 }
            issues := lists.2 ++ cards.2 ++ labels.2 ++ checklists.2 ++ comments.2 ++ members.2 }
      | _, _ => none
  | _ => none

end Kurul.Trello
