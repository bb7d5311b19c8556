import Kurul.Audit.Trail
import Kurul.Board.BoardService

/-! The audit trails of columns and boards under interleaved updates. An update reads its
`from` values in a statement of its own, so the trail is a chain only where no other update
has committed in between. -/
namespace Kurul

open Store Prog

def columnFields (column : Column) : Fields :=
  [("name", .text column.name), ("color", Json.ofOption .text column.color),
    ("category", .text column.category.text)]

def boardFields (board : Board) : Fields :=
  [("name", .text board.name), ("description", Json.ofOption .text board.description)]

theorem key_column (column : Column) : key (toRow column : Row) = Key.column column.id := rfl

theorem key_board (board : Board) : key (toRow board : Row) = Key.board board.id := rfl

def auditedColumns : AuditedKind Column where
  id := Column.id
  keyOf := .column
  keyed := key_column
  fields := columnFields
  names := ["name", "color", "category"]
  named _ := rfl
  distinct := by decide
  type := .ColumnUpdated
  idField := "columnId"

def auditedBoards : AuditedKind Board where
  id := Board.id
  keyOf := .board
  keyed := key_board
  fields := boardFields
  names := ["name", "description"]
  named _ := rfl
  distinct := by decide
  type := .BoardUpdated
  idField := "boardId"

structure UpdateColumnCall where
  workspaceId : Id
  actorId : Id
  dto : UpdateColumnDto

structure UpdateBoardCall where
  workspaceId : Id
  actorId : Id
  dto : UpdateBoardDto

def UpdateColumnCall.service (call : UpdateColumnCall) (columnId : Id) : Service ColumnDto :=
  ColumnService.update call.workspaceId columnId call.actorId call.dto

def UpdateBoardCall.service (call : UpdateBoardCall) (boardId : Id) : Service BoardDto :=
  BoardService.update call.workspaceId boardId call.actorId call.dto

theorem verified_updateColumn {allow : Assertion Row} (call : UpdateColumnCall) (columnId : Id) :
    Verified Protocol.unique allow (auditedColumns.promise columnId) (call.service columnId) {}
      (fun _ => True) fun _ _ _ => True := by
  unfold UpdateColumnCall.service ColumnService.update
  refine Verified.bind (Verified.transaction ?_)
  refine Verified.bind (Verified.found trivial fun view before unique _ hit =>
    ⟨fun _ => True, trivial, Stable.const _ _ True, ?_⟩)
  obtain ⟨own, _⟩ : before.id = columnId ∧ _ := by simpa [scopedColumn] using List.find?_some hit
  have stored := mem_table.mp (List.mem_of_find?_eq_some hit)
  refine Verified.bind (Verified.keep trivial (Stable.const _ _ True) fun rows _ _ o ran => ?_)
  obtain ⟨_, updated, answered, written, _⟩ := including_ok ran
  obtain ⟨row, _, matched, changed, wrote⟩ := Statement.update_ok updated
  obtain ⟨same, _⟩ : row.id = columnId ∧ _ := by simpa [scopedColumn] using matched
  have writes : o.writes = [.put (toRow o.result.1)] := by rw [written, wrote, answered, changed]
  have updatedId : o.result.1.id = columnId := by rw [answered, changed]; exact same
  apply Verified.andThen (AuditedKind.verified_entry (K := auditedColumns) o.result.1 unique stored own
    rfl (by simp [Local.ran, writes]) updatedId ?_ rfl rfl rfl)
  · exact fun _ _ _ commits => commits
  · simp [Write.Elsewhere, Write.target, key, toRow, Row.key]

theorem verified_updateBoard {allow : Assertion Row} (call : UpdateBoardCall) (boardId : Id) :
    Verified Protocol.unique allow (auditedBoards.promise boardId) (call.service boardId) {}
      (fun _ => True) fun _ _ _ => True := by
  unfold UpdateBoardCall.service BoardService.update
  refine Verified.bind (Verified.transaction ?_)
  refine Verified.bind (Verified.found trivial fun view before unique _ hit =>
    ⟨fun _ => True, trivial, Stable.const _ _ True, ?_⟩)
  obtain ⟨own, _⟩ : before.id = boardId ∧ _ := by simpa [BoardService.scopedBoard] using List.find?_some hit
  have stored := mem_table.mp (List.mem_of_find?_eq_some hit)
  refine Verified.bind (Verified.keep trivial (Stable.const _ _ True) fun rows _ _ o ran => ?_)
  obtain ⟨row, _, matched, changed, wrote⟩ := Statement.update_ok ran
  obtain ⟨same, _⟩ : row.id = boardId ∧ _ := by simpa [BoardService.scopedBoard] using matched
  have writes : o.writes = [.put (toRow o.result)] := by rw [wrote, changed]
  have updatedId : o.result.id = boardId := by rw [changed]; exact same
  apply Verified.andThen (AuditedKind.verified_entry (K := auditedBoards) o.result unique stored own
    rfl (by simp [Local.ran, writes]) updatedId ?_ rfl rfl rfl)
  · exact fun _ _ _ commits => commits
  · simp [Write.Elsewhere, Write.target, key, toRow, Row.key]

/-- Where no update commits between another's read and its commit, audit rows tell the truth. -/
theorem update_trails_chain {ι : Type} [DecidableEq ι] {rows : List Row} (unique : UniqueKeys rows)
    (objectId : Id) :
    (∀ (calls : ι → UpdateColumnCall) (s : System ι Row Key Event Input Error ColumnDto),
      System.Reaches (ReadLast (auditedColumns.trail objectId).state)
        { rows, threads := fun i => { prog := (calls i).service objectId } } s →
      auditedColumns.Truthful objectId rows s.rows) ∧
    ∀ (calls : ι → UpdateBoardCall) (s : System ι Row Key Event Input Error BoardDto),
      System.Reaches (ReadLast (auditedBoards.trail objectId).state)
        { rows, threads := fun i => { prog := (calls i).service objectId } } s →
      auditedBoards.Truthful objectId rows s.rows := by
  constructor
  · intro calls s run
    have sound : Sound Protocol.unique (fun _ _ => True) (fun _ => auditedColumns.promise objectId)
        ({ rows, threads := fun i => { prog := (calls i).service objectId } } :
          System ι Row Key Event Input Error ColumnDto) :=
      .initial unique fun i => verified_updateColumn (calls i) objectId
    apply AuditedKind.Truthful.of_traced
    exact Journal.traced_of_reaches (J := auditedColumns.trail objectId)
      (fun _ => SinceRead (auditedColumns.trail objectId).state) sound (fun _ _ => trivial)
      (fun _ _ _ told since => told since) run
  · intro calls s run
    have sound : Sound Protocol.unique (fun _ _ => True) (fun _ => auditedBoards.promise objectId)
        ({ rows, threads := fun i => { prog := (calls i).service objectId } } :
          System ι Row Key Event Input Error BoardDto) :=
      .initial unique fun i => verified_updateBoard (calls i) objectId
    apply AuditedKind.Truthful.of_traced
    exact Journal.traced_of_reaches (J := auditedBoards.trail objectId)
      (fun _ => SinceRead (auditedBoards.trail objectId).state) sound (fun _ _ => trivial)
      (fun _ _ _ told since => told since) run

/-- Both rename the one column. -/
def renames : Caller → UpdateColumnCall
  | .ann => { workspaceId := "w", actorId := "ann", dto := { name := some "Doing" } }
  | .bob => { workspaceId := "w", actorId := "bob", dto := { name := some "Done", color := some (some "red") } }

def renamed : System Caller Row Key Event Input Error ColumnDto where
  rows := sampleWorkspace ++ [.column { id := "c", boardId := "b", name := "To Do", position := 1000 }]
  threads i := { prog := (renames i).service "c" }

/-- Bob reads the name that Ann then replaces. -/
def readTooEarly : List (Action Caller Input Error) := inTurn .bob 1 1 ++ inTurn .ann 10 5 ++ inTurn .bob 20 4

theorem trail_broken_by_overlap :
    ∃ s, renamed.runs readTooEarly = some s ∧ ¬ auditedColumns.Truthful "c" renamed.rows s.rows := by
  have broken : ((renamed.runs readTooEarly).map fun s =>
      decide (replayAll ((auditedColumns.trail "c").state renamed.rows) ((auditedColumns.trail "c").entries s.rows) =
        (auditedColumns.trail "c").state s.rows)) = some false := by decide +kernel
  obtain ⟨s, ran, differs⟩ := Option.map_eq_some_iff.mp broken
  exact ⟨s, ran, fun truthful => of_decide_eq_false differs (truthful.replays (by decide +kernel))⟩

/-- One after the other. -/
def oneByOne : List (Action Caller Input Error) := inTurn .ann 1 5 ++ inTurn .bob 10 5

theorem update_trails_chain_oneByOne :
    ∃ s, renamed.runsChecked (readLast (auditedColumns.trail "c").state) oneByOne = some s ∧
      auditedColumns.Truthful "c" renamed.rows s.rows := by
  have runs : (renamed.runsChecked (readLast (auditedColumns.trail "c").state) oneByOne).isSome := by decide +kernel
  obtain ⟨s, ran⟩ := Option.isSome_iff_exists.mp runs
  refine ⟨s, ran, ?_⟩
  have unique : UniqueKeys renamed.rows := by decide +kernel
  exact (update_trails_chain unique "c").1 renames s
    (.of_runsChecked (fun _ _ passed => readLast_sound _ passed) oneByOne ran)

end Kurul
