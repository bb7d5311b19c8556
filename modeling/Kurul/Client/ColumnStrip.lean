import Kurul.Board.ListRuns
import Kurul.Machine

/-! The column strip of a board: moves that set the list they captured when they return, and a
refetch for each event that a column was changed, none of which is aborted. -/
namespace Kurul.Client

open Store Prog

/-- A column write of somebody else's. -/
inductive ColumnCommit where
  | create (dto : CreateColumnDto)
  | createDefaults (negotiated : Option Locale)
  | update (columnId : Id) (dto : UpdateColumnDto)
  | remove (columnId : Id)
  | move (columnId : Id) (dto : MoveColumnDto)

def ColumnCommit.service (workspaceId boardId actorId : Id) : ColumnCommit → Service Unit
  | .create dto => do let _ ← ColumnService.create workspaceId boardId actorId dto
  | .createDefaults negotiated => do let _ ← ColumnService.createDefaults workspaceId boardId actorId negotiated
  | .update columnId dto => do let _ ← ColumnService.update workspaceId columnId actorId dto
  | .remove columnId => ColumnService.remove workspaceId columnId actorId
  | .move columnId dto => do let _ ← ColumnService.move workspaceId columnId actorId dto

/-- The events it is announced with: one for each column. -/
def ColumnCommit.events : ColumnCommit → Nat
  | .createDefaults negotiated => (defaultColumnsFor (negotiated.getD DEFAULT_LOCALE)).length
  | .create _ | .update .. | .remove _ | .move .. => 1

/-- The column it is about, where there is one already. -/
def ColumnCommit.columnId : ColumnCommit → Option Id
  | .create _ | .createDefaults _ => none
  | .update columnId _ | .remove columnId | .move columnId _ => some columnId

/-- A move on its way, with the columns it captured. -/
structure ColumnMove where
  columnId : Id
  without : List ColumnDto
  targetIndex : Nat
  answer : Option (Except Error ColumnDto) := none

namespace ColumnMove

def body (move : ColumnMove) : MoveColumnDto where
  beforeColumnId := if move.targetIndex = 0 then none else (move.without[move.targetIndex - 1]?).map ColumnDto.id
  afterColumnId := (move.without[move.targetIndex]?).map ColumnDto.id

def updated (move : ColumnMove) : Option ColumnDto := move.answer.bind Except.toOption

end ColumnMove

structure ColumnStrip where
  server : Store.Session Row Key Event
  columns : List ColumnDto
  /-- `column:changed` events that are not delivered yet. -/
  events : Nat := 0
  /-- Refetches on their way, with their answers once they are served. -/
  refetches : List (Option (List ColumnDto)) := []
  moves : List ColumnMove := []

inductive StripMove where
  | others (actorId : Id) (change : ColumnCommit)
  | moveColumn (columnId : Id) (right : Bool)
  | serveMove (index : Nat)
  | moved (index : Nat)
  | lost (index : Nat)
  | columnChanged
  | serveRefetch (index : Nat)
  | refetched (index : Nat)

namespace ColumnStrip

/-- `list.splice(index, 0, item)`. -/
def splice {α : Type} (list : List α) (index : Nat) (item : α) : List α := list.take index ++ item :: list.drop index

/-- The answer of `ColumnService.list`. -/
def listColumns (boardId : Id) (rows : List Row) : List ColumnDto :=
  (ColumnService.columnsOf boardId rows).map (ColumnService.toDto rows)

def load (boardId : Id) (rows : List Row) : ColumnStrip := { server := { rows }, columns := listColumns boardId rows }

/-- The place of the column that is moved, and the one it is moved to. -/
def targetIndex (columns : List ColumnDto) (columnId : Id) (right : Bool) : Option Nat :=
  (columns.findIdx? (·.id = columnId)).bind fun index =>
    if right then if index + 1 < columns.length then some (index + 1) else none
    else if index = 0 then none else some (index - 1)

variable (oracle : Nat → Choice Input Error) (workspaceId boardId userId : Id)

def step (s : ColumnStrip) : StripMove → Option ColumnStrip
  | .others actorId change =>
      if change.columnId.all fun columnId => columnId ∈ (ColumnService.columnsOf boardId s.server.rows).map Column.id then
        match (change.service workspaceId boardId actorId).run oracle s.server with
        | (.ok _, server) => some { s with server, events := s.events + change.events }
        | (.error _, _) => some s
      else none
  | .moveColumn columnId right => (targetIndex s.columns columnId right).map fun targetIndex =>
      { s with moves := s.moves ++ [{ columnId, without := s.columns.filter (·.id ≠ columnId), targetIndex }] }
  | .serveMove index => (s.moves[index]?).bind fun move => if move.answer.isNone then
      match (ColumnService.move workspaceId move.columnId userId move.body).run oracle s.server with
      | (.ok updated, server) => some { s with
          server
          events := s.events + 1
          moves := s.moves.set index { move with answer := some (.ok updated) } }
      | (.error error, _) => some { s with moves := s.moves.set index { move with answer := some (.error error) } }
      else none
  | .moved index => (s.moves[index]?).bind fun move => move.answer.map fun answer => { s with
      columns := match answer with
        | .ok updated => splice move.without move.targetIndex updated
        | .error _ => s.columns
      moves := s.moves.eraseIdx index }
  | .lost index => (s.moves[index]?).map fun _ => { s with moves := s.moves.eraseIdx index }
  | .columnChanged => if 0 < s.events then
      some { s with events := s.events - 1, refetches := s.refetches ++ [none] } else none
  | .serveRefetch index => (s.refetches[index]?).bind fun answer => if answer.isNone then
      some { s with refetches := s.refetches.set index (some (listColumns boardId s.server.rows)) } else none
  | .refetched index => (s.refetches[index]?).bind fun answer => answer.map fun columns =>
      { s with columns, refetches := s.refetches.eraseIdx index }

/-- Every request has completed, and the last event has been handled. -/
structure Quiet (s : ColumnStrip) : Prop where
  events : s.events = 0
  refetches : s.refetches = []
  moves : s.moves = []

/-- The columns are the server's where no refetch is to come. -/
def Settled (s : ColumnStrip) : Prop := s.events = 0 → s.refetches = [] → s.columns = listColumns boardId s.server.rows

/-- Another refetch is to come. -/
def Awaits (s : ColumnStrip) (others : List (Option (List ColumnDto))) : Prop := 0 < s.events ∨ others ≠ []

/-- A refetch that lands last was served with the columns as they are. A move returns before a
refetch, or where the other columns are the ones it captured and its own stands where it is put. -/
def InTurn (s : ColumnStrip) : StripMove → Prop
  | .moved index => ∀ move ∈ s.moves[index]?, ∀ updated ∈ move.updated, s.Awaits s.refetches ∨
      (s.columns.eraseIdx move.targetIndex = move.without ∧ s.columns[move.targetIndex]? = some updated)
  | .refetched index => ∀ answer ∈ s.refetches[index]?, ∀ columns ∈ answer,
      s.Awaits (s.refetches.eraseIdx index) ∨ columns = listColumns boardId s.server.rows
  | _ => True

theorem splice_eq {α : Type} {list : List α} {index : Nat} {item : α} (there : list[index]? = some item) :
    splice (list.eraseIdx index) index item = list := by
  obtain ⟨inside, rfl⟩ := List.getElem?_eq_some_iff.mp there
  have front : (list.take index).length = index := List.length_take_of_le inside.le
  rw [splice, List.eraseIdx_eq_take_drop_succ, List.take_left' front, List.drop_left' front, List.cons_getElem_drop_succ,
    List.take_append_drop]

variable {oracle workspaceId boardId userId} {s next : ColumnStrip} {move : StripMove}

theorem announced (change : ColumnCommit) : 0 < change.events := by
  cases change with
  | createDefaults negotiated =>
      rcases negotiated with _ | locale
      · decide
      · cases locale <;> decide
  | create dto => exact Nat.one_pos
  | update columnId dto => exact Nat.one_pos
  | remove columnId => exact Nat.one_pos
  | move columnId dto => exact Nat.one_pos

/-- What an event is still to announce is refetched. -/
theorem settled_of_awaits (awaits : s.Awaits s.refetches) : s.Settled boardId := by
  intro quiet none_
  rcases awaits with announced | some_
  · exact absurd quiet announced.ne'
  · exact absurd none_ some_

theorem Settled.step (settled : s.Settled boardId) (inTurn : s.InTurn boardId move)
    (stepped : s.step oracle workspaceId boardId userId move = some next) : next.Settled boardId := by
  cases move with
  | others actorId change =>
      simp only [ColumnStrip.step] at stepped
      split at stepped
      · split at stepped
        · cases stepped
          exact settled_of_awaits (.inl (Nat.add_pos_right _ (announced change)))
        · cases stepped
          exact settled
      · cases stepped
  | moveColumn columnId right =>
      obtain ⟨target, _, rfl⟩ := Option.map_eq_some_iff.mp stepped
      exact settled
  | serveMove index =>
      obtain ⟨move, _, stepped⟩ := Option.bind_eq_some_iff.mp stepped
      split at stepped
      · split at stepped
        · cases stepped
          exact settled_of_awaits (.inl (Nat.succ_pos _))
        · cases stepped
          exact settled
      · cases stepped
  | moved index =>
      obtain ⟨move, there, stepped⟩ := Option.bind_eq_some_iff.mp stepped
      obtain ⟨answer, answered, rfl⟩ := Option.map_eq_some_iff.mp stepped
      cases answer with
      | error error => exact settled
      | ok updated =>
          rcases inTurn move there updated (by simp [ColumnMove.updated, answered, Except.toOption]) with awaits |
            ⟨others, own⟩
          · exact settled_of_awaits awaits
          · intro quiet none_
            change splice move.without move.targetIndex updated = _
            rw [← others, splice_eq own]
            exact settled quiet none_
  | lost index =>
      obtain ⟨move, _, rfl⟩ := Option.map_eq_some_iff.mp stepped
      exact settled
  | columnChanged =>
      simp only [ColumnStrip.step] at stepped
      split at stepped
      · cases stepped
        exact settled_of_awaits (.inr (by simp))
      · cases stepped
  | serveRefetch index =>
      obtain ⟨answer, there, stepped⟩ := Option.bind_eq_some_iff.mp stepped
      split at stepped
      · cases stepped
        refine settled_of_awaits (.inr ?_)
        have inside := (List.getElem?_eq_some_iff.mp there).1
        exact List.ne_nil_of_length_pos (by rw [List.length_set]; omega)
      · cases stepped
  | refetched index =>
      obtain ⟨answer, there, stepped⟩ := Option.bind_eq_some_iff.mp stepped
      obtain ⟨columns, answered, rfl⟩ := Option.map_eq_some_iff.mp stepped
      rcases inTurn answer there columns answered with awaits | same
      · exact settled_of_awaits awaits
      · exact fun _ _ => same

/-- Where nothing that lands has been overtaken, the strip converges to the server's. -/
theorem strip_converges (oracle : Nat → Choice Input Error) (workspaceId boardId userId : Id) (rows : List Row)
    (moves : List StripMove) (s : ColumnStrip)
    (ran : Machine.run (step oracle workspaceId boardId userId) (load boardId rows) moves = some s)
    (inTurn : Machine.Meets (step oracle workspaceId boardId userId) (InTurn boardId) (load boardId rows) moves)
    (quiet : s.Quiet) : s.columns = listColumns boardId s.server.rows := by
  have start : (load boardId rows).Settled boardId := fun _ _ => rfl
  have settled := Machine.run_keeps (I := Settled boardId)
    (fun _ _ _ settled inTurn stepped => settled.step inTurn stepped) start inTurn ran
  exact settled quiet.events quiet.refetches

def twoColumns : List Row := sampleWorkspace ++ [
  .column { id := "x", boardId := "b", name := "To Do", position := 1000 },
  .column { id := "y", boardId := "b", name := "Done", position := 2000 }]

/-- Somebody creates a column and its refetch lands before a move returns. -/
def overwritten : List StripMove := [
  .moveColumn "x" true, .others "bob" (.create { name := "Review" }), .columnChanged, .serveRefetch 0, .refetched 0,
  .serveMove 0, .columnChanged, .serveRefetch 0, .refetched 0, .moved 0]

/-- The new column is not shown. -/
theorem move_drops_column :
    ¬ ∀ (oracle : Nat → Choice Input Error) (workspaceId boardId userId : Id) (rows : List Row) (moves : List StripMove)
      (s : ColumnStrip), Machine.run (step oracle workspaceId boardId userId) (load boardId rows) moves = some s → s.Quiet →
        s.columns = listColumns boardId s.server.rows := by
  intro claim
  have ran : (Machine.run (step smooth "w" "b" "ann") (load "b" twoColumns) overwritten).any fun s =>
      decide (s.events = 0) && s.refetches.isEmpty && s.moves.isEmpty &&
        decide (s.columns.length ≠ (listColumns "b" s.server.rows).length) := by
    decide +kernel
  obtain ⟨s, reached, holds⟩ := (Option.any_eq_true ..).mp ran
  simp only [Bool.and_eq_true, decide_eq_true_eq, List.isEmpty_iff] at holds
  obtain ⟨⟨⟨events, refetches⟩, moves⟩, fewer⟩ := holds
  exact fewer (congrArg List.length (claim smooth "w" "b" "ann" twoColumns overwritten s reached ⟨events, refetches, moves⟩))

instance (s : ColumnStrip) (others : List (Option (List ColumnDto))) : Decidable (s.Awaits others) :=
  inferInstanceAs (Decidable (0 < s.events ∨ others ≠ []))

instance (boardId : Id) (s : ColumnStrip) (move : StripMove) : Decidable (s.InTurn boardId move) :=
  match move with
  | .moved index => inferInstanceAs (Decidable (∀ move ∈ s.moves[index]?, ∀ updated ∈ move.updated,
      s.Awaits s.refetches ∨
        (s.columns.eraseIdx move.targetIndex = move.without ∧ s.columns[move.targetIndex]? = some updated)))
  | .refetched index => inferInstanceAs (Decidable (∀ answer ∈ s.refetches[index]?, ∀ columns ∈ answer,
      s.Awaits (s.refetches.eraseIdx index) ∨ columns = listColumns boardId s.server.rows))
  | .others .. | .moveColumn .. | .serveMove _ | .lost _ | .columnChanged | .serveRefetch _ =>
      inferInstanceAs (Decidable True)

/-- A move that returns after its own refetch, and then the column of somebody else. -/
def inTurn_ : List StripMove := [
  .moveColumn "x" true, .serveMove 0, .columnChanged, .serveRefetch 0, .refetched 0, .moved 0,
  .others "bob" (.create { name := "Review" }), .columnChanged, .serveRefetch 0, .refetched 0]

theorem strip_converges_in_turn :
    ∃ s, Machine.run (step smooth "w" "b" "ann") (load "b" twoColumns) inTurn_ = some s ∧
      s.columns = listColumns "b" s.server.rows := by
  have ran : (Machine.run (step smooth "w" "b" "ann") (load "b" twoColumns) inTurn_).any fun s =>
      decide (s.events = 0) && s.refetches.isEmpty && s.moves.isEmpty := by
    decide +kernel
  obtain ⟨s, reached, holds⟩ := (Option.any_eq_true ..).mp ran
  simp only [Bool.and_eq_true, decide_eq_true_eq, List.isEmpty_iff] at holds
  obtain ⟨⟨events, refetches⟩, moves⟩ := holds
  refine ⟨s, reached, strip_converges smooth "w" "b" "ann" twoColumns inTurn_ s reached ?_ ⟨events, refetches, moves⟩⟩
  exact Machine.meets_of_checks (fun s move => decide (s.InTurn "b" move)) (fun _ _ => of_decide_eq_true)
    (by decide +kernel)

end ColumnStrip
end Kurul.Client
