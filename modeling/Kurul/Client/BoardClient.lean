import Kurul.Client.BoardTasks
import Kurul.Machine
import Kurul.Sequence.Keyset
import Kurul.Service

/-! One open board of a browser against the API: the server's tasks, the room's events in
commit order and the requests in flight. A request is served at one moment and its answer
taken at a later one. -/
namespace Kurul.Client

def BOARD_TASK_PAGE_LIMIT : Nat := 100

/-- A paged read under way: what its filters select and where the next page starts. -/
structure Drain where
  filters : TaskDto → Bool
  index : Nat := 0
  cursor : Option Id := none

/-- `GET …/tasks?limit=100&cursor=…`, with the list's summaries in place of the checklists. -/
def boardPage (rows : List TaskDto) (drain : Drain) : CursorPage TaskDto :=
  toCursorPage (Sequence.page TaskDto.id (BOARD_TASK_PAGE_LIMIT + 1) drain.cursor (rows.filter drain.filters))
    TaskDto.id BOARD_TASK_PAGE_LIMIT fun task => { task with checklists := none }

inductive Request where
  /-- the debounced refetch of an event -/
  | upsert (taskId : Id)
  /-- the read of a deep-linked task -/
  | panelTask (taskId : Id)
  /-- the read of an open task's checklists -/
  | detail (taskId : Id)
  | page (drain : Drain)
  | create
  /-- a write of the panel, and what is put back when it is refused -/
  | write (taskId : Id) (rollback : Option TaskFields)
  | remove (taskId : Id)

/-- The reads that carry an abort signal; of the paged ones only that of a load does. -/
def Request.signalled : Request → Bool
  | .panelTask _ | .detail _ | .page _ => true
  | _ => false

inductive Answer where
  | task (task : TaskDto)
  | page (page : CursorPage TaskDto)
  | done
  | refused

structure InFlight where
  request : Request
  aborted : Bool := false
  answer : Option Answer := none

inductive BoardEvent where
  | created (taskId : Id)
  | updated (taskId : Id)
  | moved (taskId columnId : Id) (position : ℚ) (actorId : Id)
  | deleted (taskId : Id)
  deriving DecidableEq

/-- A committed write, by whomever, with the event it ends with. -/
inductive ServerChange where
  | create (task : TaskDto)
  | update (task : TaskDto)
  | move (task : TaskDto) (actorId : Id)
  | delete (taskId : Id)

structure BoardClient where
  /-- the server's tasks of the board, and every id that has been given to one -/
  rows : List TaskDto
  issued : List Id
  events : List BoardEvent := []
  currentUserId : Option Id := none
  tasks : List TaskDto := []
  tasksRef : List TaskDto := []
  upsertTimers : List Id := []
  requests : Nat → Option InFlight := fun _ => none
  /-- the tasks whose deletion has been handled -/
  deleted : List Id := []

inductive Move where
  | commit (change : ServerChange)
  | receive
  /-- the effect that brings the ref up to the list -/
  | mirror
  | fire (taskId : Id) (slot : Nat)
  | readPanelTask (taskId : Id) (slot : Nat)
  | readDetail (taskId : Id) (slot : Nat)
  | drain (filters : TaskDto → Bool) (slot : Nat)
  | abort (slot : Nat)
  | create (slot : Nat)
  | write (taskId : Id) (shown rollback : Option TaskFields) (slot : Nat)
  | remove (taskId : Id) (slot : Nat)
  /-- a read, or a write that changes nothing, is answered from the rows -/
  | serve (slot : Nat)
  | serveWrite (slot : Nat) (change : ServerChange)
  | refuse (slot : Nat)
  | complete (slot : Nat)

namespace BoardClient

variable (s : BoardClient)

/-- Ids are never given twice, and only stored tasks are written. -/
def commit : ServerChange → Option BoardClient
  | .create task =>
      if task.id ∈ s.issued then none
      else some { s with
        rows := s.rows ++ [task]
        issued := task.id :: s.issued
        events := s.events ++ [.created task.id] }
  | .update task =>
      if onBoard s.rows task.id then some { s with
        rows := s.rows.map fun row => if row.id = task.id then task else row
        events := s.events ++ [.updated task.id] }
      else none
  | .move task actorId =>
      if onBoard s.rows task.id then some { s with
        rows := s.rows.map fun row => if row.id = task.id then task else row
        events := s.events ++ [.moved task.id task.columnId task.position actorId] }
      else none
  | .delete taskId =>
      if onBoard s.rows taskId then some { s with
        rows := removeTask taskId s.rows
        events := s.events ++ [.deleted taskId] }
      else none

/-- The timer of the task starts again. -/
def upsertRemoteTask (taskId : Id) : BoardClient :=
  { s with upsertTimers := taskId :: s.upsertTimers.filter (· ≠ taskId) }

/-- The timer has gone off. -/
def disarm (taskId : Id) : BoardClient := { s with upsertTimers := s.upsertTimers.filter (· ≠ taskId) }

def handle : BoardEvent → BoardClient
  | .created taskId => if onBoard s.tasksRef taskId then s else s.upsertRemoteTask taskId
  | .updated taskId => s.upsertRemoteTask taskId
  | .moved taskId columnId position actorId =>
      let moved := { s with tasks := moveTask taskId columnId position s.tasks }
      if s.currentUserId ≠ some actorId && !onBoard s.tasksRef taskId then moved.upsertRemoteTask taskId
      else moved
  | .deleted taskId => { s with tasks := removeTask taskId s.tasks, deleted := taskId :: s.deleted }

def send (slot : Nat) (request : Request) : Option BoardClient :=
  if (s.requests slot).isSome then none
  else some { s with requests := Function.update s.requests slot (some { request }) }

def readTask (taskId : Id) : Answer :=
  match s.rows.find? (·.id = taskId) with
  | some task => .task task
  | none => .refused

def answerTo : Request → Option Answer
  | .upsert taskId | .panelTask taskId | .detail taskId | .write taskId _ => some (s.readTask taskId)
  | .page drain => some (.page (boardPage s.rows drain))
  | .create | .remove _ => none

/-- What a write of the client may commit, and its answer. -/
def accepts : Request → ServerChange → Option Answer
  | .create, .create task => some (.task task)
  | .write taskId _, .update task => if task.id = taskId then some (.task task) else none
  | .remove taskId, .delete deleted => if deleted = taskId then some .done else none
  | _, _ => none

def answered (slot : Nat) (flight : InFlight) (answer : Answer) : BoardClient :=
  { s with requests := Function.update s.requests slot (some { flight with answer := some answer }) }

/-- The request is over. -/
def close (slot : Nat) : BoardClient := { s with requests := Function.update s.requests slot none }

def applyPatch (patch : TaskPatch) : BoardClient :=
  { s with tasks := (applyTaskPatch s.tasksRef patch s.tasks).1 }

/-- Another page follows when the cursor moves on. -/
def nextPage (slot : Nat) (drain : Drain) (page : CursorPage TaskDto) : BoardClient :=
  if page.hasMore && page.nextCursor.isSome && page.nextCursor ≠ drain.cursor then
    { s with requests := Function.update s.requests slot (some {
        request := .page { drain with index := drain.index + 1, cursor := page.nextCursor } }) }
  else s.close slot

def take (slot : Nat) (aborted : Bool) : Request → Answer → BoardClient
  | .upsert taskId, .task remote => { s.close slot with tasks := upsertTask taskId remote s.tasks }
  | .panelTask _, .task task =>
      if aborted then s.close slot else { s.close slot with tasks := foldPanelTask task s.tasks }
  | .detail _, .task task => if aborted then s.close slot else (s.close slot).applyPatch (.whole task)
  | .page drain, .page page =>
      if aborted then s.close slot
      else { s.nextPage slot drain page with tasks := paintPage drain.index page.items s.tasks }
  | .create, .task task => { s.close slot with tasks := appendTask task s.tasks }
  | .write _ _, .task task => (s.close slot).applyPatch (.whole task)
  | .write taskId (some rollback), .refused => (s.close slot).applyPatch (.fields taskId rollback)
  | .remove taskId, .done => { s.close slot with tasks := removeTask taskId s.tasks }
  | _, _ => s.close slot

def step : Move → Option BoardClient
  | .commit change => s.commit change
  | .receive =>
      match s.events with
      | [] => none
      | event :: rest => some ({ s with events := rest }.handle event)
  | .mirror => some { s with tasksRef := s.tasks }
  | .fire taskId slot =>
      if taskId ∈ s.upsertTimers then (s.disarm taskId).send slot (.upsert taskId) else none
  | .readPanelTask taskId slot => if onBoard s.tasks taskId then none else s.send slot (.panelTask taskId)
  | .readDetail taskId slot => if onBoard s.tasks taskId then s.send slot (.detail taskId) else none
  | .drain filters slot => s.send slot (.page { filters })
  | .abort slot => do
      let flight ← s.requests slot
      if flight.request.signalled then
        return { s with requests := Function.update s.requests slot (some { flight with aborted := true }) }
      else none
  | .create slot => s.send slot .create
  | .write taskId shown rollback slot =>
      if onBoard s.tasks taskId then
        (match shown with
          | some fields => s.applyPatch (.fields taskId fields)
          | none => s).send slot (.write taskId rollback)
      else none
  | .remove taskId slot => s.send slot (.remove taskId)
  | .serve slot => do
      let flight ← s.requests slot
      if flight.answer.isSome then none
      else
        let answer ← s.answerTo flight.request
        return s.answered slot flight answer
  | .serveWrite slot change => do
      let flight ← s.requests slot
      if flight.answer.isSome then none
      else
        let answer ← accepts flight.request change
        let written ← s.commit change
        return written.answered slot flight answer
  | .refuse slot => do
      let flight ← s.requests slot
      if flight.answer.isSome then none
      else return s.answered slot flight .refused
  | .complete slot => do
      let flight ← s.requests slot
      let answer ← flight.answer
      return s.take slot flight.aborted flight.request answer

/-- A board about to load. -/
structure Start : Prop where
  rows : (taskIds s.rows).Nodup
  issued : ∀ task ∈ s.rows, task.id ∈ s.issued
  events : s.events = []
  tasks : s.tasks = []
  requests : ∀ slot, s.requests slot = none
  deleted : s.deleted = []

section Frames

variable {s} {next : BoardClient} {slot : Nat} {request : Request}

theorem send_eq (sent : s.send slot request = some next) :
    next = { s with requests := Function.update s.requests slot (some { request }) } := by
  unfold send at sent
  split at sent
  · cases sent
  · exact (Option.some.inj sent).symm

/-- What taking an answer leaves alone. -/
theorem take_frame (slot : Nat) (request : Request) (aborted : Bool) (answer : Answer) :
    (s.take slot aborted request answer).rows = s.rows ∧
      (s.take slot aborted request answer).issued = s.issued ∧
      (s.take slot aborted request answer).events = s.events ∧
      (s.take slot aborted request answer).deleted = s.deleted := by
  unfold take
  split
  case h_4 =>
    unfold nextPage
    split
    · exact ⟨rfl, rfl, rfl, rfl⟩
    · dsimp only
      split <;> exact ⟨rfl, rfl, rfl, rfl⟩
  all_goals first | exact ⟨rfl, rfl, rfl, rfl⟩ | (split <;> exact ⟨rfl, rfl, rfl, rfl⟩)

/-- The request is over, or its next page is asked for. -/
theorem take_requests (slot : Nat) (request : Request) (aborted : Bool) (answer : Answer) :
    ∃ after, (s.take slot aborted request answer).requests = Function.update s.requests slot after ∧
      ∀ flight, after = some flight → flight.answer = none := by
  have closed : ∃ after, (s.close slot).requests = Function.update s.requests slot after ∧
      ∀ flight, after = some flight → flight.answer = none := ⟨none, rfl, by simp⟩
  unfold take
  split
  case h_4 drain page =>
    split
    · exact closed
    · unfold nextPage
      split
      · exact ⟨_, rfl, by simp⟩
      · exact closed
  all_goals first | exact closed | (split <;> exact closed)

end Frames

/-- Every answer on its way is one of these. -/
def EveryAnswer (Q : Request → Bool → Answer → Prop) : Prop :=
  ∀ slot flight answer, s.requests slot = some flight → flight.answer = some answer →
    Q flight.request flight.aborted answer

section Steps

variable {s} {next : BoardClient} {move : Move} {Q : Request → Bool → Answer → Prop}

theorem EveryAnswer.update (slot : Nat) {after : Option InFlight} (all : s.EveryAnswer Q)
    (here : ∀ flight answer, after = some flight → flight.answer = some answer →
      Q flight.request flight.aborted answer)
    (same : next.requests = Function.update s.requests slot after) : next.EveryAnswer Q := by
  intro other flight answer held answered
  rw [same] at held
  by_cases own : other = slot
  · subst own
    rw [Function.update_self] at held
    exact here flight answer held answered
  · rw [Function.update_of_ne own] at held
    exact all other flight answer held answered

theorem EveryAnswer.frame (all : s.EveryAnswer Q) (same : next.requests = s.requests) : next.EveryAnswer Q := by
  intro slot flight answer held answered
  rw [same] at held
  exact all slot flight answer held answered

theorem EveryAnswer.send {slot : Nat} {request : Request} (all : s.EveryAnswer Q)
    (sent : s.send slot request = some next) : next.EveryAnswer Q := by
  cases send_eq sent
  exact all.update slot (by rintro flight answer ⟨⟩ ⟨⟩) rfl

theorem commit_frame {change : ServerChange} (committed : s.commit change = some next) :
    next.requests = s.requests ∧ next.tasks = s.tasks ∧ next.deleted = s.deleted := by
  cases change with
  | _ =>
      simp only [commit] at committed
      split at committed
      all_goals first
        | (cases committed; exact ⟨rfl, rfl, rfl⟩)
        | cases committed

theorem handle_frame (event : BoardEvent) :
    (s.handle event).requests = s.requests ∧ (s.handle event).rows = s.rows ∧
      (s.handle event).issued = s.issued ∧ (s.handle event).events = s.events := by
  cases event with
  | _ =>
      unfold handle
      first
        | exact ⟨rfl, rfl, rfl, rfl⟩
        | (dsimp only; split <;> exact ⟨rfl, rfl, rfl, rfl⟩)

/-- An answer is given by the server or was there before. -/
theorem EveryAnswer.step (all : s.EveryAnswer Q)
    (aborts : ∀ request answer aborted, Q request aborted answer → Q request true answer)
    (reads : ∀ request aborted answer, s.answerTo request = some answer → Q request aborted answer)
    (writes : ∀ request aborted answer change written, accepts request change = some answer →
      s.commit change = some written → Q request aborted answer)
    (refusals : ∀ request aborted, Q request aborted .refused)
    (stepped : s.step move = some next) : next.EveryAnswer Q := by
  cases move with
  | commit change => exact all.frame (commit_frame stepped).1
  | receive =>
      simp only [BoardClient.step] at stepped
      split at stepped
      · cases stepped
      · rename_i event rest _
        cases stepped
        exact all.frame (handle_frame (s := { s with events := rest }) event).1
  | mirror =>
      cases stepped
      exact all.frame rfl
  | fire taskId slot =>
      simp only [BoardClient.step] at stepped
      split at stepped
      · exact EveryAnswer.send (s := s.disarm taskId) (all.frame rfl) stepped
      · cases stepped
  | readPanelTask taskId slot =>
      simp only [BoardClient.step] at stepped
      split at stepped
      · cases stepped
      · exact all.send stepped
  | readDetail taskId slot =>
      simp only [BoardClient.step] at stepped
      split at stepped
      · exact all.send stepped
      · cases stepped
  | drain filters slot => exact all.send stepped
  | abort slot =>
      obtain ⟨flight, held, stepped⟩ := Option.bind_eq_some_iff.mp stepped
      split at stepped
      · cases stepped
        apply all.update slot _ rfl
        rintro _ answer ⟨⟩ answered
        exact aborts _ _ _ (all slot flight answer held answered)
      · cases stepped
  | create slot => exact all.send stepped
  | write taskId shown rollback slot =>
      simp only [BoardClient.step] at stepped
      split at stepped
      · cases shown with
        | none => exact all.send stepped
        | some fields => exact EveryAnswer.send (s := s.applyPatch (.fields taskId fields)) (all.frame rfl) stepped
      · cases stepped
  | remove taskId slot => exact all.send stepped
  | serve slot =>
      obtain ⟨flight, held, stepped⟩ := Option.bind_eq_some_iff.mp stepped
      split at stepped
      · cases stepped
      · obtain ⟨answer, given, stepped⟩ := Option.bind_eq_some_iff.mp stepped
        cases stepped
        apply all.update slot _ rfl
        rintro _ _ ⟨⟩ ⟨⟩
        exact reads _ _ _ given
  | serveWrite slot change =>
      obtain ⟨flight, held, stepped⟩ := Option.bind_eq_some_iff.mp stepped
      split at stepped
      · cases stepped
      · obtain ⟨answer, accepted, stepped⟩ := Option.bind_eq_some_iff.mp stepped
        obtain ⟨written, committed, stepped⟩ := Option.bind_eq_some_iff.mp stepped
        cases stepped
        apply EveryAnswer.update (s := written) slot (all.frame (commit_frame committed).1) _ rfl
        rintro _ _ ⟨⟩ ⟨⟩
        exact writes _ _ _ _ _ accepted committed
  | refuse slot =>
      obtain ⟨flight, held, stepped⟩ := Option.bind_eq_some_iff.mp stepped
      split at stepped
      · cases stepped
      · cases stepped
        apply all.update slot _ rfl
        rintro _ _ ⟨⟩ ⟨⟩
        exact refusals _ _
  | complete slot =>
      obtain ⟨flight, held, stepped⟩ := Option.bind_eq_some_iff.mp stepped
      obtain ⟨answer, answered, stepped⟩ := Option.bind_eq_some_iff.mp stepped
      cases stepped
      obtain ⟨after, same, unanswered⟩ := take_requests (s := s) slot flight.request
        flight.aborted answer
      apply all.update slot _ same
      intro other answer' here answered'
      rw [unanswered other here] at answered'
      cases answered'

/-- What a step does to the list: nothing, or an event is handled, an answer is taken or a
write of the panel is shown. -/
theorem board_step (stepped : s.step move = some next) :
    (next.tasks = s.tasks ∧ next.deleted = s.deleted) ∨
      (∃ event rest, move = .receive ∧ s.events = event :: rest ∧ next = { s with events := rest }.handle event) ∨
      (∃ slot flight answer, move = .complete slot ∧ s.requests slot = some flight ∧
        flight.answer = some answer ∧ next = s.take slot flight.aborted flight.request answer) ∨
      ∃ taskId fields, next.tasks = (applyTaskPatch s.tasksRef (.fields taskId fields) s.tasks).1 ∧
        next.deleted = s.deleted := by
  cases move with
  | commit change => exact .inl (commit_frame stepped).2
  | receive =>
      simp only [BoardClient.step] at stepped
      split at stepped
      · cases stepped
      · rename_i event rest queued
        cases stepped
        exact .inr (.inl ⟨event, rest, rfl, queued, rfl⟩)
  | mirror =>
      cases stepped
      exact .inl ⟨rfl, rfl⟩
  | fire taskId slot =>
      simp only [BoardClient.step] at stepped
      split at stepped
      · cases send_eq stepped
        exact .inl ⟨rfl, rfl⟩
      · cases stepped
  | readPanelTask taskId slot =>
      simp only [BoardClient.step] at stepped
      split at stepped
      · cases stepped
      · cases send_eq stepped
        exact .inl ⟨rfl, rfl⟩
  | readDetail taskId slot =>
      simp only [BoardClient.step] at stepped
      split at stepped
      · cases send_eq stepped
        exact .inl ⟨rfl, rfl⟩
      · cases stepped
  | drain filters slot | create slot | remove taskId slot =>
      cases send_eq stepped
      exact .inl ⟨rfl, rfl⟩
  | abort slot =>
      obtain ⟨flight, held, stepped⟩ := Option.bind_eq_some_iff.mp stepped
      split at stepped <;> cases stepped
      exact .inl ⟨rfl, rfl⟩
  | write taskId shown rollback slot =>
      simp only [BoardClient.step] at stepped
      split at stepped
      · cases shown with
        | none =>
            cases send_eq stepped
            exact .inl ⟨rfl, rfl⟩
        | some fields =>
            cases send_eq stepped
            exact .inr (.inr (.inr ⟨taskId, fields, rfl, rfl⟩))
      · cases stepped
  | serve slot =>
      obtain ⟨flight, held, stepped⟩ := Option.bind_eq_some_iff.mp stepped
      split at stepped
      · cases stepped
      · obtain ⟨answer, given, stepped⟩ := Option.bind_eq_some_iff.mp stepped
        cases stepped
        exact .inl ⟨rfl, rfl⟩
  | serveWrite slot change =>
      obtain ⟨flight, held, stepped⟩ := Option.bind_eq_some_iff.mp stepped
      split at stepped
      · cases stepped
      · obtain ⟨answer, accepted, stepped⟩ := Option.bind_eq_some_iff.mp stepped
        obtain ⟨written, committed, stepped⟩ := Option.bind_eq_some_iff.mp stepped
        cases stepped
        exact .inl (commit_frame committed).2
  | refuse slot =>
      obtain ⟨flight, held, stepped⟩ := Option.bind_eq_some_iff.mp stepped
      split at stepped <;> cases stepped
      exact .inl ⟨rfl, rfl⟩
  | complete slot =>
      obtain ⟨flight, held, stepped⟩ := Option.bind_eq_some_iff.mp stepped
      obtain ⟨answer, answered, stepped⟩ := Option.bind_eq_some_iff.mp stepped
      cases stepped
      exact .inr (.inr (.inl ⟨slot, flight, answer, rfl, held, answered, rfl⟩))

/-- What a step does on the server's side: nothing, or one write. -/
theorem server_step (stepped : s.step move = some next) :
    (next.rows = s.rows ∧ next.issued = s.issued ∧ next.events ⊆ s.events) ∨
      ∃ change written, s.commit change = some written ∧ next.rows = written.rows ∧
        next.issued = written.issued ∧ next.events = written.events := by
  cases move with
  | commit change => exact .inr ⟨change, next, stepped, rfl, rfl, rfl⟩
  | receive =>
      left
      simp only [BoardClient.step] at stepped
      split at stepped
      · cases stepped
      · rename_i event rest queued
        cases stepped
        obtain ⟨_, rows, issued, events⟩ := handle_frame (s := { s with events := rest }) event
        refine ⟨rows, issued, ?_⟩
        rw [events, queued]
        exact List.subset_cons_self ..
  | mirror =>
      cases stepped
      exact .inl ⟨rfl, rfl, List.Subset.refl _⟩
  | fire taskId slot =>
      simp only [BoardClient.step] at stepped
      split at stepped
      · cases send_eq stepped
        exact .inl ⟨rfl, rfl, List.Subset.refl _⟩
      · cases stepped
  | readPanelTask taskId slot =>
      simp only [BoardClient.step] at stepped
      split at stepped
      · cases stepped
      · cases send_eq stepped
        exact .inl ⟨rfl, rfl, List.Subset.refl _⟩
  | readDetail taskId slot =>
      simp only [BoardClient.step] at stepped
      split at stepped
      · cases send_eq stepped
        exact .inl ⟨rfl, rfl, List.Subset.refl _⟩
      · cases stepped
  | drain filters slot =>
      cases send_eq stepped
      exact .inl ⟨rfl, rfl, List.Subset.refl _⟩
  | abort slot =>
      obtain ⟨flight, held, stepped⟩ := Option.bind_eq_some_iff.mp stepped
      split at stepped <;> cases stepped
      exact .inl ⟨rfl, rfl, List.Subset.refl _⟩
  | create slot =>
      cases send_eq stepped
      exact .inl ⟨rfl, rfl, List.Subset.refl _⟩
  | write taskId shown rollback slot =>
      simp only [BoardClient.step] at stepped
      split at stepped
      · cases shown <;> cases send_eq stepped <;> exact .inl ⟨rfl, rfl, List.Subset.refl _⟩
      · cases stepped
  | remove taskId slot =>
      cases send_eq stepped
      exact .inl ⟨rfl, rfl, List.Subset.refl _⟩
  | serve slot =>
      obtain ⟨flight, held, stepped⟩ := Option.bind_eq_some_iff.mp stepped
      split at stepped
      · cases stepped
      · obtain ⟨answer, given, stepped⟩ := Option.bind_eq_some_iff.mp stepped
        cases stepped
        exact .inl ⟨rfl, rfl, List.Subset.refl _⟩
  | serveWrite slot change =>
      obtain ⟨flight, held, stepped⟩ := Option.bind_eq_some_iff.mp stepped
      split at stepped
      · cases stepped
      · obtain ⟨answer, accepted, stepped⟩ := Option.bind_eq_some_iff.mp stepped
        obtain ⟨written, committed, stepped⟩ := Option.bind_eq_some_iff.mp stepped
        cases stepped
        exact .inr ⟨change, written, committed, rfl, rfl, rfl⟩
  | refuse slot =>
      obtain ⟨flight, held, stepped⟩ := Option.bind_eq_some_iff.mp stepped
      split at stepped <;> cases stepped
      exact .inl ⟨rfl, rfl, List.Subset.refl _⟩
  | complete slot =>
      obtain ⟨flight, held, stepped⟩ := Option.bind_eq_some_iff.mp stepped
      obtain ⟨answer, answered, stepped⟩ := Option.bind_eq_some_iff.mp stepped
      cases stepped
      obtain ⟨rows, issued, events, _⟩ := take_frame (s := s) slot flight.request
        flight.aborted answer
      exact .inl ⟨rows, issued, events ▸ List.Subset.refl _⟩

end Steps

end BoardClient
end Kurul.Client
