import Kurul.Cascade
import Kurul.Board.ColumnService
import Kurul.Plan.PlanLimits
import Kurul.Task.ChecklistService
import Kurul.Store.Serving

/-! The workspaces as the tenants of the database: which rows are whose, and what the
lookups that name a workspace tell of the rows they find. -/
namespace Kurul

open Store Prog

/-- Users and their credentials are shared by all workspaces. -/
def Row.home : Row → Home Id Key
  | .user _ | .session _ | .account _ | .verification _ => .shared
  | .workspace row => .tenant row.id
  | .workspaceMember row => .tenant row.workspaceId
  | .workspaceInvitation row => .tenant row.workspaceId
  | .personalAccessToken row => .tenant row.workspaceId
  | .activity row => .tenant row.workspaceId
  | .notification row => .tenant row.workspaceId
  | .usagePing row => .tenant row.workspaceId
  | .board row => .tenant row.workspaceId
  | .column row => .parent (.board row.boardId)
  | .task row => .parent (.board row.boardId)
  | .label row => .parent (.board row.boardId)
  | .taskAssignee row => .parent (.task row.taskId)
  | .taskLabel row => .parent (.task row.taskId)
  | .comment row => .parent (.task row.taskId)
  | .attachment row => .parent (.task row.taskId)
  | .checklist row => .parent (.task row.taskId)
  | .checklistItem row => .parent (.checklist row.checklistId)

/-- The references that a deletion sets to null. -/
theorem refs_setNull (row : Row) : ∀ ref ∈ refs row, ref.onDelete = .setNull →
    (∃ activity taskId, row = .activity activity ∧ activity.taskId = some taskId ∧ ref.target = .task taskId) ∨
      ∃ notification activityId, row = .notification notification ∧ notification.activityId = some activityId ∧
        ref.target = .activity activityId := by
  cases row with
  | activity row | notification row =>
      simp only [refs, Row.refs, Reference.cascades, Reference.restricts, Reference.setsNull, List.mem_cons,
        List.mem_append, List.mem_map, Option.mem_toList, List.not_mem_nil, or_false]
      grind
  | _ => simp +contextual [refs, Row.refs, Reference.cascades, Reference.restricts, or_imp]

theorem refs_unset_subset (k : Key) (row : Row) : refs (unset k row) ⊆ refs row := by
  cases row with
  | activity row =>
      by_cases same : row.taskId.map Key.task = some k <;>
        simp [unset, Row.unset, refs, Row.refs, same]
  | notification row =>
      by_cases same : row.activityId.map Key.activity = some k <;>
        simp only [unset, Row.unset, refs, Row.refs, same, if_true, if_false, Option.toList_none, List.map_nil,
          List.append_nil]
      · exact List.subset_append_left _ _
      · exact List.Subset.refl _
  | _ => exact List.Subset.refl _

instance : Tenanted Row Key Id where
  home := Row.home
  depth row := (key row).depth
  home_ref row k here := by
    cases row <;> simp only [Row.home, reduceCtorEq, Home.parent.injEq] at here <;> subst here <;>
      simp [refs, Row.refs, Reference.cascades, Reference.restricts]
  depth_key a b same := by rw [same]
  home_depth row parent here := by
    cases row <;> simp only [Row.home, reduceCtorEq, Home.parent.injEq] at here <;> rw [← here] <;>
      simp [key, Row.key, Key.depth]
  home_parent row parent here := by
    cases row <;> simp only [Row.home, reduceCtorEq, Home.parent.injEq] at here <;>
      cases parent <;> simp [Row.home, key, Row.key] at here ⊢
  home_key a b same owned := by
    cases a <;> cases b <;> simp_all [Row.home, key, Row.key]
  home_unset k row := by cases row <;> rfl
  refs_unset k row ref listed := by
    refine ⟨refs_unset_subset k row listed, fun ⟨sets, target⟩ => ?_⟩
    rcases refs_setNull _ ref listed sets with ⟨activity, taskId, same, left, goal⟩ |
      ⟨notification, activityId, same, left, goal⟩
    · cases row <;> simp only [unset, Row.unset, reduceCtorEq, Row.activity.injEq] at same
      subst same
      grind
    · cases row <;> simp only [unset, Row.unset, reduceCtorEq, Row.notification.injEq] at same
      subst same
      grind

/-- A board's event reaches those who watch it, a member's that member of the workspace. -/
def Event.audience : Event → Home Id Key
  | .emitToBoard boardId _ => .parent (.board boardId)
  | .emitToUser workspaceId _ _ | .evicted workspaceId _ => .tenant workspaceId
  | .mailSent _ | .logged _ => .shared

instance : Addressed Event Id Key := ⟨Event.audience⟩

section Lookups

variable {w b t u : Id} {view : List Row} {row : Row} {keys : List Key}

theorem of_board (inside : boardInWorkspace w view b = true) (here : row.home = .parent (.board b)) : Of w view row := by
  obtain ⟨board, stored, there⟩ := List.any_eq_true.mp inside
  simp only [Bool.and_eq_true, decide_eq_true_eq] at there
  obtain ⟨rfl, rfl⟩ := there
  exact Of.beneath (toRow board) here (mem_table.mp stored) (.own rfl)

theorem of_task (inside : taskInWorkspace w view t = true) (here : row.home = .parent (.task t)) : Of w view row := by
  obtain ⟨task, stored, there⟩ := List.any_eq_true.mp inside
  simp only [Bool.and_eq_true, decide_eq_true_eq] at there
  obtain ⟨rfl, within⟩ := there
  exact Of.beneath (toRow task) here (mem_table.mp stored) (of_board within rfl)

theorem known_user : Known Row w keys (.user u) :=
  .inr fun row same => by cases row <;> simp_all [key, Row.key, home, Row.home]

theorem known_workspace : Known Row w keys (.workspace w) :=
  .inr fun row same => by cases row <;> simp_all [key, Row.key, home, Row.home]

/-- A row owned by whatever the key is the key of. -/
theorem owned_board : ∀ parent : Row, key parent = .board b → home parent ≠ .shared := by
  intro parent same
  cases parent <;> simp_all [key, Row.key, home, Row.home]

theorem owned_column : ∀ parent : Row, key parent = .column b → home parent ≠ .shared := by
  intro parent same
  cases parent <;> simp_all [key, Row.key, home, Row.home]

theorem serves_assertBoard : (assertBoard w b).Serves w keys fun board more =>
    board.id = b ∧ more = [.board b, .workspace w] := by
  refine (Serves.findFirst fun view _ _ board stored chosen => ?_).weaken ?_
  · simp only [Bool.and_eq_true, decide_eq_true_eq] at chosen
    exact .own (by rw [← chosen.2]; rfl)
  · rintro board _ ⟨⟨_, chosen⟩, rfl⟩
    simp only [Bool.and_eq_true, decide_eq_true_eq] at chosen
    obtain ⟨rfl, rfl⟩ := chosen
    exact ⟨rfl, rfl⟩

theorem serves_fresh : Service.fresh.Serves w keys fun _ more => more = [] := Serves.input fun _ => Serves.pure rfl

theorem serves_record {input : ActivityService.RecordActivityInput} (here : input.workspaceId = w)
    (met : ∀ t, input.taskId = some t → Key.task t ∈ keys) :
    (ActivityService.record input).Serves w keys fun activity more => more = [.activity activity.id] := by
  subst here
  refine serves_fresh.andThen fun given => ?_
  refine (Serves.query (Statement.Serves.create ⟨by simp [home, toRow, Row.home], ?_, ?_⟩)).weaken ?_
  · intro w' owner
    simpa [home, toRow, Row.home, eq_comm] using owner
  · simp only [toRow, refs, Row.refs, Reference.cascades, Reference.restricts, Reference.setsNull, List.mem_cons,
      List.mem_append, List.mem_map, Option.mem_toList, List.not_mem_nil, or_false]
    rintro ref ((rfl | ⟨t, about, rfl⟩) | rfl)
    · exact known_workspace
    · exact .inl (met t about)
    · exact known_user
  · rintro _ _ ⟨rfl, rfl⟩
    rfl

/-- Rows in order below a parent that has been met. -/
structure Positioning.Below [Entity Row α] (P : Positioning α) : Prop where
  refers : ∀ a, ∃ ref ∈ refs (toRow a : Row), ref.target = P.lock (P.group a)
  owned : ∀ g, ∀ parent : Row, key parent = P.lock g → home parent ≠ .shared
  sameHome : ∀ p a, (home (toRow (P.reposition p a) : Row) : Home Id Key) = home (toRow a : Row)
  sameRefs : ∀ p a, refs (toRow (P.reposition p a) : Row) = refs (toRow a : Row)

theorem below_tasks : taskPositions.Below where
  refers _ := ⟨_, List.mem_cons_of_mem _ List.mem_cons_self, rfl⟩
  owned _ := owned_column
  sameHome _ _ := rfl
  sameRefs _ _ := rfl

theorem below_columns : columnPositions.Below where
  refers _ := ⟨_, List.mem_cons_self, rfl⟩
  owned _ := owned_board
  sameHome _ _ := rfl
  sameRefs _ _ := rfl

theorem serves_batchUpdate [Entity Row α] {P : Positioning α} (below : P.Below) {g : Id} (met : P.lock g ∈ keys)
    (updates : List Sibling) : (P.batchUpdate g updates).Serves w keys fun _ more => more = [] := by
  unfold Positioning.batchUpdate
  split
  · exact Serves.pure rfl
  · refine (Serves.query (Statement.Serves.updateMany ?_ ?_ ?_ ?_)).andThen fun _ => Serves.pure rfl
    · intro view coherent near a stored chosen
      simp only [Bool.and_eq_true, decide_eq_true_eq] at chosen
      obtain ⟨ref, listed, target⟩ := below.refers a
      rw [chosen.2] at target
      exact Near.child (target ▸ near _ met) coherent stored listed (target ▸ below.owned g)
    · intro a
      rw [P.key_toRow, P.key_toRow, P.id_reposition]
    · exact fun a => below.sameHome _ a
    · intro a ref listed
      rwa [below.sameRefs] at listed

theorem serves_createPosition [Entity Row α] {P : Positioning α} (below : P.Below) {g : Id} (met : P.lock g ∈ keys)
    (siblings : List Sibling) (slot : InsertionSlot) :
    (P.createPosition g siblings slot).Serves w keys fun _ more => more = [] := by
  unfold Positioning.createPosition
  dsimp only
  split
  · exact (serves_batchUpdate below met _).andThen fun _ => Serves.pure rfl
  · exact Serves.pure rfl

theorem serves_including {exec : Statement Row Key Error β} {include_ : List Row → β → γ} {gives : β → List Key → Prop}
    (serves : exec.Serves w keys gives) : (including exec include_).Serves w keys
      fun c more => ∃ rows b, c = include_ rows b ∧ gives b more := by
  intro view coherent near o ran
  obtain ⟨o', ran', answer, written, _⟩ := including_ok ran
  obtain ⟨step, more, given, met⟩ := serves view coherent near o' ran'
  rw [answer, written]
  exact ⟨step, more, ⟨view, o'.result, rfl, given⟩, met⟩

/-- A task found in the workspace. -/
theorem mine_task : Mine w keys (scopedTask w t) := by
  intro view _ _ task _ chosen
  simp only [scopedTask, Bool.and_eq_true] at chosen
  exact of_board chosen.2 rfl

theorem mine_column : Mine w keys (scopedColumn w t) := by
  intro view _ _ column _ chosen
  simp only [scopedColumn, Bool.and_eq_true] at chosen
  exact of_board chosen.2 rfl

theorem serves_findTaskBasic : (TaskReadService.findTaskBasic w t).Serves w keys fun task more =>
    task.id = t ∧ more = [.task t, .board task.boardId, .column task.columnId, .user task.createdById] := by
  refine (Serves.findFirst mine_task).weaken ?_
  rintro task _ ⟨⟨_, chosen⟩, rfl⟩
  simp only [scopedTask, Bool.and_eq_true, decide_eq_true_eq] at chosen
  obtain ⟨rfl, _⟩ := chosen
  exact ⟨rfl, rfl⟩

theorem serves_findColumn {error : Error} : (found (.findFirst (scopedColumn w t)) error : Service Column).Serves w keys
    fun column more => column.id = t ∧ more = [.column t, .board column.boardId] := by
  refine (Serves.findFirst mine_column).weaken ?_
  rintro column _ ⟨⟨_, chosen⟩, rfl⟩
  simp only [scopedColumn, Bool.and_eq_true, decide_eq_true_eq] at chosen
  obtain ⟨rfl, _⟩ := chosen
  exact ⟨rfl, rfl⟩

theorem serves_findTaskDetail {error : Error} : (found (findTaskDetail w t) error : Service TaskRow).Serves w keys
    fun row more => row.task.id = t ∧ more = [.task t, .board row.task.boardId, .column row.task.columnId] := by
  apply Serves.found
  intro view coherent near row hit
  obtain ⟨task, first, rfl⟩ := Option.map_eq_some_iff.mp hit
  have stored := mem_table.mp (List.mem_of_find?_eq_some first)
  have chosen := List.find?_some first
  have own := mine_task view coherent near task stored chosen
  simp only [scopedTask, Bool.and_eq_true, decide_eq_true_eq] at chosen
  obtain ⟨rfl, _⟩ := chosen
  refine ⟨_, ⟨rfl, rfl⟩, ?_⟩
  simp only [List.mem_cons, List.not_mem_nil, or_false]
  rintro k (rfl | rfl | rfl)
  · exact own.near coherent.unique stored
  · exact own.refs coherent stored List.mem_cons_self
  · exact own.refs coherent stored (List.mem_cons_of_mem _ List.mem_cons_self)

theorem serves_countAttachments : (countAttachments t).Serves w keys fun _ more => more = [] := Serves.ask

theorem serves_findTask : (TaskReadService.findTask w t).Serves w keys
    fun row more => row.task.id = t ∧ more = [.task t, .board row.task.boardId, .column row.task.columnId] := by
  apply serves_findTaskDetail.bind
  rintro row _ ⟨same, rfl⟩
  exact serves_countAttachments.andThen fun _ => Serves.remember (by simp) ⟨same, rfl⟩

section Events

variable {p : Service α} {gives : α → List Key → Prop}

theorem serves_emitToBoard {event : SocketEvent} (met : Key.board b ∈ keys) (serves : Prog.Serves w keys p gives) :
    Prog.Serves w keys (Prog.emit (Event.emitToBoard b event) p) gives := by
  refine Serves.emit (by simp [audience, Event.audience]) ?_ serves
  rintro k ⟨⟩
  exact .inl met

/-- A change that is told to those who watch its board. -/
theorem serves_announced {boardOf : α → Id} {event : α → SocketEvent} {answer : α → β}
    (serves : Prog.Serves w keys p fun value more => Key.board (boardOf value) ∈ more) :
    Prog.Serves w keys (p.bind fun value =>
      Prog.emit (Event.emitToBoard (boardOf value) (event value)) (Prog.pure (answer value)))
      fun _ more => more = [] :=
  serves.told (fun value => Key.board (boardOf value)) fun _ _ met => serves_emitToBoard met (Serves.pure rfl)

theorem serves_emitToUser {event : SocketEvent} (serves : Prog.Serves w keys p gives) :
    Prog.Serves w keys (Prog.emit (Event.emitToUser w u event) p) gives :=
  Serves.emit (by simp [audience, Event.audience, eq_comm]) (by simp [audience, Event.audience]) serves

theorem serves_evicted (serves : Prog.Serves w keys p gives) : Prog.Serves w keys (Prog.emit (Event.evicted w u) p) gives :=
  Serves.emit (by simp [audience, Event.audience, eq_comm]) (by simp [audience, Event.audience]) serves

theorem serves_mailSent {message : MailMessage} (serves : Prog.Serves w keys p gives) :
    Prog.Serves w keys (Prog.emit (Event.mailSent message) p) gives :=
  Serves.emit (by simp [audience, Event.audience]) (by simp [audience, Event.audience]) serves

end Events

theorem serves_emitUpdated : (TaskEventsService.emitUpdated w t u).Serves w keys fun _ more => more = [] := by
  apply serves_findTask.bind
  rintro row _ ⟨_, rfl⟩
  exact serves_emitToBoard (by simp [toTaskDetailDto, toTaskCore]) (Serves.pure rfl)

end Lookups

end Kurul
