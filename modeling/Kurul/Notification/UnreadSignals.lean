import Kurul.Board.BoardService
import Kurul.Notification.DueSoonWorker
import Kurul.Task.MentionedMembers
import Kurul.Task.TaskAssigneeService
import Kurul.Task.TaskService

/-! The calls that store notifications, mark them as read or delete the tasks they are about,
one after the other: who is told that an unread count has changed. A deletion tells nobody
about the notifications it takes along, and a scan tells everybody only at its end. -/
namespace Kurul

open Store Prog Sequence DueSoonWorker

inductive SignalCall where
  | addAssignee (mailEnabled : Bool) (workspaceId taskId actorId : Id) (dto : AddAssigneeDto)
  | createComment (mailEnabled : Bool) (workspaceId taskId userId : Id) (dto : CreateCommentDto)
  | scan (size pages : Nat) (mailEnabled : Bool)
  | markRead (workspaceId userId notificationId : Id)
  | markAllRead (workspaceId userId : Id)
  | removeTask (workspaceId taskId userId : Id)
  | removeBoard (workspaceId boardId actorId : Id)

/-- Whether the call has come to its end: a scan may have been given too few pages. -/
def SignalCall.service : SignalCall → Service Bool
  | .addAssignee mailEnabled workspaceId taskId actorId dto => do
      let _ ← TaskAssigneeService.addAssignee mailEnabled workspaceId taskId actorId dto
      return true
  | .createComment mailEnabled workspaceId taskId userId dto => do
      let _ ← CommentService.create mailEnabled workspaceId taskId userId dto
      return true
  | .scan size pages mailEnabled => do
      let scanned ← runScan size pages mailEnabled
      return scanned.isSome
  | .markRead workspaceId userId notificationId => do
      let _ ← NotificationService.markRead workspaceId userId notificationId
      return true
  | .markAllRead workspaceId userId => do
      let _ ← NotificationService.markAllRead workspaceId userId
      return true
  | .removeTask workspaceId taskId userId => do
      TaskService.remove workspaceId taskId userId
      return true
  | .removeBoard workspaceId boardId actorId => do
      BoardService.remove workspaceId boardId actorId
      return true

/-- Someone has yet to be told. -/
def Owing (owed : Owed) : Prop := ∃ w u, owed w u

theorem settled_of_not_owing {owed : Owed} (none_ : ¬ Owing owed) : owed.Settled :=
  fun w u owing => none_ ⟨w, u, owing⟩

/-- A task that goes with a board: it is on the board, or in one of its columns. -/
def onBoard (boardId : Id) (rows : List Row) (task : Task) : Bool :=
  task.boardId = boardId ||
    (table rows : List Column).any fun column => column.id = task.columnId && column.boardId = boardId

/-- Every notification about one of these tasks has been read. -/
def ReadAbout (gone : Id → Prop) (rows : List Row) : Prop :=
  ∀ n ∈ (table rows : List Notification), ∀ taskId, n.taskId = some taskId → gone taskId → n.readAt ≠ none

section Rules

variable {frail : Owed → Prop} {rows : List Row} {W : List (Write Row Key)} {owed : Owed} {α : Type}
  {failed : List Row → List (Write Row Key) → Owed → Prop}

theorem nobody_settled : Owed.Settled Nobody := fun _ _ => id

/-- A new row that is no notification. -/
theorem accounts_insert [Entity Row α] {a : α} {ok : α → List Row → List (Write Row Key) → Owed → Prop}
    (silent : ∀ w u, unreadWeight w u (toRow a) = 0) (refused : failed rows W owed)
    (rest : ∀ W', (∀ S, Unmoved S (applyAll rows W) (applyAll rows W')) → ok a rows W' owed) :
    (query (.create a) : Service α).Accounts signals frail ok failed rows W owed := by
  apply Accounts.query fun _ => refused
  intro o ran
  obtain ⟨same, written, new⟩ := Statement.create_ok ran
  rw [same, written]
  apply rest
  intro S
  rw [applyAll_append]
  exact unmoved_new new silent S

theorem accounts_notification {n : Notification} {ok : Notification → List Row → List (Write Row Key) → Owed → Prop}
    (refused : failed rows W owed)
    (rest : ∀ W', Unmoved (fun w u => w = n.workspaceId ∧ u = n.userId) (applyAll rows W) (applyAll rows W') →
      ok n rows W' owed) :
    (query (.create n) : Service Notification).Accounts signals frail ok failed rows W owed := by
  apply Accounts.query fun _ => refused
  intro o ran
  obtain ⟨same, written, new⟩ := Statement.create_ok ran
  rw [same, written]
  apply rest
  rw [applyAll_append]
  apply unmoved_notifications [n]
  · exact List.nodup_singleton _
  · intro m member
    obtain rfl := List.mem_singleton.mp member
    exact new
  · intro m member
    obtain rfl := List.mem_singleton.mp member
    exact ⟨rfl, rfl⟩

/-- After a commit, only those are owed a signal whose counts it may have moved. -/
theorem owes_of_unmoved {S : Id → Id → Prop} (unmoved : Unmoved S rows (applyAll rows W)) {w u : Id}
    (owing : signals.commit rows W owed w u) : owed w u ∨ S w u := by
  rcases owing with before | changed
  · exact Or.inl before
  · right
    by_contra other
    exact changed (unmoved w u other)

theorem settled_commit {S : Id → Id → Prop} (unmoved : Unmoved S rows (applyAll rows W)) (none_ : ∀ w u, ¬ S w u) :
    (signals.commit rows W Nobody).Settled := by
  intro w u owing
  rcases owes_of_unmoved unmoved owing with before | moved
  · exact before
  · exact none_ w u moved

/-- One user is told of what has moved for this user only. -/
theorem accounts_tell {workspaceId userId : Id} {ok : Unit → List Row → List (Write Row Key) → Owed → Prop}
    (only : ∀ w u, owed w u → w = workspaceId ∧ u = userId)
    (rest : ∀ owed : Owed, owed.Settled → ok () rows W owed) :
    (NotificationService.emitUnreadChanged workspaceId [userId]).Accounts signals frail ok failed rows W owed := by
  apply accounts_emitUnreadChanged.weaken _ fun _ _ _ refused => refused
  rintro _ _ _ owed' ⟨rfl, rfl, told⟩
  apply rest
  intro w u owing
  obtain ⟨before, untold⟩ := (told w u).mp owing
  obtain ⟨workspace, user⟩ := only w u before
  exact untold ⟨workspace, List.mem_singleton.mpr user⟩

end Rules

section Calls

variable {frail : Owed → Prop} {rows : List Row}

theorem accounts_markRead (unique : UniqueKeys rows) {workspaceId userId notificationId : Id} :
    (NotificationService.markRead workspaceId userId notificationId).Accounts signals frail
      (fun _ _ _ owed => owed.Settled) (fun _ _ owed => owed.Settled) rows [] Nobody := by
  unfold NotificationService.markRead
  apply Accounts.bind
  apply Accounts.transaction
  apply Accounts.bind
  apply Accounts.found nobody_settled
  intro existing _
  split
  · refine ⟨fun _ => nobody_settled, ?_⟩
    exact settled_commit (Unmoved.refl Nobody rows) fun _ _ => id
  · apply Accounts.bind
    intro given
    apply Accounts.bind
    apply Accounts.query fun _ => nobody_settled
    intro o ran
    obtain ⟨row, stored, chosen, _, written⟩ := Statement.update_ok ran
    refine ⟨fun _ => nobody_settled, ?_⟩
    rw [List.nil_append, written]
    have mine : row.workspaceId = workspaceId ∧ row.userId = userId := by
      simp only [NotificationService.scopedNotification, Bool.and_eq_true, decide_eq_true_eq] at chosen
      exact ⟨chosen.1.2, chosen.2⟩
    have moved : Unmoved (fun w u => w = workspaceId ∧ u = userId) rows
        (applyAll rows ([row].map fun n => .put (toRow { n with readAt := some given.now }))) := by
      apply unmoved_rewritten unique
      · intro n member
        obtain rfl := List.mem_singleton.mp member
        exact stored
      · exact fun n => ⟨rfl, rfl, rfl⟩
      · intro n member
        obtain rfl := List.mem_singleton.mp member
        exact mine
    apply Accounts.bind
    apply accounts_tell
    · intro w u owing
      exact (owes_of_unmoved moved owing).resolve_left id
    · exact fun _ settled => settled

theorem accounts_markAllRead (unique : UniqueKeys rows) {workspaceId userId : Id} :
    (NotificationService.markAllRead workspaceId userId).Accounts signals frail
      (fun _ _ _ owed => owed.Settled) (fun _ _ owed => owed.Settled) rows [] Nobody := by
  unfold NotificationService.markAllRead
  apply Accounts.bind
  apply Accounts.transaction
  apply Accounts.bind
  intro given
  apply Accounts.query fun _ => nobody_settled
  intro o ran
  obtain ⟨counted, written⟩ := Statement.updateMany_ok ran
  refine ⟨fun _ => nobody_settled, ?_⟩
  rw [List.nil_append, written]
  have moved : Unmoved (fun w u => w = workspaceId ∧ u = userId) rows (applyAll rows
      (((table rows : List Notification).filter (NotificationService.unread workspaceId userId rows)).map fun n =>
        .put (toRow { n with readAt := some given.now }))) := by
    apply unmoved_rewritten unique
    · exact fun n member => (List.mem_filter.mp member).1
    · exact fun n => ⟨rfl, rfl, rfl⟩
    · intro n member
      have chosen := (List.mem_filter.mp member).2
      simp only [NotificationService.unread, Bool.and_eq_true, decide_eq_true_eq] at chosen
      exact chosen.1
  split
  · apply Accounts.bind
    apply accounts_tell
    · intro w u owing
      exact (owes_of_unmoved moved owing).resolve_left id
    · exact fun _ settled => settled
  · rename_i none_
    have nothing : (table rows : List Notification).filter (NotificationService.unread workspaceId userId rows) = [] := by
      rw [counted] at none_
      exact List.eq_nil_of_length_eq_zero (Nat.eq_zero_of_not_pos none_)
    rw [show applyAll rows [] = rows from rfl, nothing]
    exact settled_commit (Unmoved.refl Nobody rows) fun _ _ => id

/-- The rows of an assignment: nobody's count moves but that of the user to be told. -/
theorem accounts_assign {workspaceId actorId : Id} {task : Task} {dto : AddAssigneeDto} {owed : Owed}
    {failed : List Row → List (Write Row Key) → Owed → Prop} (refused : ∀ W, failed rows W owed) :
    (TaskAssigneeService.assign workspaceId actorId task dto).Accounts signals frail
      (fun told rows' W owed' => rows' = rows ∧ owed' = owed ∧
        Unmoved (fun w u => w = workspaceId ∧ told = some u) rows (applyAll rows W)) failed rows [] owed := by
  unfold TaskAssigneeService.assign
  apply Accounts.bind
  intro given
  apply Accounts.bind
  apply accounts_insert (fun _ _ => rfl) (refused _)
  intro W assigned
  apply Accounts.bind
  apply accounts_record (refused _)
  intro activity still
  have quiet : ∀ S, Unmoved S rows (applyAll rows (W ++ [.put (.activity activity)])) :=
    fun S => (assigned S).trans (still S)
  apply Accounts.bind
  unfold NotificationService.create
  split
  · exact ⟨rfl, rfl, quiet _⟩
  · apply Accounts.bind
    intro given'
    apply Accounts.bind
    apply accounts_notification (refused _)
    intro W' notified
    refine ⟨rfl, rfl, (quiet _).trans (notified.mono ?_)⟩
    rintro w u ⟨workspace, user⟩
    exact ⟨workspace, congrArg some user.symm⟩

theorem accounts_addAssignee {mailEnabled : Bool} {workspaceId taskId actorId : Id} {dto : AddAssigneeDto} :
    (TaskAssigneeService.addAssignee mailEnabled workspaceId taskId actorId dto).Accounts signals frail
      (fun _ _ _ owed => owed.Settled) (fun _ _ owed => owed.Settled) rows [] Nobody := by
  unfold TaskAssigneeService.addAssignee TaskReadService.findTaskBasic
  apply Accounts.bind
  apply Accounts.found nobody_settled
  intro task _
  apply Accounts.bind
  apply Accounts.found nobody_settled
  intro member _
  apply Accounts.bind
  unfold conflictOnUniqueViolation
  apply Accounts.catching fun _ _ owed => owed.Settled
  · apply Accounts.transaction
    apply (accounts_assign fun _ => nobody_settled).weaken _ fun _ _ _ settled => settled
    rintro told rows' W owed' ⟨same, none_, moved⟩
    rw [same, none_]
    refine ⟨fun _ => nobody_settled, ?_⟩
    have updated : ∀ {rows : List Row} {owed : Owed}, owed.Settled →
        (TaskEventsService.emitUpdated workspaceId taskId actorId).Accounts signals frail
          (fun _ _ _ owed => owed.Settled) (fun _ _ owed => owed.Settled) rows [] owed := by
      intro rows owed settled
      unfold TaskEventsService.emitUpdated TaskReadService.findTask
      apply Accounts.bind
      apply Accounts.bind
      apply Accounts.found settled
      intro task _
      apply Accounts.bind
      apply Accounts.read fun _ => settled
      exact fun w u owing => settled w u owing.1
    apply Accounts.bind
    cases told with
    | none => exact updated (settled_commit moved fun _ _ none_ => by cases none_.2)
    | some userId =>
        apply Accounts.bind
        apply accounts_tell
        · intro w u owing
          obtain ⟨workspace, user⟩ := (owes_of_unmoved moved owing).resolve_left id
          exact ⟨workspace, (Option.some.inj user).symm⟩
        · intro owed settled
          apply accounts_sendForCreated.weaken _ fun _ _ _ refused => refused
          rintro _ _ _ _ ⟨rfl, rfl, same⟩
          exact updated fun w u owing => settled w u ((same w u).mp owing).1
  · intro error _ _ _ settled
    split
    · exact settled
    · exact settled

/-- The deletion of rows no unread notification goes with. -/
theorem accounts_remove [Entity Row α] {where_ : Where Row α} {activity : Activity} {o : Outcome Row Key Nat}
    (unique : UniqueKeys rows) (new : Unmoved Nobody rows (applyAll rows [.put (.activity activity)]))
    (ran : (Statement.deleteMany where_ (applyAll rows [.put (.activity activity)]) : Except Error _) = .ok o)
    (read : ∀ n ∈ (table rows : List Notification), Key.notification n.id ∈
      cascade (applyAll rows [.put (.activity activity)])
        (((table (applyAll rows [.put (.activity activity)]) : List α).filter
        (where_ (applyAll rows [.put (.activity activity)]))).map fun a => key (toRow a : Row)) → n.readAt ≠ none) :
    Unmoved Nobody rows (applyAll rows ([.put (.activity activity)] ++ o.writes)) := by
  have same : (table (applyAll rows [.put (.activity activity)]) : List Notification) = table rows :=
    table_applyAll_elsewhere (by simp [Write.Elsewhere, Write.target, key, Row.key, toRow]) rows
  apply new.trans
  rw [applyAll_append, (Statement.deleteMany_ok ran).2]
  apply unmoved_deletion (unique.applyAll _)
  rw [same]
  exact read

end Calls

section Cascades

/-- What a deletion of boards, columns and tasks takes along. -/
structure Gone where
  board : Id → Prop
  column : Id → Prop
  task : Id → Prop

def Gone.reaches (gone : Gone) (rows : List Row) : Key → Prop
  | .board id => gone.board id
  | .column id => gone.column id
  | .task id => gone.task id
  | .notification id => ∃ n ∈ (table rows : List Notification), n.id = id ∧ ∃ taskId, n.taskId = some taskId ∧
      gone.task taskId
  | .label _ | .taskLabel _ | .taskAssignee _ | .comment _ | .attachment _ | .checklist _ | .checklistItem _ => True
  | _ => False

/-- The columns of its boards go with them, and the tasks of both. -/
structure Gone.Closed (gone : Gone) (rows : List Row) : Prop where
  columns : ∀ column ∈ (table rows : List Column), gone.board column.boardId → gone.column column.id
  tasks : ∀ task ∈ (table rows : List Task), gone.board task.boardId ∨ gone.column task.columnId → gone.task task.id

theorem Gone.Closed.cascade {gone : Gone} {rows : List Row} (closed : gone.Closed rows) {keys : List Key}
    (start : ∀ k ∈ keys, gone.reaches rows k) : ∀ k ∈ cascade rows keys, gone.reaches rows k := by
  apply cascade_subset _ start
  intro row stored ref listed cascades reached
  cases row with
  | column column =>
      simp only [refs, Row.refs, List.mem_singleton] at listed
      subst listed
      exact closed.columns column (mem_table.mpr stored) reached
  | task task =>
      apply closed.tasks task (mem_table.mpr stored)
      simp only [refs, Row.refs, List.mem_cons, List.not_mem_nil, or_false] at listed
      rcases listed with rfl | rfl | rfl
      · exact Or.inl reached
      · exact Or.inr reached
      · cases cascades
  | notification n =>
      simp only [refs, Row.refs, List.mem_append, List.mem_cons, List.not_mem_nil, or_false, List.mem_map,
        Option.mem_toList] at listed
      rcases listed with ((rfl | rfl) | ⟨taskId, about, rfl⟩) | ⟨activityId, _, rfl⟩
      · cases reached
      · cases reached
      · exact ⟨n, mem_table.mpr stored, rfl, taskId, about, reached⟩
      · cases cascades
  | activity activity =>
      simp only [refs, Row.refs, List.cons_append, List.mem_cons, List.mem_append, List.mem_map, List.not_mem_nil,
        or_false] at listed
      rcases listed with rfl | ⟨taskId, _, rfl⟩ | rfl
      · cases reached
      · cases cascades
      · cases cascades
  | label _ | taskLabel _ | taskAssignee _ | comment _ | attachment _ | checklist _ | checklistItem _ => exact trivial
  | user _ | verification _ | workspace _ => cases listed
  | session _ | account _ | board _ =>
      simp only [refs, Row.refs, List.mem_singleton] at listed
      subst listed
      cases reached
  | workspaceMember _ | workspaceInvitation _ | personalAccessToken _ | usagePing _ =>
      simp only [refs, Row.refs, List.mem_cons, List.not_mem_nil, or_false] at listed
      rcases listed with rfl | rfl
      · cases reached
      · cases reached

/-- What a deletion reaches has been read where everything about its tasks has. -/
theorem read_of_reaches (gone : Gone) {rows : List Row} (unique : UniqueKeys rows) (read : ReadAbout gone.task rows)
    {n : Notification} (stored : n ∈ (table rows : List Notification))
    (reached : gone.reaches rows (.notification n.id)) : n.readAt ≠ none := by
  obtain ⟨n', stored', same, taskId, about, gone_⟩ := reached
  obtain rfl : n' = n := toRow_injective (unique.eq_of_key (mem_table.mp stored') (mem_table.mp stored)
    (congrArg Key.notification same))
  exact read n' stored' taskId about gone_

/-- A new audit row leaves the other tables. -/
theorem table_audited [Entity Row α] {rows : List Row} {activity : Activity}
    (apart : ∀ a : α, ∀ id, key (toRow a : Row) ≠ Key.activity id) :
    (table (applyAll rows [.put (.activity activity)]) : List α) = table rows := by
  apply table_applyAll_elsewhere
  intro write member
  obtain rfl := List.mem_singleton.mp member
  exact fun a => apart a activity.id

variable {frail : Owed → Prop} {rows : List Row}

theorem accounts_removeTask (unique : UniqueKeys rows) {workspaceId taskId userId : Id}
    (read : (table rows : List Task).any (scopedTask workspaceId taskId rows) → ReadAbout (· = taskId) rows) :
    (TaskService.remove workspaceId taskId userId).Accounts signals frail
      (fun _ _ _ owed => owed.Settled) (fun _ _ owed => owed.Settled) rows [] Nobody := by
  unfold TaskService.remove
  apply Accounts.bind
  apply Accounts.transaction
  apply Accounts.bind
  apply Accounts.found nobody_settled
  intro row hit
  have known : (table rows : List Task).any (scopedTask workspaceId taskId rows) :=
    List.any_eq_true.mpr ⟨row, List.mem_of_find?_eq_some hit, List.find?_some hit⟩
  apply Accounts.bind
  apply accounts_record nobody_settled
  intro activity still
  apply Accounts.bind
  apply Accounts.query fun _ => nobody_settled
  intro o ran
  apply Accounts.bind
  apply Accounts.require nobody_settled
  intro _
  have gone : Unmoved Nobody rows (applyAll rows ([.put (.activity activity)] ++ o.writes)) := by
    apply accounts_remove unique (still Nobody) ran
    intro n stored doomed
    have notifications : (table (applyAll rows [.put (.activity activity)]) : List Notification) = table rows :=
      table_audited (by intro a id same; cases same)
    let gone : Gone := { board := fun _ => False, column := fun _ => False, task := (· = taskId) }
    have closed : gone.Closed (applyAll rows [.put (.activity activity)]) := by
      constructor
      · exact fun _ _ none_ => none_
      · exact fun _ _ none_ => none_.elim False.elim False.elim
    have reached := closed.cascade (by
      intro k member
      obtain ⟨task, chosen, rfl⟩ := List.mem_map.mp member
      have scoped_ := (List.mem_filter.mp chosen).2
      simp only [scopedTask, Bool.and_eq_true, decide_eq_true_eq] at scoped_
      exact scoped_.1) _ doomed
    apply read_of_reaches gone (unique.applyAll [.put (.activity activity)]) _ (notifications ▸ stored) reached
    intro n' member about
    exact read known n' (notifications ▸ member) about
  have settled := settled_commit gone fun _ _ => id
  exact ⟨fun _ => nobody_settled, fun w u owing => settled w u owing.1⟩

theorem accounts_removeBoard (unique : UniqueKeys rows) {workspaceId boardId actorId : Id}
    (read : (table rows : List Board).any (BoardService.scopedBoard workspaceId boardId rows) →
      ReadAbout (fun id => ∃ task ∈ (table rows : List Task), task.id = id ∧ onBoard boardId rows task) rows) :
    (BoardService.remove workspaceId boardId actorId).Accounts signals frail
      (fun _ _ _ owed => owed.Settled) (fun _ _ owed => owed.Settled) rows [] Nobody := by
  unfold BoardService.remove
  apply Accounts.transaction
  apply Accounts.bind
  apply Accounts.found nobody_settled
  intro row hit
  have known : (table rows : List Board).any (BoardService.scopedBoard workspaceId boardId rows) :=
    List.any_eq_true.mpr ⟨row, List.mem_of_find?_eq_some hit, List.find?_some hit⟩
  apply Accounts.bind
  apply Accounts.read fun _ => nobody_settled
  apply Accounts.bind
  apply accounts_record nobody_settled
  intro activity still
  apply Accounts.bind
  apply Accounts.query fun _ => nobody_settled
  intro o ran
  apply Accounts.require nobody_settled
  intro _
  have gone : Unmoved Nobody rows (applyAll rows ([.put (.activity activity)] ++ o.writes)) := by
    apply accounts_remove unique (still Nobody) ran
    intro n stored doomed
    have notifications : (table (applyAll rows [.put (.activity activity)]) : List Notification) = table rows :=
      table_audited (by intro a id same; cases same)
    have columns : (table (applyAll rows [.put (.activity activity)]) : List Column) = table rows :=
      table_audited (by intro a id same; cases same)
    have tasks : (table (applyAll rows [.put (.activity activity)]) : List Task) = table rows :=
      table_audited (by intro a id same; cases same)
    let gone : Gone := {
      board := (· = boardId)
      column := fun id => ∃ column ∈ (table rows : List Column), column.id = id ∧ column.boardId = boardId
      task := fun id => ∃ task ∈ (table rows : List Task), task.id = id ∧ onBoard boardId rows task }
    have closed : gone.Closed (applyAll rows [.put (.activity activity)]) := by
      constructor
      · intro column member here
        exact ⟨column, columns ▸ member, rfl, here⟩
      · intro task member here
        refine ⟨task, tasks ▸ member, rfl, ?_⟩
        rcases here with board | ⟨column, listed, same, board⟩
        · simp [onBoard, show task.boardId = boardId from board]
        · simp only [onBoard, Bool.or_eq_true, decide_eq_true_eq, List.any_eq_true, Bool.and_eq_true]
          exact Or.inr ⟨column, listed, same, board⟩
    have reached := closed.cascade (by
      intro k member
      obtain ⟨board, chosen, rfl⟩ := List.mem_map.mp member
      have scoped_ := (List.mem_filter.mp chosen).2
      simp only [BoardService.scopedBoard, Bool.and_eq_true, decide_eq_true_eq] at scoped_
      exact scoped_.1) _ doomed
    apply read_of_reaches gone (unique.applyAll [.put (.activity activity)]) _ (notifications ▸ stored) reached
    intro n' member about
    exact read known n' (notifications ▸ member) about
  exact ⟨fun _ => nobody_settled, settled_commit gone fun _ _ => id⟩

end Cascades
section Scans

variable {rows : List Row} {owed : Owed}

/-- Everyone who is owed a signal is noted for a mail. -/
def Noted (mails : List NotificationMailInput) (owed : Owed) : Prop :=
  ∀ w u, owed w u → ∃ mail ∈ mails, mail.workspaceId = w ∧ mail.userId = u

theorem Noted.more {mails more : List NotificationMailInput} (noted : Noted mails owed) : Noted (mails ++ more) owed := by
  intro w u owing
  obtain ⟨mail, listed, same⟩ := noted w u owing
  exact ⟨mail, List.mem_append_left _ listed, same⟩

/-- The insert of a page; it fails where nobody is owed anything. -/
theorem accounts_insertReminders {reminders : List ReminderRow} {mails : List NotificationMailInput}
    (noted : Noted mails owed) :
    (insertReminders reminders).Accounts signals Owing
      (fun count _ W owed' => W = [] ∧ Noted (mails ++ if count = 0 then [] else reminders.map toMail) owed')
      (fun _ _ owed => owed.Settled) rows [] owed := by
  unfold insertReminders
  apply Accounts.transaction
  apply (Accounts.collect (R := fun (row : ReminderRow) (n : Notification) =>
    n.workspaceId = row.workspaceId ∧ n.userId = row.userId) ?_).andThen
  · rintro data base _ _ ⟨made, rfl, rfl, rfl⟩
    apply Accounts.query settled_of_not_owing
    intro o ran
    obtain ⟨stored, sub, _, written, keys, absent⟩ := Statement.createMany_ok ran
    refine ⟨settled_of_not_owing, rfl, ?_⟩
    have moved : Unmoved (fun w u => o.result ≠ 0 ∧ ∃ row ∈ reminders, row.workspaceId = w ∧ row.userId = u) base
        (applyAll base (stored.map fun n => .put (toRow n))) := by
      apply unmoved_notifications _ keys absent
      intro n member
      constructor
      · rw [Statement.createMany_count ran, written, List.length_map]
        exact Nat.pos_iff_ne_zero.mp (List.length_pos_of_mem member)
      · obtain ⟨i, inside, same⟩ := List.getElem_of_mem (sub.subset member)
        have paired := (List.forall₂_iff_get.mp made).2 i (by rw [made.length_eq]; exact inside) inside
        rw [List.get_eq_getElem, List.get_eq_getElem, same] at paired
        exact ⟨_, List.getElem_mem _, paired.1.symm, paired.2.symm⟩
    rw [List.nil_append, written]
    intro w u owing
    rcases owes_of_unmoved moved owing with before | ⟨some_, row, listed, here⟩
    · obtain ⟨mail, member, same⟩ := noted w u before
      exact ⟨mail, List.mem_append_left _ member, same⟩
    · rw [if_neg some_]
      exact ⟨toMail row, List.mem_append_right _ (List.mem_map_of_mem listed), here⟩
  · intro row _ given
    exact ⟨⟨rfl, rfl⟩, rfl, rfl, rfl⟩

theorem accounts_notifyBatch {tasks : List ScanTaskRow} {since : DateTime} {mails : List NotificationMailInput}
    (noted : Noted mails owed) :
    (notifyBatch tasks since).Accounts signals Owing
      (fun batch _ W owed' => W = [] ∧ Noted (mails ++ batch.recipients.map toMail) owed')
      (fun _ _ owed => owed.Settled) rows [] owed := by
  unfold notifyBatch
  dsimp only
  split
  · exact ⟨rfl, noted.more⟩
  · apply Accounts.bind
    apply Accounts.read settled_of_not_owing
    split
    · exact ⟨rfl, noted.more⟩
    · apply (accounts_insertReminders noted).andThen
      rintro count _ _ owed' ⟨rfl, noted'⟩
      refine ⟨rfl, ?_⟩
      split at noted'
      · rename_i zero
        rw [if_pos zero]
        exact noted'
      · rename_i some_
        rw [if_neg some_]
        exact noted'

theorem accounts_scanFrom {size pages : Nat} {cursor : Option Cursor} (scan : Scan) (noted : Noted scan.mails owed) :
    (scanFrom size pages cursor scan).Accounts signals Owing
      (fun scanned _ W owed' => W = [] ∧ ∀ scan ∈ scanned, Noted scan.mails owed')
      (fun _ _ owed => owed.Settled) rows [] owed := by
  induction pages generalizing cursor scan rows owed with
  | zero => exact ⟨rfl, by simp⟩
  | succ pages ih =>
      unfold scanFrom
      apply Accounts.bind
      apply Accounts.read settled_of_not_owing
      split
      · exact ⟨rfl, by simpa using noted⟩
      · apply (accounts_notifyBatch noted).andThen
        rintro batch _ _ owed' ⟨rfl, noted'⟩
        dsimp only
        split
        · exact ⟨rfl, by simpa [Scan.add] using noted'⟩
        · split
          · exact ⟨rfl, by simpa [Scan.add] using noted'⟩
          · exact ih _ noted'

/-- Everyone noted is told, in each workspace. -/
theorem accounts_announce {mailEnabled : Bool} {scan : Scan} (noted : Noted scan.mails owed) {frail : Owed → Prop}
    {failed : List Row → List (Write Row Key) → Owed → Prop} :
    (announce mailEnabled scan).Accounts signals frail (fun _ _ _ owed => owed.Settled) failed rows [] owed := by
  unfold announce
  refine (Accounts.forEach (I := fun done => Stands rows [] owed fun w u => w ∈ done ∧
    ∃ mail ∈ scan.mails, mail.workspaceId = w ∧ mail.userId = u) [] ?_ ?_).andThen ?_
  · exact ⟨rfl, rfl, fun w u => by simp⟩
  · rintro done workspaceId _ _ owed' _ ⟨rfl, rfl, told⟩
    apply accounts_emitUnreadChanged.weaken _ fun _ _ _ refused => refused
    rintro _ _ _ owed'' ⟨rfl, rfl, told'⟩
    refine ⟨rfl, rfl, fun w u => ?_⟩
    have named : u ∈ (scan.mails.filter (·.workspaceId = workspaceId)).map (·.userId) ↔
        ∃ mail ∈ scan.mails, mail.workspaceId = workspaceId ∧ mail.userId = u := by
      simp [List.mem_map, List.mem_filter, and_assoc]
    rw [told', told, named, List.mem_append, List.mem_singleton]
    constructor
    · rintro ⟨⟨owing, early⟩, now⟩
      refine ⟨owing, ?_⟩
      rintro ⟨before | rfl, mail⟩
      · exact early ⟨before, mail⟩
      · exact now ⟨rfl, mail⟩
    · rintro ⟨owing, never⟩
      refine ⟨⟨owing, fun ⟨before, mail⟩ => never ⟨Or.inl before, mail⟩⟩, ?_⟩
      rintro ⟨rfl, mail⟩
      exact never ⟨Or.inr rfl, mail⟩
  · rintro _ _ _ owed' ⟨rfl, rfl, told⟩
    apply accounts_sendForCreated.weaken _ fun _ _ _ refused => refused
    rintro _ _ _ owed'' ⟨rfl, rfl, same⟩ w u owing
    obtain ⟨owing', untold⟩ := (told w u).mp ((same w u).mp owing).1
    obtain ⟨mail, listed, workspace, user⟩ := noted w u owing'
    apply untold
    refine ⟨?_, mail, listed, workspace, user⟩
    rw [List.nil_append, List.mem_eraseDups, ← workspace]
    exact List.mem_map_of_mem (f := NotificationMailInput.workspaceId) listed

theorem accounts_runScan {size pages : Nat} {mailEnabled : Bool} :
    (runScan size pages mailEnabled).Accounts signals Owing
      (fun scanned _ _ owed => scanned.isSome → owed.Settled) (fun _ _ owed => owed.Settled) rows [] Nobody := by
  unfold runScan
  apply Accounts.bind
  intro clock
  apply (accounts_scanFrom { now := clock.now } (fun _ _ none_ => none_.elim)).andThen
  rintro scanned _ _ owed ⟨rfl, noted⟩
  cases scanned with
  | none => exact fun none_ => by cases none_
  | some scan =>
      apply (accounts_announce (noted scan rfl)).andThen
      exact fun _ _ _ _ settled _ => settled

end Scans
section Runs

/-- No statement of a scan fails while someone is owed a signal, and a removal takes along no
unread notification. -/
def SignalCall.Meets (oracle : Nat → Choice Input Error) (s : Store.Session Row Key Event) : SignalCall → Prop
  | .scan size pages mailEnabled =>
      (SignalCall.scan size pages mailEnabled).service.Spares signals Owing oracle { s with pending := [] } Nobody
  | .removeTask workspaceId taskId _ =>
      (table s.rows : List Task).any (scopedTask workspaceId taskId s.rows) → ReadAbout (· = taskId) s.rows
  | .removeBoard workspaceId boardId _ =>
      (table s.rows : List Board).any (BoardService.scopedBoard workspaceId boardId s.rows) →
        ReadAbout (fun id => ∃ task ∈ (table s.rows : List Task), task.id = id ∧ onBoard boardId s.rows task) s.rows
  | _ => True

def SignalCall.run (call : SignalCall) (oracle : Nat → Choice Input Error) (s : Store.Session Row Key Event) :
    Except Error Bool × Store.Session Row Key Event :=
  call.service.run oracle { s with pending := [] }

/-- Each call of a run, where it came to its end or failed, has signalled what it changed. -/
def AllSignalled (oracle : Nat → Choice Input Error) : List SignalCall → Store.Session Row Key Event → Prop
  | [], _ => True
  | call :: rest, s =>
      (∃ more, (call.run oracle s).2.log = s.log ++ more ∧ ((call.run oracle s).1 ≠ .ok false → Signalled more)) ∧
        AllSignalled oracle rest (call.run oracle s).2

def AllMeet (oracle : Nat → Choice Input Error) : List SignalCall → Store.Session Row Key Event → Prop
  | [], _ => True
  | call :: rest, s => call.Meets oracle s ∧ AllMeet oracle rest (call.run oracle s).2

variable {rows : List Row} {oracle : Nat → Choice Input Error} {s : Store.Session Row Key Event}

/-- A call that cannot be left unfinished. -/
theorem accounts_finished {α : Type} {p : Service α} {frail : Owed → Prop}
    (accounts : p.Accounts signals frail (fun _ _ _ owed => owed.Settled) (fun _ _ owed => owed.Settled) rows [] Nobody) :
    (p.bind fun _ => Prog.pure true).Accounts signals frail (fun ended _ _ owed => ended = true → owed.Settled)
      (fun _ _ owed => owed.Settled) rows [] Nobody :=
  accounts.andThen fun _ _ _ _ settled _ => settled

theorem SignalCall.signalled {call : SignalCall} (unique : UniqueKeys s.rows) (meets : call.Meets oracle s) :
    ∃ more, (call.run oracle s).2.log = s.log ++ more ∧ ((call.run oracle s).1 ≠ .ok false → Signalled more) := by
  have ends : ∃ frail, call.service.Spares signals frail oracle { s with pending := [] } Nobody ∧
      call.service.Accounts signals frail (fun ended _ _ owed => ended = true → owed.Settled)
        (fun _ _ owed => owed.Settled) s.rows [] Nobody := by
    cases call with
    | addAssignee => exact ⟨_, spares_sound _ _ _ _, accounts_finished accounts_addAssignee⟩
    | createComment =>
        exact ⟨_, spares_sound _ _ _ _, accounts_finished (accounts_createComment.weaken
          (fun _ _ _ _ kept => kept.2.1) fun _ _ _ settled => settled)⟩
    | scan => exact ⟨Owing, meets, accounts_runScan.andThen fun _ _ _ _ settled => settled⟩
    | markRead => exact ⟨_, spares_sound _ _ _ _, accounts_finished (accounts_markRead unique)⟩
    | markAllRead => exact ⟨_, spares_sound _ _ _ _, accounts_finished (accounts_markAllRead unique)⟩
    | removeTask => exact ⟨_, spares_sound _ _ _ _, accounts_finished (accounts_removeTask unique meets)⟩
    | removeBoard => exact ⟨_, spares_sound _ _ _ _, accounts_finished (accounts_removeBoard unique meets)⟩
  obtain ⟨frail, spared, accounts⟩ := ends
  obtain ⟨more, log, kept⟩ := Accounts.run (s := { s with pending := [] }) accounts oracle spared
  refine ⟨more, log, fun ended => (signalled_of_settled Nobody ?_).1⟩
  simp only [SignalCall.run] at ended
  cases answer : (call.service.run oracle { s with pending := [] }).1 with
  | error error =>
      rw [answer] at kept
      exact kept
  | ok value =>
      rw [answer] at kept ended
      cases value with
      | true => exact kept rfl
      | false => exact absurd rfl ended

/-- In a run of calls that meet it, every change of an unread count is signalled afterwards
by the call that made it. -/
theorem changes_are_signalled (oracle : Nat → Choice Input Error) (calls : List SignalCall)
    (s : Store.Session Row Key Event) (unique : UniqueKeys s.rows) (meets : AllMeet oracle calls s) :
    AllSignalled oracle calls s := by
  induction calls generalizing s with
  | nil => trivial
  | cons call rest ih =>
      have next := run_rows (I := UniqueKeys) (fun rows W before => before.applyAll W) call.service oracle
        (s := { s with pending := [] }) unique
      exact ⟨SignalCall.signalled unique meets.1, ih _ next meets.2⟩

end Runs

section Sample

/-- Whether the account of one user is open after the occurrences. -/
def unpaid (workspaceId userId : Id) : Bool → List (Occurrence Row Key Event) → Bool
  | owing, [] => owing
  | owing, .committed before W :: log => unpaid workspaceId userId
      (owing || decide (unreadOf workspaceId userId (applyAll before W) ≠ unreadOf workspaceId userId before)) log
  | owing, .emitted event _ :: log => unpaid workspaceId userId
      (owing && decide (event ≠ signalTo workspaceId userId)) log

theorem paid_of_signalled {w u : Id} {log : List (Occurrence Row Key Event)} {owing : Bool} (signalled : Signalled log)
    (paid : owing = true → ∃ rows, .emitted (signalTo w u) rows ∈ log) : unpaid w u owing log = false := by
  induction log generalizing owing with
  | nil =>
      cases owing with
      | false => rfl
      | true =>
          obtain ⟨_, member⟩ := paid rfl
          cases member
  | cons o log ih =>
      have later : Signalled log := fun earlier before W rest cut =>
        signalled (o :: earlier) before W rest (by rw [cut]; rfl)
      cases o with
      | committed before W =>
          apply ih later
          intro owed
          rcases Bool.or_eq_true _ _ ▸ owed with already | changed
          · obtain ⟨rows, member⟩ := paid already
            rcases List.mem_cons.mp member with same | tail
            · cases same
            · exact ⟨rows, tail⟩
          · exact signalled [] before W log rfl w u (of_decide_eq_true changed)
      | emitted event rows =>
          apply ih later
          intro owed
          obtain ⟨already, other⟩ := Bool.and_eq_true _ _ ▸ owed
          obtain ⟨rows', member⟩ := paid already
          rcases List.mem_cons.mp member with same | tail
          · cases same
            exact absurd rfl (of_decide_eq_true other)
          · exact ⟨rows', tail⟩

/-- Ann's task, and Bob's unread notification about it. -/
def toldBob : List Row := sampleWorkspace ++ [
  .column { id := "c", boardId := "b", name := "To Do", position := 1000 },
  .task { id := "t", boardId := "b", columnId := "c", title := "Read", position := 1000, createdById := "ann" },
  .notification { id := "n", workspaceId := "w", userId := "bob", type := .Mention, taskId := some "t", payload := [] }]

/-- The task goes, the notification with it, and nobody tells Bob. -/
theorem removal_not_signalled :
    ¬ ∀ (oracle : Nat → Choice Input Error) (calls : List SignalCall) (s : Store.Session Row Key Event),
      UniqueKeys s.rows → AllSignalled oracle calls s := by
  intro claim
  obtain ⟨⟨more, log, signalled⟩, _⟩ := claim smooth [.removeTask "w" "t" "ann"] { rows := toldBob } (by decide +kernel)
  have ended : ((SignalCall.removeTask "w" "t" "ann").run smooth { rows := toldBob }).1.toOption = some true := by
    decide +kernel
  have open_ : unpaid "w" "bob" false ((SignalCall.removeTask "w" "t" "ann").run smooth { rows := toldBob }).2.log =
    true := by
    decide +kernel
  have finished : ((SignalCall.removeTask "w" "t" "ann").run smooth { rows := toldBob }).1 ≠ .ok false := by
    intro same
    rw [same] at ended
    cases ended
  rw [log, List.nil_append, paid_of_signalled (signalled finished) (fun none_ => by cases none_)] at open_
  cases open_

/-- Where Bob has read it first, everyone is told. -/
theorem changes_are_signalled_read :
    AllSignalled smooth [.createComment false "w" "t" "ann" { body := "Done" }, .markAllRead "w" "bob",
      .removeTask "w" "t" "ann"] { rows := toldBob } := by
  have read : ∀ n ∈ (table ((SignalCall.markAllRead "w" "bob").run smooth
      ((SignalCall.createComment false "w" "t" "ann" { body := "Done" }).run smooth { rows := toldBob }).2).2.rows :
        List Notification), n.readAt.isSome := by
    decide +kernel
  refine changes_are_signalled smooth _ { rows := toldBob } (by decide +kernel) ⟨trivial, trivial, ?_, trivial⟩
  intro _ n member _ _ _ unread
  have seen := read n member
  rw [unread] at seen
  cases seen

end Sample
end Kurul
