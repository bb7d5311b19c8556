import Kurul.Notification.DueSoonWorker
import Kurul.Store.Amid
import Kurul.Store.Answers
import Mathlib

/-! Scans one after the other, with reminders marked read at any time and anything else
changed between them. A scan goes through every due task and assignee once, and no
reminder comes while one is unread or within a day of the last. -/
namespace Kurul

open Store Prog Sequence DueSoonWorker

/-- The row reminds this user of this task. -/
def Notification.Reminds (userId taskId : Id) (row : Notification) : Prop :=
  row.type = .DueSoon ∧ row.userId = userId ∧ row.taskId = some taskId

/-- Reminders of one user and task: one at most is unread, and they are more than a day
apart. None is of the future. -/
structure Reminded (now : DateTime) (rows : List Row) : Prop where
  unread : ∀ a ∈ (table rows : List Notification), ∀ b ∈ (table rows : List Notification),
    ∀ userId taskId, a.Reminds userId taskId → b.Reminds userId taskId →
      a.readAt = none → b.readAt = none → a.id = b.id
  apart : ∀ a ∈ (table rows : List Notification), ∀ b ∈ (table rows : List Notification),
    ∀ userId taskId, a.Reminds userId taskId → b.Reminds userId taskId →
      a.id ≠ b.id → DUE_WINDOW_MS < |a.createdAt - b.createdAt|
  past : ∀ a ∈ (table rows : List Notification), ∀ userId taskId, a.Reminds userId taskId →
    a.createdAt ≤ now

/-- Every reminder was there before, and is not unread again. -/
def NoNewReminder (before after : List Row) : Prop :=
  ∀ b ∈ (table after : List Notification), b.type = .DueSoon →
    ∃ a ∈ (table before : List Notification), a.id = b.id ∧ a.type = .DueSoon ∧ a.userId = b.userId ∧
      a.taskId = b.taskId ∧ a.createdAt = b.createdAt ∧ (b.readAt = none → a.readAt = none)

/-- The tables that a scan reads are the same. -/
structure SameTasks (before after : List Row) : Prop where
  tasks : (table after : List Task) = table before
  assignees : (table after : List TaskAssignee) = table before
  boards : (table after : List Board) = table before

theorem NoNewReminder.refl (rows : List Row) : NoNewReminder rows rows :=
  fun b stored due => ⟨b, stored, rfl, due, rfl, rfl, rfl, id⟩

theorem NoNewReminder.trans {first second third : List Row} (left : NoNewReminder first second)
    (right : NoNewReminder second third) : NoNewReminder first third := by
  intro c stored due
  obtain ⟨b, storedB, idB, dueB, userB, taskB, timeB, unreadB⟩ := right c stored due
  obtain ⟨a, storedA, idA, dueA, userA, taskA, timeA, unreadA⟩ := left b storedB dueB
  exact ⟨a, storedA, idA.trans idB, dueA, userA.trans userB, taskA.trans taskB, timeA.trans timeB,
    fun unread => unreadA (unreadB unread)⟩

theorem SameTasks.refl (rows : List Row) : SameTasks rows rows := ⟨rfl, rfl, rfl⟩

theorem SameTasks.trans {first second third : List Row} (left : SameTasks first second)
    (right : SameTasks second third) : SameTasks first third :=
  ⟨right.tasks.trans left.tasks, right.assignees.trans left.assignees, right.boards.trans left.boards⟩

theorem Reminded.kept {now : DateTime} {before after : List Row} (reminded : Reminded now before)
    (none_ : NoNewReminder before after) : Reminded now after := by
  have source : ∀ b ∈ (table after : List Notification), ∀ {userId taskId}, b.Reminds userId taskId →
      ∃ a ∈ (table before : List Notification), a.id = b.id ∧ a.Reminds userId taskId ∧
        a.createdAt = b.createdAt ∧ (b.readAt = none → a.readAt = none) := by
    rintro b stored userId taskId ⟨due, user, task⟩
    obtain ⟨a, storedA, same, dueA, userA, taskA, time, unread⟩ := none_ b stored due
    exact ⟨a, storedA, same, ⟨dueA, userA.trans user, taskA.trans task⟩, time, unread⟩
  constructor
  · intro a storedA b storedB userId taskId left right unreadA unreadB
    obtain ⟨a', oldA, sameA, left', _, earlierA⟩ := source a storedA left
    obtain ⟨b', oldB, sameB, right', _, earlierB⟩ := source b storedB right
    rw [← sameA, ← sameB]
    exact reminded.unread a' oldA b' oldB userId taskId left' right' (earlierA unreadA) (earlierB unreadB)
  · intro a storedA b storedB userId taskId left right different
    obtain ⟨a', oldA, sameA, left', timeA, _⟩ := source a storedA left
    obtain ⟨b', oldB, sameB, right', timeB, _⟩ := source b storedB right
    rw [← timeA, ← timeB]
    apply reminded.apart a' oldA b' oldB userId taskId left' right'
    rwa [sameA, sameB]
  · intro b stored userId taskId reminds
    obtain ⟨a, old, _, reminds', time, _⟩ := source b stored reminds
    rw [← time]
    exact reminded.past a old userId taskId reminds'

theorem Reminded.later {now now' : DateTime} {rows : List Row} (reminded : Reminded now rows)
    (le : now ≤ now') : Reminded now' rows :=
  ⟨reminded.unread, reminded.apart,
    fun a stored userId taskId reminds => (reminded.past a stored userId taskId reminds).trans le⟩

section Writes

theorem key_notification {row : Row} {id : Id} (same : key row = Key.notification id) :
    ∃ notification, row = .notification notification := by
  cases row <;> simp_all [key, Row.key]

/-- A write of a notification leaves the other tables as they are. -/
theorem table_put_notification {α : Type} [Entity Row α] (notification : Notification)
    (other : ∀ notification, (ofRow (.notification notification : Row) : Option α) = none) (rows : List Row) :
    (table ((Write.put (.notification notification : Row)).apply rows) : List α) = table rows := by
  simp only [Write.apply, table]
  split
  · rw [List.filterMap_map]
    apply List.filterMap_congr
    intro row _
    simp only [Function.comp_apply]
    split
    · rename_i same
      obtain ⟨old, rfl⟩ := key_notification same
      rw [other, other]
    · rfl
  · simp [other]

theorem table_put_notifications {α : Type} [Entity Row α] (stored : List Notification)
    (other : ∀ notification, (ofRow (.notification notification : Row) : Option α) = none) (rows : List Row) :
    (table (applyAll rows (stored.map fun n => .put (toRow n))) : List α) = table rows := by
  induction stored generalizing rows with
  | nil => rfl
  | cons first rest ih =>
      rw [List.map_cons, applyAll, ih]
      exact table_put_notification first other rows

theorem sameTasks_put (stored : List Notification) (rows : List Row) :
    SameTasks rows (applyAll rows (stored.map fun n => .put (toRow n))) where
  tasks := table_put_notifications stored (fun _ => rfl) rows
  assignees := table_put_notifications stored (fun _ => rfl) rows
  boards := table_put_notifications stored (fun _ => rfl) rows

/-- Notifications marked read, one or many. -/
theorem markedRead {where_ : Where Row Notification} {at_ : DateTime} {rows : List Row}
    {o : Outcome Row Key Nat}
    (ran : (Statement.updateMany where_ (fun n : Notification => { n with readAt := some at_ }) rows :
      Except Error _) = .ok o) :
    SameTasks rows (applyAll rows o.writes) ∧ NoNewReminder rows (applyAll rows o.writes) := by
  have written := (Statement.updateMany_ok ran).2
  constructor
  · have puts : o.writes = (((table rows).filter (where_ rows)).map
        fun n : Notification => { n with readAt := some at_ }).map fun n => .put (toRow n) := by
      rw [written, List.map_map]
      rfl
    rw [puts]
    exact sameTasks_put _ rows
  · intro b stored due
    rcases mem_applyAll_cases (mem_table.mp stored) with put | ⟨old, _⟩
    · rw [written] at put
      obtain ⟨a, chosen, same⟩ := List.mem_map.mp put
      simp only [Write.put.injEq] at same
      obtain rfl := toRow_injective same
      exact ⟨a, (List.mem_filter.mp chosen).1, rfl, due, rfl, rfl, rfl, fun unread => by cases unread⟩
    · exact ⟨b, mem_table.mpr old, rfl, due, rfl, rfl, rfl, id⟩

theorem apart_of_since {since old new : Int} (before : old < since)
    (after : since + DUE_WINDOW_MS ≤ new) : DUE_WINDOW_MS < |new - old| := by
  rw [lt_abs]
  left
  omega

/-- New reminders, of pairs that have had none unread or within a day. -/
theorem Reminded.insert {now : DateTime} {rows : List Row} {stored : List Notification}
    (since : DateTime) (reminded : Reminded now rows)
    (fresh : ∀ n ∈ stored, since + DUE_WINDOW_MS ≤ n.createdAt ∧ n.createdAt ≤ now)
    (pairs : (stored.map fun n => (n.taskId, n.userId)).Nodup)
    (spent : ∀ n ∈ stored, ∀ old ∈ (table rows : List Notification), ∀ userId taskId,
      n.Reminds userId taskId → old.Reminds userId taskId → old.readAt ≠ none ∧ old.createdAt < since) :
    Reminded now (applyAll rows (stored.map fun n => .put (toRow n))) := by
  have cases_ : ∀ a ∈ (table (applyAll rows (stored.map fun n => .put (toRow n))) : List Notification),
      a ∈ stored ∨ a ∈ (table rows : List Notification) := by
    intro a member
    rcases mem_applyAll_cases (mem_table.mp member) with put | ⟨old, _⟩
    · obtain ⟨n, inside, same⟩ := List.mem_map.mp put
      rw [Write.put.injEq] at same
      exact .inl (toRow_injective same ▸ inside)
    · exact .inr (mem_table.mpr old)
  have one : ∀ a ∈ stored, ∀ b ∈ stored, ∀ userId taskId, a.Reminds userId taskId →
      b.Reminds userId taskId → a = b := by
    rintro a left b right userId taskId ⟨_, userA, taskA⟩ ⟨_, userB, taskB⟩
    apply List.inj_on_of_nodup_map pairs left right
    rw [userA, userB, taskA, taskB]
  constructor
  · intro a memberA b memberB userId taskId left right unreadA unreadB
    rcases cases_ a memberA with newA | oldA <;> rcases cases_ b memberB with newB | oldB
    · rw [one a newA b newB userId taskId left right]
    · exact absurd unreadB (spent a newA b oldB userId taskId left right).1
    · exact absurd unreadA (spent b newB a oldA userId taskId right left).1
    · exact reminded.unread a oldA b oldB userId taskId left right unreadA unreadB
  · intro a memberA b memberB userId taskId left right different
    rcases cases_ a memberA with newA | oldA <;> rcases cases_ b memberB with newB | oldB
    · exact absurd (congrArg _ (one a newA b newB userId taskId left right)) different
    · exact apart_of_since (spent a newA b oldB userId taskId left right).2 (fresh a newA).1
    · rw [abs_sub_comm]
      exact apart_of_since (spent b newB a oldA userId taskId right left).2 (fresh b newB).1
    · exact reminded.apart a oldA b oldB userId taskId left right different
  · intro a member userId taskId reminds
    rcases cases_ a member with new | old
    · exact (fresh a new).2
    · exact reminded.past a old userId taskId reminds

end Writes

section Pages

/-- Keys are unique, and nobody is assigned to a task twice. -/
structure WellStored (rows : List Row) : Prop where
  keys : UniqueKeys rows
  assignments : ∀ a ∈ (table rows : List TaskAssignee), ∀ b ∈ (table rows : List TaskAssignee),
    a.taskId = b.taskId → a.userId = b.userId → a.id = b.id

/-- The task is due within the window and the user is assigned to it. -/
def DuePair (now : DateTime) (rows : List Row) (taskId userId : Id) : Prop :=
  (∃ task ∈ (table rows : List Task), task.id = taskId ∧
    ∃ due ∈ task.dueDate, now < due ∧ due ≤ now + DUE_WINDOW_MS) ∧
  ∃ assignee ∈ (table rows : List TaskAssignee), assignee.taskId = taskId ∧ assignee.userId = userId

variable {rows rows' : List Row} {now : DateTime}

theorem ids_nodup (keys : UniqueKeys rows) : ((table rows : List Task).map Task.id).Nodup := by
  apply List.pairwise_map.mpr
  apply (table_pairwise keys).imp
  intro a b different same
  exact different (congrArg Key.task same)

theorem assignees_nodup (stored : WellStored rows) (taskId : Id) :
    (((table rows : List TaskAssignee).filter (·.taskId = taskId)).map TaskAssignee.userId).Nodup := by
  have apart : (table rows : List TaskAssignee).Pairwise fun a b => a.id ≠ b.id := by
    apply (table_pairwise stored.keys).imp
    intro a b different same
    exact different (congrArg Key.taskAssignee same)
  apply List.pairwise_map.mpr
  apply (List.Pairwise.and_mem.mp (apart.filter _)).imp
  rintro a b ⟨left, right, different⟩ same
  rw [List.mem_filter, decide_eq_true_eq] at left right
  exact different (stored.assignments a left.1 b right.1 (left.2.trans right.2.symm) same)

theorem dueKeys_nodup (keys : UniqueKeys rows) (now : DateTime) :
    ((dueTasks now rows).map dueKey).Nodup := by
  have ids : ((dueTasks now rows).map Task.id).Nodup :=
    (ids_nodup keys).sublist (List.filter_sublist.map _)
  apply List.pairwise_map.mpr
  apply (List.pairwise_map.mp ids).imp
  intro a b different same
  exact different (congrArg (fun key : Cursor => (ofLex key).2) same)

theorem isDue_iff {task : Task} : isDue now rows task = true ↔
    (∃ due ∈ task.dueDate, now < due ∧ due ≤ now + DUE_WINDOW_MS) ∧
      ∃ assignee ∈ (table rows : List TaskAssignee), assignee.taskId = task.id := by
  simp [isDue, Option.any_eq_true]

/-- The pairs of some due tasks, each once. -/
theorem pairsOf_nodup (stored : WellStored rows) {tasks : List Task} (ids : (tasks.map Task.id).Nodup) :
    (pairsOf (tasks.map (scanTask rows))).Nodup := by
  rw [pairsOf, List.flatMap_map, List.nodup_flatMap]
  constructor
  · intro task _
    by_cases undated : (scanTask rows task).dueDate.isNone = true
    · rw [if_pos undated]
      exact List.nodup_nil
    · rw [if_neg undated]
      apply (assignees_nodup stored task.id).map
      intro a b same
      exact congrArg Prod.snd same
  · apply (List.pairwise_map.mp ids).imp
    intro a b different pair left right
    have first : ∀ task : Task, pair ∈ (if (scanTask rows task).dueDate.isNone then []
        else (scanTask rows task).assignees.map fun userId => ((scanTask rows task).id, userId)) →
        pair.1 = task.id := by
      intro task member
      split at member
      · cases member
      · obtain ⟨_, _, rfl⟩ := List.mem_map.mp member
        rfl
    exact different ((first a left).symm.trans (first b right))

/-- What the scan has been through when it has been through all due tasks. -/
theorem mem_pairsOf {taskId userId : Id} :
    (taskId, userId) ∈ pairsOf ((sorted dueKey (dueTasks now rows)).map (scanTask rows)) ↔
      DuePair now rows taskId userId := by
  simp only [pairsOf, List.flatMap_map, List.mem_flatMap, mem_sorted, dueTasks, List.mem_filter, isDue_iff]
  constructor
  · rintro ⟨task, ⟨stored, ⟨due, dated, window⟩, _⟩, member⟩
    rw [Option.mem_def] at dated
    simp only [scanTask, dated, Option.isNone_some, Bool.false_eq_true, if_false, List.mem_map,
      Prod.mk.injEq] at member
    obtain ⟨_, ⟨assignee, assigned, rfl⟩, rfl, rfl⟩ := member
    rw [List.mem_filter, decide_eq_true_eq] at assigned
    exact ⟨⟨task, stored, rfl, due, dated, window⟩, assignee, assigned.1, assigned.2, rfl⟩
  · rintro ⟨⟨task, stored, rfl, due, dated, window⟩, assignee, assigned, here, rfl⟩
    refine ⟨task, ⟨stored, ⟨due, dated, window⟩, assignee, assigned, here⟩, ?_⟩
    rw [Option.mem_def] at dated
    simp only [scanTask, dated, Option.isNone_some, Bool.false_eq_true, if_false, List.mem_map,
      Prod.mk.injEq]
    exact ⟨_, ⟨assignee, List.mem_filter.mpr ⟨assigned, decide_eq_true here⟩, rfl⟩, trivial, rfl⟩

theorem SameTasks.dueTasks (same : SameTasks rows rows') (now : DateTime) :
    DueSoonWorker.dueTasks now rows' = DueSoonWorker.dueTasks now rows := by
  unfold DueSoonWorker.dueTasks isDue
  rw [same.tasks, same.assignees]

theorem SameTasks.scanTask (same : SameTasks rows rows') :
    DueSoonWorker.scanTask rows' = DueSoonWorker.scanTask rows := by
  funext task
  unfold DueSoonWorker.scanTask
  rw [same.assignees, same.boards]

theorem SameTasks.wellStored (same : SameTasks rows rows') (keys : UniqueKeys rows')
    (stored : WellStored rows) : WellStored rows' :=
  ⟨keys, by rw [same.assignees]; exact stored.assignments⟩

/-- A page of the scan, from where the last one ended. -/
theorem duePage_eq (keys : UniqueKeys rows) {done rest : List Task}
    (split : sorted dueKey (dueTasks now rows) = done ++ rest) (size : Nat) :
    duePage size now (done.getLast?.map dueKey) rows = (rest.take size).map (DueSoonWorker.scanTask rows) := by
  rw [duePage, page_eq (dueKeys_nodup keys now) split]

section Paging

variable {done rest : List Task} {size : Nat}

theorem page_of (stored : WellStored rows) (same : SameTasks rows rows')
    (split : sorted dueKey (dueTasks now rows) = done ++ rest) :
    duePage size now (done.getLast?.map dueKey) rows' =
      (rest.take size).map (DueSoonWorker.scanTask rows) := by
  rw [← duePage_eq stored.keys split]
  unfold duePage
  rw [same.dueTasks, same.scanTask]

theorem page_ids (stored : WellStored rows) (split : sorted dueKey (dueTasks now rows) = done ++ rest)
    (size : Nat) : ((rest.take size).map Task.id).Nodup := by
  have due : ((dueTasks now rows).map Task.id).Nodup :=
    (ids_nodup stored.keys).sublist (List.filter_sublist.map _)
  have all : ((sorted dueKey (dueTasks now rows)).map Task.id).Nodup :=
    ((sorted_perm _).map _).nodup_iff.mpr due
  rw [split] at all
  exact all.sublist (((List.take_sublist _ _).trans (List.sublist_append_right _ _)).map _)

/-- An empty page is the end. -/
theorem rest_of_empty (positive : 0 < size)
    (empty : ((rest.take size).map (DueSoonWorker.scanTask rows)).isEmpty = true) : rest = [] := by
  rw [List.isEmpty_iff, List.map_eq_nil_iff, List.take_eq_nil_iff] at empty
  rcases empty with zero | none_
  · omega
  · exact none_

/-- After a full page the cursor is at its last task. -/
theorem next_cursor (split : sorted dueKey (dueTasks now rows) = done ++ rest) (positive : 0 < size)
    (full : size ≤ rest.length) : ∃ cursor,
    (((rest.take size).map (DueSoonWorker.scanTask rows)).getLast?.bind fun last =>
      last.dueDate.map fun due => (toLex (due, last.id) : Cursor)) = some cursor ∧
    (done ++ rest.take size).getLast?.map dueKey = some cursor := by
  obtain ⟨before, last, ends⟩ : ∃ before last, rest.take size = before ++ [last] := by
    have some_ : rest.take size ≠ [] := by
      intro empty
      rw [List.take_eq_nil_iff] at empty
      rcases empty with zero | none_
      · omega
      · rw [none_, List.length_nil] at full
        omega
    exact ⟨_, _, (List.dropLast_append_getLast some_).symm⟩
  have listed : last ∈ sorted dueKey (dueTasks now rows) := by
    rw [split, ← List.take_append_drop size rest, ends]
    simp
  obtain ⟨due, dated, _⟩ := (isDue_iff.mp (List.mem_filter.mp (mem_sorted.mp listed)).2).1
  rw [Option.mem_def] at dated
  refine ⟨toLex (due, last.id), ?_, ?_⟩
  · simp [ends, DueSoonWorker.scanTask, dated]
  · simp [ends, dueKey, dated]

end Paging

/-- Of a page, the reminders are the pairs not told yet. -/
theorem remindersOf_pairs (skip : List String) (tasks : List ScanTaskRow) :
    (remindersOf skip tasks).map (fun row => (row.taskId, row.userId)) =
      (pairsOf tasks).filter fun pair => pairKey pair.2 pair.1 ∉ skip := by
  induction tasks with
  | nil => rfl
  | cons task rest ih =>
      simp only [remindersOf, pairsOf, List.flatMap_cons, List.map_append, List.filter_append] at ih ⊢
      rw [ih]
      congr 1
      cases task.dueDate with
      | none => rfl
      | some due => simp [List.filter_map, Function.comp_def]

end Pages

section Scanning

/-- Between the steps of a scan, notifications may be marked read. -/
def marking : Surroundings Row Input DateTime where
  changes before after := SameTasks before after ∧ NoNewReminder before after
  time := Input.now
  refl rows := ⟨.refl rows, .refl rows⟩
  trans first second := ⟨first.1.trans second.1, first.2.trans second.2⟩

/-- A commit of a scan leaves the tasks alone and the reminders as they should be. -/
def KeepsReminded (now : DateTime) (rows : List Row) (W : List (Write Row Key)) : Prop :=
  SameTasks rows (applyAll rows W) ∧ (Reminded now rows → Reminded now (applyAll rows W))

variable {base rows : List Row} {now start : DateTime} {W : List (Write Row Key)}

/-- A reminder row as it is stored. -/
structure Stamped (start now : DateTime) (row : ReminderRow) (n : Notification) : Prop where
  type : n.type = .DueSoon
  user : n.userId = row.userId
  task : n.taskId = some row.taskId
  after : start ≤ n.createdAt
  before : n.createdAt ≤ now

theorem stamps (reminders : List ReminderRow) (late : start ≤ now) :
    (collect reminders store).Amid marking KeepsReminded
      (fun data now' rows' W' => rows' = rows ∧ W' = W ∧ now ≤ now' ∧
        List.Forall₂ (Stamped start now') reminders data) now rows W := by
  induction reminders generalizing now with
  | nil => exact ⟨rfl, rfl, le_rfl, .nil⟩
  | cons row rest ih =>
      intro x later
      apply (ih (late.trans later)).andThen
      rintro data now' _ _ ⟨rfl, rfl, le, stamped⟩
      refine ⟨rfl, rfl, later.trans le, .cons ?_ stamped⟩
      exact ⟨rfl, rfl, rfl, late.trans later, le⟩

theorem stamped_pairs {reminders : List ReminderRow} {data : List Notification}
    (stamped : List.Forall₂ (Stamped start now) reminders data) :
    data.map (fun n => (n.taskId, n.userId)) =
      (reminders.map fun row => (row.taskId, row.userId)).map fun pair => (some pair.1, pair.2) := by
  induction stamped with
  | nil => rfl
  | cons first _ ih => simp [ih, first.user, first.task]

theorem stamped_mem {reminders : List ReminderRow} {data : List Notification}
    (stamped : List.Forall₂ (Stamped start now) reminders data) {n : Notification} (member : n ∈ data) :
    ∃ row ∈ reminders, Stamped start now row n := by
  induction stamped with
  | nil => cases member
  | cons first _ ih =>
      rcases List.mem_cons.mp member with rfl | later
      · exact ⟨_, List.mem_cons_self, first⟩
      · obtain ⟨row, inside, same⟩ := ih later
        exact ⟨row, List.mem_cons_of_mem _ inside, same⟩

/-- Whoever is not skipped has no reminder that stands. -/
theorem not_standing {tasks : List ScanTaskRow} {since : DateTime} {row : ReminderRow}
    (listed : row ∈ remindersOf (alreadyNotified (pairsOf tasks) since rows) tasks)
    {old : Notification} (stored : old ∈ (table rows : List Notification))
    (reminds : old.Reminds row.userId row.taskId) : isStanding since old = false := by
  have pair : (row.taskId, row.userId) ∈ (pairsOf tasks).filter
      fun pair => pairKey pair.2 pair.1 ∉ alreadyNotified (pairsOf tasks) since rows := by
    rw [← remindersOf_pairs]
    exact List.mem_map_of_mem (f := fun row : ReminderRow => (row.taskId, row.userId)) listed
  obtain ⟨inside, fresh⟩ := List.mem_filter.mp pair
  obtain ⟨due, user, task⟩ := reminds
  by_contra standing
  apply of_decide_eq_true fresh
  rw [alreadyNotified, List.mem_map]
  refine ⟨old, List.mem_filter.mpr ⟨stored, ?_⟩, ?_⟩
  · have told : (pairsOf tasks).any
        (fun pair => old.taskId = some pair.1 && old.userId = pair.2) = true := by
      apply List.any_eq_true.mpr
      exact ⟨_, inside, by simp [task, user]⟩
    have stands : isStanding since old = true := by simpa using standing
    rw [told, stands, due]
    rfl
  · simp [user, task]

theorem notifies {tasks : List ScanTaskRow} (pairs : (pairsOf tasks).Nodup) (late : start ≤ now)
    (same : SameTasks base rows) :
    (notifyBatch tasks (start - DUE_WINDOW_MS)).Amid marking KeepsReminded
      (fun _ now' rows' W' => W' = [] ∧ now ≤ now' ∧ SameTasks base rows') now rows [] := by
  unfold notifyBatch
  dsimp only
  split
  · exact ⟨rfl, le_rfl, same⟩
  · apply Prog.Amid.bind
    apply Prog.Amid.read
    intro shown changed
    split
    · exact ⟨rfl, le_rfl, same.trans changed.1⟩
    · apply Prog.Amid.bind
      apply Prog.Amid.transaction
      apply (stamps _ late).andThen
      rintro data now' _ _ ⟨rfl, rfl, le, stamped⟩
      apply Prog.Amid.query
      intro written o changed' ran committed changed''
      obtain ⟨stored, sub, _, puts, _, _⟩ := Statement.createMany_ok ran
      rw [List.nil_append, puts]
      have between := marking.trans changed' changed''
      have tasks' : SameTasks committed _ := sameTasks_put stored committed
      refine ⟨⟨tasks', ?_⟩, rfl, le, ((same.trans changed.1).trans between.1).trans tasks'⟩
      intro reminded
      apply Reminded.insert (start - DUE_WINDOW_MS) reminded
      · intro n member
        obtain ⟨row, _, stamp⟩ := stamped_mem stamped (sub.subset member)
        have after := stamp.after
        exact ⟨by simpa using after, stamp.before⟩
      · apply List.Nodup.sublist (sub.map _)
        rw [stamped_pairs stamped]
        apply List.Nodup.map
        · rintro ⟨_, _⟩ ⟨_, _⟩ same
          simpa using same
        · rw [remindersOf_pairs]
          exact pairs.filter _
      · rintro n member old there userId taskId ⟨_, user, task⟩ reminds
        obtain ⟨row, listed, stamp⟩ := stamped_mem stamped (sub.subset member)
        obtain ⟨first, stored', _, due, user', task', time, unread⟩ := between.2 old there reminds.1
        have mine : first.Reminds row.userId row.taskId := by
          refine ⟨due, ?_, ?_⟩
          · rw [user', reminds.2.1, ← user, stamp.user]
          · rw [task', reminds.2.2, ← task, stamp.task]
        have stale := not_standing listed stored' mine
        simp only [isStanding, Bool.or_eq_false_iff, decide_eq_false_iff_not, not_le] at stale
        rw [← time]
        refine ⟨?_, stale.2⟩
        intro read
        rw [unread read] at stale
        cases stale.1

/-- The scan from where the first of the due tasks end. -/
theorem scans (stored : WellStored base) {size : Nat} (positive : 0 < size) {done rest : List Task}
    {scan : Scan} (split : sorted dueKey (dueTasks scan.now base) = done ++ rest) {pages : Nat}
    (enough : rest.length < pages) (late : scan.now ≤ now) (same : SameTasks base rows)
    (visited : scan.visited = pairsOf (done.map (scanTask base))) :
    (scanFrom size pages (done.getLast?.map dueKey) scan).Amid marking KeepsReminded
      (fun answer _ _ _ => ∃ scan', answer = some scan' ∧ scan'.visited =
        pairsOf ((sorted dueKey (dueTasks scan'.now base)).map (scanTask base))) now rows [] := by
  induction pages generalizing done rest scan now rows with
  | zero => omega
  | succ pages ih =>
      apply Prog.Amid.bind
      apply Prog.Amid.read
      intro shown changed
      have here := same.trans changed.1
      rw [applyAll_nil, page_of stored here split]
      split
      · rename_i empty
        refine ⟨scan, rfl, ?_⟩
        rw [visited, split, rest_of_empty positive empty, List.append_nil]
      · apply (notifies (pairsOf_nodup stored (page_ids stored split size)) late here).andThen
        rintro batch now' rows' _ ⟨rfl, le, same'⟩
        have through : (scan.add ((rest.take size).map (scanTask base)) batch).visited =
            pairsOf ((done ++ rest.take size).map (scanTask base)) := by
          rw [Scan.add, visited, List.map_append]
          exact (List.flatMap_append).symm
        dsimp only
        split
        · rename_i short
          rw [List.length_map, List.length_take] at short
          refine ⟨_, rfl, ?_⟩
          rw [through, List.take_of_length_le (by omega)]
          exact congrArg (fun tasks => pairsOf (tasks.map (scanTask base))) split.symm
        · rename_i full
          rw [List.length_map, List.length_take] at full
          obtain ⟨cursor, next, reads⟩ := next_cursor split positive (by omega)
          rw [next]
          dsimp only
          rw [← reads]
          have split' : sorted dueKey (dueTasks (scan.add ((rest.take size).map (scanTask base)) batch).now base) =
              (done ++ rest.take size) ++ rest.drop size := by
            rw [List.append_assoc, List.take_append_drop]
            exact split
          apply ih split' _ _ same' through
          · rw [List.length_drop]
            omega
          · exact late.trans le

theorem sends (item : NotificationMailInput) :
    (NotificationMailer.send item).Amid marking KeepsReminded (fun _ _ _ _ => True) now rows W := by
  have template : ∀ task now rows W,
      (NotificationMailer.template item task).Amid marking KeepsReminded (fun _ _ _ _ => True) now rows W := by
    intro task now rows W
    have named : ∀ f : String → Option MailTemplate,
        ((NotificationMailer.actorName item.actorId).bind fun name => Prog.pure (f name)).Amid marking KeepsReminded
          (fun _ _ _ _ => True) now rows W := by
      intro f
      unfold NotificationMailer.actorName
      apply Prog.Amid.bind
      split
      · trivial
      · apply Prog.Amid.read
        intro _ _
        trivial
    unfold NotificationMailer.template
    split
    · exact named _
    · exact named _
    · trivial
  have built : (NotificationMailer.build item).Amid marking KeepsReminded (fun _ _ _ _ => True) now rows W := by
    unfold NotificationMailer.build
    split
    · trivial
    · apply Prog.Amid.bind
      apply Prog.Amid.read
      intro _ _
      split
      · trivial
      · apply Prog.Amid.bind
        apply Prog.Amid.read
        intro _ _
        split
        · trivial
        · exact (template _ _ _ _).andThen fun _ _ _ _ _ => trivial
  refine Prog.Amid.ending (built.andThen (?_ : ∀ message now rows W, True →
    Prog.Amid marking KeepsReminded (fun _ _ _ _ => True) _ now rows W)) ?_ ?_
  · intro message _ _ _ _
    cases message <;> trivial
  · intro _ _ _ _ _
    trivial
  · intro _ _ _ _
    trivial

theorem announces (mailEnabled : Bool) (scan : Scan) :
    (announce mailEnabled scan).Amid marking KeepsReminded (fun _ _ _ _ => True) now rows W := by
  have signals : (forEach (scan.mails.map (·.workspaceId)).eraseDups fun workspaceId =>
      NotificationService.emitUnreadChanged workspaceId
        ((scan.mails.filter (·.workspaceId = workspaceId)).map (·.userId))).Amid marking KeepsReminded
      (fun _ _ _ _ => True) now rows W := by
    apply Prog.Amid.forEach (I := fun _ _ _ => True) trivial
    intro workspaceId _ _ _ _
    apply Prog.Amid.forEach (I := fun _ _ _ => True) trivial
    intro userId _ _ _ _
    trivial
  apply signals.andThen
  intro _ _ _ _ _
  unfold NotificationMailer.sendForCreated
  split
  · trivial
  · apply Prog.Amid.forEach (I := fun _ _ _ => True) trivial
    intro item _ _ _ _
    exact sends item

/-- The whole scan, with pages enough for all tasks. -/
theorem runScan_amid (stored : WellStored base) {size pages : Nat} (positive : 0 < size)
    (enough : (table base : List Task).length < pages) (mailEnabled : Bool) :
    (runScan size pages mailEnabled).Amid marking KeepsReminded
      (fun answer _ _ _ => ∃ scan, answer = some scan ∧ scan.visited =
        pairsOf ((sorted dueKey (dueTasks scan.now base)).map (scanTask base))) now base [] := by
  apply Prog.Amid.bind
  intro clock _
  have few : (sorted dueKey (dueTasks clock.now base)).length < pages := by
    rw [(sorted_perm _).length_eq]
    exact lt_of_le_of_lt (List.length_filter_le _ _) enough
  have start : sorted dueKey (dueTasks ({ now := clock.now } : Scan).now base) =
      [] ++ sorted dueKey (dueTasks clock.now base) := rfl
  apply (scans stored positive start few (le_refl clock.now) (.refl base) rfl).andThen
  rintro _ now' rows' W' ⟨scan, rfl, visited⟩
  apply (announces mailEnabled scan).andThen
  intro _ _ _ _ _
  exact ⟨scan, rfl, visited⟩

end Scanning

section Runs

/-- The rows, the last time read and the scan under way, if there is one. -/
structure ScanState where
  rows : List Row
  now : DateTime
  scan : Option (Thread Row Key Event Input Error (Option Scan)) := none

/-- One scan at a time, on time that does not go back; notifications marked read at any
time; whatever else between the scans, as long as it brings in no reminder. -/
inductive ScanStep (size : Nat) (mailEnabled : Bool) : ScanState → ScanState → Prop where
  | start (s : ScanState) : s.scan = none → ScanStep size mailEnabled s { s with
      scan := some { prog := runScan size ((table s.rows : List Task).length + 1) mailEnabled } }
  | advance (s : ScanState) (x : Input) {t t' : Thread Row Key Event Input Error (Option Scan)}
      {now : DateTime} {rows : List Row} : s.scan = some t → s.now ≤ x.now →
      t.advance Input.now x s.now s.rows = some (now, rows, t') →
      ScanStep size mailEnabled s { rows, now, scan := some t' }
  | finish (s : ScanState) {t : Thread Row Key Event Input Error (Option Scan)} {answer : Option Scan} :
      s.scan = some t → t.prog = .pure answer → ScanStep size mailEnabled s { s with scan := none }
  | markRead (s : ScanState) (where_ : Where Row Notification) (at_ : DateTime) {o : Outcome Row Key Nat} :
      (Statement.updateMany where_ (fun n : Notification => { n with readAt := some at_ }) s.rows :
        Except Error _) = .ok o →
      ScanStep size mailEnabled s { s with rows := applyAll s.rows o.writes }
  | edit (s : ScanState) (rows : List Row) : s.scan = none → WellStored rows → NoNewReminder s.rows rows →
      ScanStep size mailEnabled s { s with rows }

/-- The scan under way started from the same tasks and goes as it should. -/
def OnTheWay (s : ScanState) (t : Thread Row Key Event Input Error (Option Scan)) : Prop :=
  ∃ base, WellStored base ∧ SameTasks base s.rows ∧ t.Amid marking KeepsReminded
    (fun answer _ _ _ => ∃ scan, answer = some scan ∧ scan.visited =
      pairsOf ((sorted dueKey (dueTasks scan.now base)).map (scanTask base))) s.now s.rows

structure Scanned (s : ScanState) : Prop where
  stored : WellStored s.rows
  reminded : Reminded s.now s.rows
  scanning : ∀ t, s.scan = some t → OnTheWay s t

variable {size : Nat} {mailEnabled : Bool} {s s' : ScanState}

theorem Scanned.step (positive : 0 < size) (scanned : Scanned s) (stepped : ScanStep size mailEnabled s s') :
    Scanned s' := by
  obtain ⟨stored, reminded, scanning⟩ := scanned
  cases stepped with
  | start idle =>
      refine ⟨stored, reminded, ?_⟩
      rintro t same
      cases same
      exact ⟨s.rows, stored, .refl _, s.rows, marking.refl _,
        runScan_amid stored positive (Nat.lt_succ_self _) mailEnabled⟩
  | advance x under later moved =>
      obtain ⟨base, storedBase, same, amid⟩ := scanning _ under
      obtain ⟨rest, passed, commits⟩ := amid.advance later moved
      rcases commits with unchanged | ⟨⟨tasks, kept⟩, after⟩
      · subst unchanged
        refine ⟨stored, reminded.later passed, ?_⟩
        rintro t same'
        cases same'
        exact ⟨base, storedBase, same, rest⟩
      · subst after
        refine ⟨tasks.wellStored (stored.keys.applyAll _) stored, (kept reminded).later passed, ?_⟩
        rintro t same'
        cases same'
        exact ⟨base, storedBase, same.trans tasks, rest⟩
  | finish under done =>
      refine ⟨stored, reminded, ?_⟩
      rintro t same
      cases same
  | markRead where_ at_ ran =>
      obtain ⟨tasks, none_⟩ := markedRead ran
      refine ⟨tasks.wellStored (stored.keys.applyAll _) stored, reminded.kept none_, ?_⟩
      rintro t under
      obtain ⟨base, storedBase, same, amid⟩ := scanning t under
      exact ⟨base, storedBase, same.trans tasks, amid.changed ⟨tasks, none_⟩⟩
  | edit rows idle stored' none_ =>
      refine ⟨stored', reminded.kept none_, ?_⟩
      rintro t under
      rw [idle] at under
      cases under

/-- A scan that has ended has been through every due pair once, and one that has not can go
on; no scan goes on forever. Reminders of one user and task are more than a day apart, and
one at most is unread. -/
theorem due_soon_scans (positive : 0 < size) {start : ScanState} (idle : start.scan = none)
    (stored : WellStored start.rows) (reminded : Reminded start.now start.rows)
    (run : Relation.ReflTransGen (ScanStep size mailEnabled) start s) :
    Reminded s.now s.rows ∧
    (∀ t, s.scan = some t → ∀ answer, t.prog = .pure answer → ∃ scan, answer = some scan ∧
      scan.visited.Nodup ∧ ∀ taskId userId,
        (taskId, userId) ∈ scan.visited ↔ DuePair scan.now s.rows taskId userId) ∧
    (∀ t, s.scan = some t → ∀ x, (t.advance Input.now x s.now s.rows).isSome ∨
      (∃ answer, t.prog = .pure answer) ∨ ∃ error, t.prog = .throw error) ∧
    WellFounded fun later earlier : Thread Row Key Event Input Error (Option Scan) =>
      ∃ x now rows now' rows', earlier.advance Input.now x now rows = some (now', rows', later) := by
  have scanned : Scanned s := by
    induction run with
    | refl =>
        refine ⟨stored, reminded, ?_⟩
        intro t under
        rw [idle] at under
        cases under
    | tail _ stepped ih => exact ih.step positive stepped
  refine ⟨scanned.reminded, ?_, ?_, ?_⟩
  · intro t under answer done
    obtain ⟨base, storedBase, same, amid⟩ := scanned.scanning t under
    obtain ⟨_, _, scan, rfl, visited⟩ := amid.ends done
    refine ⟨scan, rfl, ?_, ?_⟩
    · rw [visited]
      apply pairsOf_nodup storedBase
      have due : ((dueTasks scan.now base).map Task.id).Nodup :=
        (ids_nodup storedBase.keys).sublist (List.filter_sublist.map _)
      exact ((sorted_perm _).map _).nodup_iff.mpr due
    · intro taskId userId
      rw [visited, mem_pairsOf]
      unfold DuePair
      rw [same.tasks, same.assignees]
  · intro t _ x
    exact t.advances Input.now x s.now s.rows
  · exact Thread.advance_wellFounded Input.now

end Runs

section Sample

/-- The scan under way, given these values in turn. -/
def ScanState.advances : List Input → ScanState → Option ScanState
  | [], s => some s
  | x :: rest, s => s.scan.bind fun t =>
      (if s.now ≤ x.now then t.advance Input.now x s.now s.rows else none).bind fun moved =>
        ScanState.advances rest { rows := moved.2.1, now := moved.1, scan := some moved.2.2 }

theorem reaches_of_advances {size : Nat} {mailEnabled : Bool} {xs : List Input} {s s' : ScanState}
    (ran : s.advances xs = some s') : Relation.ReflTransGen (ScanStep size mailEnabled) s s' := by
  induction xs generalizing s with
  | nil =>
      cases ran
      exact .refl
  | cons x rest ih =>
      obtain ⟨t, under, ran⟩ := Option.bind_eq_some_iff.mp ran
      obtain ⟨⟨now, rows, t'⟩, moved, ran⟩ := Option.bind_eq_some_iff.mp ran
      rw [Option.ite_none_right_eq_some] at moved
      exact .head (.advance s x under moved.1 moved.2) (ih ran)

def dueCard (id : Id) : Row :=
  .task { id, boardId := "b", columnId := "c", title := id, position := 1000, createdById := "ann", dueDate := some 5000 }

/-- Two cards of Bob's that are due at the same time. -/
def dueRows : List Row := sampleWorkspace ++ [
  .column { id := "c", boardId := "b", name := "To Do", position := 1000 }, dueCard "t1", dueCard "t2",
  .taskAssignee { id := "a1", taskId := "t1", userId := "bob" },
  .taskAssignee { id := "a2", taskId := "t2", userId := "bob" }]

def dueStart : ScanState := { rows := dueRows, now := 0 }

def scanInputs (count : Nat) : List Input :=
  (List.range count).map fun turn => { id := toString turn, now := turn }

/-- Where a scan has ended, with this many pairs behind it. -/
def visitedBy (s : ScanState) : Option Nat :=
  s.scan.bind fun t => t.prog.answer.bind fun answer => answer.map fun scan => scan.visited.length

/-- A scan on pages of one goes through both cards. -/
theorem due_soon_scans_in_turn : ∃ s t scan,
    Relation.ReflTransGen (ScanStep 1 true) dueStart s ∧ s.scan = some t ∧ t.prog = .pure (some scan) ∧
    scan.visited.length = 2 ∧ scan.visited.Nodup ∧ Reminded s.now s.rows := by
  have ends : ((ScanState.advances (scanInputs 19)
      { dueStart with scan := some { prog := runScan 1 3 true } }).bind visitedBy) = some 2 := by
    decide +kernel
  obtain ⟨s, ran, visited⟩ := Option.bind_eq_some_iff.mp ends
  obtain ⟨t, under, answered⟩ := Option.bind_eq_some_iff.mp visited
  obtain ⟨answer, done, two⟩ := Option.bind_eq_some_iff.mp answered
  obtain ⟨scan, rfl, count⟩ := Option.map_eq_some_iff.mp two
  have run : Relation.ReflTransGen (ScanStep 1 true) dueStart s :=
    .head (.start dueStart rfl) (reaches_of_advances ran)
  have none_ : (table dueStart.rows : List Notification) = [] := by decide +kernel
  have reminded : Reminded dueStart.now dueStart.rows := by
    constructor <;> simp [none_]
  have stored : WellStored dueStart.rows := by
    constructor
    · decide +kernel
    · decide +kernel
  obtain ⟨kept, ended, _⟩ := due_soon_scans (by decide) rfl stored reminded run
  obtain ⟨_, same, once, _⟩ := ended t under _ (of_answer done)
  cases same
  exact ⟨s, t, scan, run, under, of_answer done, count, once, kept⟩

end Sample
end Kurul
