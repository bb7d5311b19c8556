import Kurul.Machine

/-! The attachments of the task that a panel shows: a list read for each task it is opened on,
and writes that set the list they captured, with their own change, when they return. -/
namespace Kurul.Client

structure AttachmentRow (κ T : Type) where
  id : κ
  taskId : T
  deriving DecidableEq

inductive AttachmentChange (κ : Type) where
  /-- `upload` or `addLink`. -/
  | create
  | remove (id : κ)
  deriving DecidableEq

inductive Outcome (κ : Type) where
  | created (id : κ)
  | removed (id : κ)
  | refused
  deriving DecidableEq

/-- A write on its way, with the list it captured. -/
structure AttachmentWrite (κ T : Type) where
  taskId : T
  current : List (AttachmentRow κ T)
  change : AttachmentChange κ
  answer : Option (Outcome κ) := none
  deriving DecidableEq

structure ListRead (κ T : Type) where
  taskId : T
  answer : Option (List (AttachmentRow κ T)) := none
  deriving DecidableEq

/-- A count that went to the board card, and the task's attachments at that time. -/
structure CountReport (T : Type) where
  taskId : T
  attachmentCount : Nat
  actual : Nat
  deriving DecidableEq

structure TaskAttachments (κ T : Type) where
  /-- The attachments on the server, the newest first. -/
  server : List (AttachmentRow κ T)
  /-- All ids that have been given out. -/
  issued : List κ
  taskId : Option T := none
  attachments : List (AttachmentRow κ T) := []
  loadedTaskId : Option T := none
  failedTaskId : Option T := none
  /-- The list read on its way; a switch aborts it. -/
  read : Option (ListRead κ T) := none
  writes : List (AttachmentWrite κ T) := []
  /-- The rows that responses have brought. -/
  confirmed : List (AttachmentRow κ T) := []
  reports : List (CountReport T) := []
  deriving DecidableEq

inductive AttachmentMove (κ T : Type) where
  | switch (taskId : Option T)
  | serveRead
  | listed
  | listFailed
  | upload
  | addLink
  | remove (id : κ)
  | create (write : AttachmentWrite κ T) (id : κ)
  | delete (write : AttachmentWrite κ T)
  | refuse (write : AttachmentWrite κ T)
  | written (write : AttachmentWrite κ T)
  | lost (write : AttachmentWrite κ T)
  deriving DecidableEq

variable {κ T : Type} [DecidableEq κ] [DecidableEq T]

/-- The list that a write sets, where it succeeds. -/
def AttachmentWrite.next (write : AttachmentWrite κ T) : Outcome κ → Option (List (AttachmentRow κ T))
  | .created id => some ({ id, taskId := write.taskId } :: write.current)
  | .removed id => some (write.current.filter (·.id ≠ id))
  | .refused => none

def Outcome.rows (taskId : T) : Outcome κ → List (AttachmentRow κ T)
  | .created id => [{ id, taskId }]
  | .removed _ | .refused => []

namespace TaskAttachments

def ofTask (server : List (AttachmentRow κ T)) (taskId : T) : List (AttachmentRow κ T) := server.filter (·.taskId = taskId)

/-- The list, but only for the task it was read for. -/
def rows (s : TaskAttachments κ T) : List (AttachmentRow κ T) := if s.loadedTaskId = s.taskId then s.attachments else []

def loadFailed (s : TaskAttachments κ T) : Bool := s.failedTaskId.isSome && s.failedTaskId = s.taskId

/-- A write starts with the list that is shown. -/
def start (s : TaskAttachments κ T) (change : AttachmentChange κ) : Option (TaskAttachments κ T) :=
  s.taskId.map fun taskId => { s with writes := s.writes ++ [{ taskId, current := s.rows, change }] }

def answered (s : TaskAttachments κ T) (write : AttachmentWrite κ T) (outcome : Outcome κ) : TaskAttachments κ T :=
  { s with writes := s.writes.erase write ++ [{ write with answer := some outcome }] }

def step (s : TaskAttachments κ T) : AttachmentMove κ T → Option (TaskAttachments κ T)
  | .switch taskId => if taskId = s.taskId then some s
      else some { s with taskId, read := taskId.map fun taskId => { taskId } }
  | .serveRead => s.read.bind fun read => if read.answer.isNone then
      some { s with read := some { read with answer := some (ofTask s.server read.taskId) } } else none
  | .listed => s.read.bind fun read => read.answer.map fun rows =>
      { s with
        failedTaskId := none
        attachments := rows
        loadedTaskId := some read.taskId
        read := none
        confirmed := s.confirmed ++ rows }
  | .listFailed => s.read.map fun read => { s with failedTaskId := some read.taskId, read := none }
  | .upload | .addLink => s.start .create
  | .remove id => if id ∈ s.rows.map (·.id) then s.start (.remove id) else none
  | .create write id =>
      if write ∈ s.writes ∧ write.answer = none ∧ write.change = .create ∧ id ∉ s.issued then
        some { s.answered write (.created id) with
          server := { id, taskId := write.taskId } :: s.server
          issued := id :: s.issued }
      else none
  | .delete write => match write.change with
      | .create => none
      | .remove id =>
          if write ∈ s.writes ∧ write.answer = none ∧ id ∈ s.server.map (·.id) then
            some { s.answered write (.removed id) with server := s.server.filter (·.id ≠ id) }
          else none
  | .refuse write => if write ∈ s.writes ∧ write.answer = none then some (s.answered write .refused) else none
  | .written write => if write ∈ s.writes then write.answer.map fun outcome => match write.next outcome with
      | some next => { s with
          attachments := next
          writes := s.writes.erase write
          confirmed := s.confirmed ++ outcome.rows write.taskId
          reports := s.reports ++ [{
            taskId := write.taskId, attachmentCount := next.length, actual := (ofTask s.server write.taskId).length }] }
      | none => { s with writes := s.writes.erase write } else none
  | .lost write => if write ∈ s.writes then some { s with writes := s.writes.erase write } else none

/-- The requests for the open task have completed, and its list has been read. -/
def Completed (s : TaskAttachments κ T) : Prop :=
  s.read = none ∧ s.loadFailed = false ∧ ∀ write ∈ s.writes, s.taskId ≠ some write.taskId

structure Own (s : TaskAttachments κ T) : Prop where
  belongs : ∀ row ∈ s.rows, s.taskId = some row.taskId
  complete : s.Completed → ∀ row ∈ s.confirmed, s.taskId = some row.taskId → row ∈ s.server → row ∈ s.rows
  counts : ∀ report ∈ s.reports, report.attachmentCount = report.actual

/-- A write starts where the panel shows the task's attachments and no other write for the task
is on its way, and returns where the list is its task's; a list read has all that has been
confirmed since. -/
def Orderly (s : TaskAttachments κ T) : AttachmentMove κ T → Prop
  | .upload | .addLink | .remove _ =>
      ∀ taskId ∈ s.taskId, s.rows = ofTask s.server taskId ∧ ∀ write ∈ s.writes, write.taskId ≠ taskId
  | .written write => ∀ outcome ∈ write.answer, (write.next outcome).isSome → s.loadedTaskId = some write.taskId
  | .listed => ∀ read ∈ s.read, ∀ rows ∈ read.answer,
      ∀ row ∈ s.confirmed, row.taskId = read.taskId → row ∈ s.server → row ∈ rows
  | _ => True

/-- The captured list is the task's, up to what the write itself has done. -/
structure Stands (server : List (AttachmentRow κ T)) (write : AttachmentWrite κ T) : Prop where
  list : (write.answer.bind write.next).getD write.current = ofTask server write.taskId
  shown : ∀ id, write.change = .remove id → id ∈ write.current.map (·.id)

structure Kept (s : TaskAttachments κ T) : Prop where
  ids : (s.server.map (·.id)).Nodup
  issued : ∀ row, row ∈ s.server ∨ row ∈ s.confirmed → row.id ∈ s.issued
  owned : ∀ row ∈ s.attachments, s.loadedTaskId = some row.taskId
  confirmed : ∀ row ∈ s.confirmed, s.loadedTaskId = some row.taskId → row ∈ s.server → row ∈ s.attachments
  read : ∀ read ∈ s.read, s.taskId = some read.taskId ∧
    ∀ rows ∈ read.answer, ∀ row ∈ rows, row.taskId = read.taskId ∧ row.id ∈ s.issued
  loading : s.taskId = none ∨ s.read.isSome ∨ s.failedTaskId = s.taskId ∨ s.loadedTaskId = s.taskId
  writes : ∀ write ∈ s.writes, Stands s.server write
  apart : (s.writes.map (·.taskId)).Nodup
  counts : ∀ report ∈ s.reports, report.attachmentCount = report.actual

variable {s next : TaskAttachments κ T} {move : AttachmentMove κ T} {write : AttachmentWrite κ T}

omit [DecidableEq κ] in
theorem mem_ofTask {server : List (AttachmentRow κ T)} {taskId : T} {row : AttachmentRow κ T} :
    row ∈ ofTask server taskId ↔ row ∈ server ∧ row.taskId = taskId := by
  simp [ofTask, List.mem_filter]

theorem Kept.own (kept : s.Kept) : s.Own where
  belongs := by
    intro row member
    unfold rows at member
    split at member
    · rename_i here
      exact here ▸ kept.owned row member
    · cases member
  complete := by
    rintro ⟨done, loaded, _⟩ row known own there
    have here : s.loadedTaskId = s.taskId := by
      rcases kept.loading with none_ | reading | failed | here
      · cases none_.symm.trans own
      · simp [done] at reading
      · simp [loadFailed, failed, own] at loaded
      · exact here
    rw [rows, if_pos here]
    exact kept.confirmed row known (here.trans own) there
  counts := kept.counts

/-- One write at a time for each task. -/
theorem Kept.other (kept : s.Kept) (sent : write ∈ s.writes) {other : AttachmentWrite κ T}
    (left : other ∈ s.writes.erase write) : other ∈ s.writes ∧ other.taskId ≠ write.taskId := by
  have nodup : s.writes.Nodup := List.Nodup.of_map _ kept.apart
  obtain ⟨different, member⟩ := nodup.mem_erase_iff.mp left
  exact ⟨member, fun same => different (List.inj_on_of_nodup_map kept.apart member sent same)⟩

theorem apart_answered (kept : s.Kept) (sent : write ∈ s.writes) (outcome : Outcome κ) :
    ((s.answered write outcome).writes.map (·.taskId)).Nodup := by
  have perm : ((s.answered write outcome).writes.map (·.taskId)).Perm (s.writes.map (·.taskId)) := by
    have split := (List.perm_cons_erase sent).map (·.taskId)
    refine List.Perm.trans ?_ split.symm
    simp [answered]
  exact perm.nodup_iff.mpr kept.apart

theorem Kept.apart_erase (kept : s.Kept) : ((s.writes.erase write).map (·.taskId)).Nodup :=
  kept.apart.sublist (List.erase_sublist.map _)

theorem Kept.started (kept : s.Kept) {change : AttachmentChange κ}
    (orderly : ∀ taskId ∈ s.taskId, s.rows = ofTask s.server taskId ∧ ∀ write ∈ s.writes, write.taskId ≠ taskId)
    (shown : ∀ id, change = .remove id → id ∈ s.rows.map (·.id)) (started : s.start change = some next) : next.Kept := by
  obtain ⟨taskId, here, rfl⟩ := Option.map_eq_some_iff.mp started
  obtain ⟨list, free⟩ := orderly taskId here
  refine { kept with writes := ?_, apart := ?_ }
  · intro other member
    rcases List.mem_append.mp member with old | new
    · exact kept.writes other old
    · obtain rfl := List.mem_singleton.mp new
      exact ⟨list, shown⟩
  · simp only [List.map_append, List.map_cons, List.map_nil]
    refine List.nodup_append.mpr ⟨kept.apart, List.nodup_singleton _, ?_⟩
    rintro _ old _ new rfl
    obtain ⟨other, member, same⟩ := List.mem_map.mp old
    exact free other member (same.trans (List.mem_singleton.mp new))

theorem Kept.erase (kept : s.Kept) (sent : write ∈ s.writes) :
    ({ s with writes := s.writes.erase write } : TaskAttachments κ T).Kept :=
  { kept with
    writes := fun other left => kept.writes other (kept.other sent left).1
    apart := kept.apart_erase }

theorem Stands.current {server : List (AttachmentRow κ T)} (stands : Stands server write)
    (unanswered : write.answer = none) :
    write.current = ofTask server write.taskId := by
  have list := stands.list
  rw [unanswered] at list
  exact list

/-- An attachment that is removed is one of the write's task. -/
theorem Kept.own_row (kept : s.Kept) (sent : write ∈ s.writes) (unanswered : write.answer = none) {id : κ}
    (change : write.change = .remove id) {row : AttachmentRow κ T} (there : row ∈ s.server) (same : row.id = id) :
    row.taskId = write.taskId := by
  have stands := kept.writes write sent
  obtain ⟨listed, member, same'⟩ := List.mem_map.mp (stands.shown id change)
  obtain ⟨there', own⟩ := mem_ofTask.mp (stands.current unanswered ▸ member)
  rw [List.inj_on_of_nodup_map kept.ids there there' (same.trans same'.symm)]
  exact own

/-- What a write does on the server leaves the lists of the other tasks. -/
theorem Kept.answered_stand (kept : s.Kept) (sent : write ∈ s.writes) (unanswered : write.answer = none)
    {server : List (AttachmentRow κ T)} {outcome : Outcome κ}
    (others : ∀ taskId, taskId ≠ write.taskId → ofTask server taskId = ofTask s.server taskId)
    (list : (write.next outcome).getD (ofTask s.server write.taskId) = ofTask server write.taskId) :
    ∀ other ∈ (s.answered write outcome).writes, Stands server other := by
  intro other member
  have stands := kept.writes write sent
  rcases List.mem_append.mp member with left | new
  · obtain ⟨old, apart⟩ := kept.other sent left
    refine ⟨?_, (kept.writes other old).shown⟩
    rw [others other.taskId apart]
    exact (kept.writes other old).list
  · obtain rfl := List.mem_singleton.mp new
    refine ⟨?_, stands.shown⟩
    rw [← stands.current unanswered] at list
    exact list

theorem Kept.create (kept : s.Kept) (sent : write ∈ s.writes) (unanswered : write.answer = none) {id : κ}
    (new : id ∉ s.issued) :
    ({ s.answered write (.created id) with
      server := { id, taskId := write.taskId } :: s.server
      issued := id :: s.issued } : TaskAttachments κ T).Kept := by
  refine { kept with
      ids := ?_, issued := ?_, confirmed := ?_, read := ?_, writes := ?_, apart := apart_answered kept sent _ }
  · refine List.nodup_cons.mpr ⟨?_, kept.ids⟩
    intro taken
    obtain ⟨row, there, same⟩ := List.mem_map.mp taken
    have same : row.id = id := same
    exact new (same ▸ kept.issued row (.inl there))
  · rintro row (there | known)
    · rcases List.mem_cons.mp there with rfl | old
      · exact List.mem_cons_self
      · exact List.mem_cons_of_mem _ (kept.issued row (.inl old))
    · exact List.mem_cons_of_mem _ (kept.issued row (.inr known))
  · intro row known own there
    rcases List.mem_cons.mp there with rfl | old
    · exact absurd (kept.issued _ (.inr known)) new
    · exact kept.confirmed row known own old
  · intro read there
    obtain ⟨here, served⟩ := kept.read read there
    refine ⟨here, ?_⟩
    intro rows answered row member
    obtain ⟨own, known⟩ := served rows answered row member
    exact ⟨own, List.mem_cons_of_mem _ known⟩
  · apply kept.answered_stand sent unanswered
    · intro taskId apart
      exact List.filter_cons_of_neg (by simpa using apart.symm)
    · rw [AttachmentWrite.next, Option.getD_some, (kept.writes write sent).current unanswered]
      exact (List.filter_cons_of_pos (by simp)).symm

theorem Kept.delete (kept : s.Kept) (sent : write ∈ s.writes) (unanswered : write.answer = none) {id : κ}
    (change : write.change = .remove id) :
    ({ s.answered write (.removed id) with server := s.server.filter (·.id ≠ id) } : TaskAttachments κ T).Kept := by
  refine { kept with ids := ?_, issued := ?_, confirmed := ?_, writes := ?_, apart := apart_answered kept sent _ }
  · exact kept.ids.sublist (List.filter_sublist.map _)
  · rintro row (there | known)
    · exact kept.issued row (.inl (List.mem_filter.mp there).1)
    · exact kept.issued row (.inr known)
  · exact fun row known own there => kept.confirmed row known own (List.mem_filter.mp there).1
  · apply kept.answered_stand sent unanswered
    · intro taskId apart
      rw [ofTask, ofTask, List.filter_filter]
      apply List.filter_congr
      intro row there
      by_cases same : row.id = id
      · have own := kept.own_row sent unanswered change there same
        simp [same, own, apart.symm]
      · simp [same]
    · rw [AttachmentWrite.next, Option.getD_some, (kept.writes write sent).current unanswered]
      simp only [ofTask, List.filter_filter, Bool.and_comm]

theorem Kept.refuse (kept : s.Kept) (sent : write ∈ s.writes) (unanswered : write.answer = none) :
    (s.answered write .refused).Kept :=
  { kept with
    writes := kept.answered_stand sent unanswered (fun _ _ => rfl) rfl
    apart := apart_answered kept sent _ }

/-- The list that is set is the task's. -/
theorem Kept.written (kept : s.Kept) (sent : write ∈ s.writes) {outcome : Outcome κ}
    (answered : write.answer = some outcome)
    {list : List (AttachmentRow κ T)} (next : write.next outcome = some list)
    (loaded : s.loadedTaskId = some write.taskId) :
    ({ s with
      attachments := list
      writes := s.writes.erase write
      confirmed := s.confirmed ++ outcome.rows write.taskId
      reports := s.reports ++ [{
        taskId := write.taskId
        attachmentCount := list.length
        actual := (ofTask s.server write.taskId).length }] } : TaskAttachments κ T).Kept := by
  have whole := (kept.writes write sent).list
  rw [answered, Option.bind_some, next, Option.getD_some] at whole
  subst whole
  have erased := kept.erase sent
  refine { erased with issued := ?_, owned := ?_, confirmed := ?_, counts := ?_ }
  · rintro row (there | known)
    · exact kept.issued row (.inl there)
    · rcases List.mem_append.mp known with old | new
      · exact kept.issued row (.inr old)
      · cases outcome with
        | created id =>
            obtain rfl := List.mem_singleton.mp new
            have front : ({ id, taskId := write.taskId } : AttachmentRow κ T) ∈ ofTask s.server write.taskId := by
              rw [← Option.some.inj next]
              exact List.mem_cons_self
            exact kept.issued _ (.inl (mem_ofTask.mp front).1)
        | removed id => cases new
        | refused => cases new
  · intro row member
    exact loaded.trans (congrArg some (mem_ofTask.mp member).2.symm)
  · intro row _ own there
    exact mem_ofTask.mpr ⟨there, (Option.some.inj (loaded.symm.trans own)).symm⟩
  · intro report member
    rcases List.mem_append.mp member with old | new
    · exact kept.counts report old
    · obtain rfl := List.mem_singleton.mp new
      rfl

theorem Kept.step (kept : s.Kept) (orderly : s.Orderly move) (stepped : s.step move = some next) : next.Kept := by
  cases move with
  | switch taskId =>
      simp only [TaskAttachments.step] at stepped
      split at stepped
      · cases stepped
        exact kept
      · cases stepped
        refine { kept with read := ?_, loading := ?_ }
        · intro read there
          obtain ⟨task, here, rfl⟩ := Option.map_eq_some_iff.mp there
          exact ⟨here, by simp⟩
        · cases taskId with
          | none => exact .inl rfl
          | some _ => exact .inr (.inl rfl)
  | serveRead =>
      obtain ⟨read, there, stepped⟩ := Option.bind_eq_some_iff.mp stepped
      split at stepped
      · cases stepped
        refine { kept with read := ?_, loading := .inr (.inl rfl) }
        rintro _ ⟨⟩
        refine ⟨(kept.read read there).1, ?_⟩
        rintro _ ⟨⟩ row member
        obtain ⟨known, own⟩ := mem_ofTask.mp member
        exact ⟨own, kept.issued row (.inl known)⟩
      · cases stepped
  | listed =>
      obtain ⟨read, there, stepped⟩ := Option.bind_eq_some_iff.mp stepped
      obtain ⟨rows, answered, rfl⟩ := Option.map_eq_some_iff.mp stepped
      obtain ⟨here, served⟩ := kept.read read there
      refine { kept with
        issued := ?_
        owned := fun row member => congrArg some (served rows answered row member).1.symm
        confirmed := ?_
        read := by simp
        loading := .inr (.inr (.inr here.symm)) }
      · intro row known
        rcases known with on | confirmed
        · exact kept.issued row (.inl on)
        · rcases List.mem_append.mp confirmed with old | new
          · exact kept.issued row (.inr old)
          · exact (served rows answered row new).2
      · intro row confirmed own still
        rcases List.mem_append.mp confirmed with old | new
        · exact orderly read there rows answered row old (Option.some.inj own).symm still
        · exact new
  | listFailed =>
      obtain ⟨read, there, rfl⟩ := Option.map_eq_some_iff.mp stepped
      exact { kept with read := by simp, loading := .inr (.inr (.inl (kept.read read there).1.symm)) }
  | upload => exact kept.started orderly (by simp) stepped
  | addLink => exact kept.started orderly (by simp) stepped
  | remove id =>
      simp only [TaskAttachments.step] at stepped
      split at stepped
      · rename_i shown
        refine kept.started orderly ?_ stepped
        rintro _ ⟨⟩
        exact shown
      · cases stepped
  | create write id =>
      simp only [TaskAttachments.step] at stepped
      split at stepped
      · rename_i allowed
        cases stepped
        exact kept.create allowed.1 allowed.2.1 allowed.2.2.2
      · cases stepped
  | delete write =>
      simp only [TaskAttachments.step] at stepped
      split at stepped
      · cases stepped
      · rename_i id change
        split at stepped
        · rename_i allowed
          cases stepped
          exact kept.delete allowed.1 allowed.2.1 change
        · cases stepped
  | refuse write =>
      simp only [TaskAttachments.step] at stepped
      split at stepped
      · rename_i allowed
        cases stepped
        exact kept.refuse allowed.1 allowed.2
      · cases stepped
  | written write =>
      simp only [TaskAttachments.step] at stepped
      split at stepped
      · rename_i sent
        obtain ⟨outcome, answered, stepped⟩ := Option.map_eq_some_iff.mp stepped
        cases list : write.next outcome with
        | none =>
            rw [list] at stepped
            cases stepped
            exact kept.erase sent
        | some rows =>
            rw [list] at stepped
            cases stepped
            exact kept.written sent answered list (orderly outcome answered (by simp [list]))
      · cases stepped
  | lost write =>
      simp only [TaskAttachments.step] at stepped
      split at stepped
      · rename_i sent
        cases stepped
        exact kept.erase sent
      · cases stepped

/-- Where the writes are orderly, the panel shows the open task's attachments. -/
theorem panel_shows_own (server : List (AttachmentRow κ T)) (issued : List κ) (ids : (server.map (·.id)).Nodup)
    (known : ∀ row ∈ server, row.id ∈ issued) (moves : List (AttachmentMove κ T)) (s : TaskAttachments κ T)
    (ran : Machine.run step { server, issued } moves = some s)
    (orderly : Machine.Meets step Orderly { server, issued } moves) : s.Own := by
  have start : ({ server, issued } : TaskAttachments κ T).Kept := by
    constructor <;> simp [ids]
    exact known
  exact (Machine.run_keeps (fun _ _ _ kept orderly stepped => kept.step orderly stepped) start orderly ran).own

/-- An upload to the first task returns when the second one is shown. -/
def switched : List (AttachmentMove Nat Nat) :=
  let upload : AttachmentWrite Nat Nat := { taskId := 1, current := [], change := .create }
  [.switch (some 1), .serveRead, .listed, .upload, .create upload 0, .switch (some 2), .serveRead, .listed,
    .written { upload with answer := some (.created 0) }]

theorem upload_follows_switch :
    ¬ ∀ (server : List (AttachmentRow Nat Nat)) (issued : List Nat), (server.map (·.id)).Nodup →
      (∀ row ∈ server, row.id ∈ issued) → ∀ (moves : List (AttachmentMove Nat Nat)) (s : TaskAttachments Nat Nat),
        Machine.run step { server, issued } moves = some s → s.Own := by
  intro claim
  have ran : (Machine.run step ({ server := [], issued := [] } : TaskAttachments Nat Nat) switched).any fun s =>
      s.rows.contains { id := 0, taskId := 1 } && decide (s.taskId = some 2) := by
    decide +kernel
  obtain ⟨s, reached, holds⟩ := (Option.any_eq_true ..).mp ran
  simp only [Bool.and_eq_true, decide_eq_true_eq, List.contains_iff_mem] at holds
  have own := (claim [] [] List.nodup_nil (by simp) switched s reached).belongs _ holds.1
  cases holds.2.symm.trans own

instance (s : TaskAttachments κ T) (move : AttachmentMove κ T) : Decidable (s.Orderly move) :=
  match move with
  | .upload | .addLink | .remove _ => inferInstanceAs (Decidable (∀ taskId ∈ s.taskId,
      s.rows = ofTask s.server taskId ∧ ∀ write ∈ s.writes, write.taskId ≠ taskId))
  | .written write => inferInstanceAs (Decidable (∀ outcome ∈ write.answer,
      (write.next outcome).isSome → s.loadedTaskId = some write.taskId))
  | .listed => inferInstanceAs (Decidable (∀ read ∈ s.read, ∀ rows ∈ read.answer,
      ∀ row ∈ s.confirmed, row.taskId = read.taskId → row ∈ s.server → row ∈ rows))
  | .switch _ | .serveRead | .listFailed | .create .. | .delete _ | .refuse _ | .lost _ => inferInstanceAs (Decidable True)

/-- An upload and a removal, and the next task. -/
def inTurn : List (AttachmentMove Nat Nat) :=
  let upload : AttachmentWrite Nat Nat := { taskId := 1, current := [], change := .create }
  let removal : AttachmentWrite Nat Nat := { taskId := 1, current := [⟨0, 1⟩], change := .remove 0 }
  [.switch (some 1), .serveRead, .listed, .upload, .create upload 0, .written { upload with answer := some (.created 0) },
    .remove 0, .delete removal, .written { removal with answer := some (.removed 0) }, .switch (some 2),
      .serveRead, .listed]

theorem panel_shows_own_in_turn :
    ∃ s, Machine.run step ({ server := [⟨7, 2⟩], issued := [7] } : TaskAttachments Nat Nat) inTurn = some s ∧ s.Own := by
  have ran : (Machine.run step ({ server := [⟨7, 2⟩], issued := [7] } : TaskAttachments Nat Nat) inTurn).isSome := by
    decide +kernel
  obtain ⟨s, reached⟩ := Option.isSome_iff_exists.mp ran
  refine ⟨s, reached, panel_shows_own _ _ (by decide) (by decide) inTurn s reached ?_⟩
  exact Machine.meets_of_checks (fun s move => decide (s.Orderly move)) (fun _ _ => of_decide_eq_true)
    (by decide +kernel)

end TaskAttachments
end Kurul.Client
