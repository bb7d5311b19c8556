import Kurul.Audit.Trail
import Kurul.Store.SerialOrder
import Kurul.Task.TaskService

/-! The edits of one task under interleaved updates. Each field ends as the last update that
sent it says, in an order that agrees with time. What an update puts on record it has worked
out before its transaction, from a row that another may have changed since. -/
namespace Kurul

open Store Prog

def taskFields (task : Task) : Fields :=
  [("title", .text task.title), ("description", Json.ofOption .text task.description),
    ("priority", .text task.priority.text), ("dueDate", Json.ofOption .time task.dueDate),
    ("estimatedMinutes", Json.ofOption .number task.estimatedMinutes)]

def sentField (field : String) (json : α → Json) (sent : Option α) : Fields :=
  (sent.map fun value => (field, json value)).toList

/-- What a request sends. -/
def UpdateTaskDto.sent (dto : UpdateTaskDto) : Fields :=
  sentField "title" .text dto.title ++ sentField "description" (Json.ofOption .text) dto.description ++
    sentField "priority" (fun priority => .text priority.text) dto.priority ++
    sentField "dueDate" (Json.ofOption .time) (parseDueDate dto.dueDate).toOption.join ++
    sentField "estimatedMinutes" (Json.ofOption .number) dto.estimatedMinutes

/-- The fields with the sent ones in their place. -/
def overwrite (fields sent : Fields) : Fields :=
  fields.map fun (field, value) => (field, (sent.lookup field).getD value)

/-- The fields that differ, with their new values. -/
def altered (before after : Fields) : List (String × Json) :=
  (changesBetween before after).map fun (field, _, value) => (field, value)

/-- The entry lists exactly what was altered. -/
def ListsNew : Option Fields → Activity → Option Fields → Prop
  | some before, entry, some after =>
      before.map Prod.fst = after.map Prod.fst ∧
        entry.payload.lookup "changes" = some (.changed (altered before after))
  | _, _, _ => False

/-- The fields of a task, and its edits. -/
def editTrail (taskId : Id) : Journal Row (Option Fields) Activity where
  state rows := ((table rows : List Task).find? (·.id = taskId)).map taskFields
  entries rows := (table rows : List Activity).filter fun entry =>
    entry.type = .TaskUpdated && entry.taskId = some taskId
  tells := ListsNew

structure UpdateTaskCall where
  workspaceId : Id
  userId : Id
  dto : UpdateTaskDto

def UpdateTaskCall.service (call : UpdateTaskCall) (taskId : Id) : Service TaskDto :=
  TaskService.update call.workspaceId taskId call.userId call.dto

/-- An update by what it sends. -/
def UpdateTaskCall.effect (call : UpdateTaskCall) : Option Fields → Option Fields :=
  Option.map (overwrite · call.dto.sent)

section Fields

variable {field name : String} {json : α → Json}

theorem lookup_cons {β : Type} (name : String) (value : β) (rest : List (String × β)) :
    ((name, value) :: rest).lookup field = if field = name then some value else rest.lookup field := by
  by_cases same : field = name
  · simp [same]
  · have apart : (field == name) = false := by simpa using same
    simp [List.lookup, apart, same]

theorem lookup_append {β : Type} (first second : List (String × β)) :
    (first ++ second).lookup field = (first.lookup field).or (second.lookup field) := by
  induction first with
  | nil => simp
  | cons head rest ih =>
      rw [List.cons_append, lookup_cons, lookup_cons, ih]
      split <;> simp

theorem lookup_sentField (sent : Option α) :
    (sentField name json sent).lookup field = if field = name then sent.map json else none := by
  cases sent with
  | none => simp [sentField]
  | some value => exact lookup_cons name (json value) []

theorem lookup_overwrite (fields sent : Fields) :
    (overwrite fields sent).lookup field =
      (fields.lookup field).map fun value => (sent.lookup field).getD value := by
  induction fields with
  | nil => rfl
  | cons head rest ih =>
      rw [lookup_cons, overwrite, List.map_cons, lookup_cons]
      by_cases same : field = head.1
      · simp [same]
      · rw [if_neg same, if_neg same]
        exact ih

/-- The last of the programs that sends a field decides it. -/
theorem lookup_foldl_overwrite {ι : Type} (sent : ι → Fields) (order : List ι) (before : Fields) :
    ∃ after, order.foldl (fun fields i => fields.map (overwrite · (sent i))) (some before) = some after ∧
      ∀ field, after.lookup field = (before.lookup field).map fun value =>
        (order.reverse.findSome? fun i => (sent i).lookup field).getD value := by
  induction order generalizing before with
  | nil => exact ⟨before, rfl, by simp⟩
  | cons i rest ih =>
      obtain ⟨after, same, fields⟩ := ih (overwrite before (sent i))
      refine ⟨after, same, fun field => ?_⟩
      rw [fields, lookup_overwrite, List.reverse_cons, List.findSome?_append]
      cases rest.reverse.findSome? fun i => (sent i).lookup field <;>
        simp [Option.map_map, Function.comp_def]

theorem ofOption_injective (injective : Function.Injective json) (apart : ∀ value, json value ≠ .null) :
    Function.Injective (Json.ofOption json) := by
  rintro (_ | a) (_ | b) same
  · rfl
  · exact absurd same.symm (apart b)
  · exact absurd same (apart a)
  · exact congrArg some (injective same)

theorem Priority.text_injective : Function.Injective Priority.text := by
  rintro a b same
  cases a <;> cases b <;> first | rfl | exact absurd same (by decide)

/-- A field is listed where its value becomes another one. -/
theorem changed_eq [DecidableEq α] (injective : Function.Injective json) (sent : Option α) (existing : α) :
    changed field json sent existing =
      if json existing ≠ json (sent.getD existing) then [(field, json (sent.getD existing))] else [] := by
  cases sent with
  | none => simp [changed]
  | some value => simp [changed, injective.eq_iff, eq_comm]

end Fields

section Plan

variable {existing : Task} {dto : UpdateTaskDto} {data : TaskPatch} {changes : List (String × Json)}

theorem altered_cons {before after : Fields} {name : String} {old new : Json} :
    altered ((name, old) :: before) ((name, new) :: after) =
      (if old ≠ new then [(name, new)] else []) ++ altered before after := by
  rw [altered, changesBetween_cons, List.map_append]
  split <;> rfl

/-- A field that is listed has its new value afterwards, and had another one before. -/
theorem mem_altered {before after : Fields} (names : before.map Prod.fst = after.map Prod.fst)
    (distinct : (before.map Prod.fst).Nodup) {field : String} {value : Json}
    (listed : (field, value) ∈ altered before after) :
    before.lookup field ≠ some value ∧ after.lookup field = some value := by
  induction before generalizing after with
  | nil => simp [altered, changesBetween, fieldChanges] at listed
  | cons first rest ih =>
      obtain ⟨name, old⟩ := first
      cases after with
      | nil => simp at names
      | cons second others =>
          obtain ⟨name', new⟩ := second
          obtain ⟨rfl, aligned⟩ : name = name' ∧ rest.map Prod.fst = others.map Prod.fst := by simpa using names
          obtain ⟨fresh, apart⟩ : name ∉ rest.map Prod.fst ∧ (rest.map Prod.fst).Nodup := by
            simpa [List.nodup_cons] using distinct
          rw [altered_cons, List.mem_append] at listed
          rcases listed with here | later
          · split at here
            · rename_i differ
              cases List.mem_singleton.mp here
              simpa [lookup_cons] using differ
            · cases here
          · obtain ⟨⟨_, _, _⟩, member, same⟩ := List.mem_map.mp later
            cases same
            have elsewhere : field ≠ name := changesBetween_absent fresh _ member
            rw [lookup_cons, lookup_cons, if_neg elsewhere, if_neg elsewhere]
            exact ih aligned apart later

theorem changes_eq (planned : planTaskUpdate existing dto = .ok (data, changes)) (now : DateTime) :
    changes = altered (taskFields existing) (taskFields (data.apply now existing)) := by
  have texts : Function.Injective Json.text := fun _ _ same => Json.text.inj same
  have priorities : Function.Injective fun priority : Priority => Json.text priority.text :=
    fun _ _ same => Priority.text_injective (texts same)
  obtain ⟨dueDate, parsed, done⟩ := Statement.bind_ok planned
  cases done
  rw [changed_eq texts, changed_eq (ofOption_injective texts (by simp)), changed_eq priorities,
    changed_eq (ofOption_injective (fun _ _ same => Json.time.inj same) (by simp)),
    changed_eq (ofOption_injective (fun _ _ same => Json.number.inj same) (by simp))]
  simp only [taskFields, altered_cons, TaskPatch.apply, List.append_assoc]
  simp [altered, changesBetween, fieldChanges]

theorem fields_apply (planned : planTaskUpdate existing dto = .ok (data, changes)) (now : DateTime)
    (task : Task) : taskFields (data.apply now task) = overwrite (taskFields task) dto.sent := by
  obtain ⟨dueDate, parsed, done⟩ := Statement.bind_ok planned
  cases done
  simp [taskFields, overwrite, TaskPatch.apply, UpdateTaskDto.sent, lookup_append, lookup_sentField,
    parsed, Except.toOption, Option.getD_map]

/-- A request that would change nothing. -/
theorem overwrite_same (planned : planTaskUpdate existing dto = .ok (data, changes)) (none_ : changes = []) :
    overwrite (taskFields existing) dto.sent = taskFields existing := by
  have listed := changes_eq planned 0
  rw [none_] at listed
  have unchanged : changesBetween (taskFields existing) (taskFields (data.apply 0 existing)) = [] :=
    List.map_eq_nil_iff.mp listed.symm
  have replayed : replay (taskFields existing)
      (changesBetween (taskFields existing) (taskFields (data.apply 0 existing))) =
        some (taskFields (data.apply 0 existing)) := replay_changesBetween rfl (by simp [taskFields])
  rw [unchanged] at replayed
  rw [← fields_apply planned 0]
  simpa [replay] using replayed.symm

end Plan

section Commit

variable {taskId : Id} {rows : List Row} {task existing : Task} {dto : UpdateTaskDto} {data : TaskPatch}
  {changes : List (String × Json)} {activity : Activity}

theorem editTrail_state (unique : UniqueKeys rows) (stored : toRow task ∈ rows) (own : task.id = taskId) :
    (editTrail taskId).state rows = some (taskFields task) := by
  have found := find?_table_eq unique (fun other : Task => decide (other.id = taskId)) stored
    (by simpa using own) (by
      intro other passes
      have same : other.id = task.id := (of_decide_eq_true passes).trans own.symm
      simp [key, toRow, Row.key, same])
  simp [editTrail, found]

/-- The updated task under its entry. -/
theorem stored_beneath (rows : List Row) (task : Task) (activity : Activity) :
    (toRow task : Row) ∈ applyAll rows [.put (toRow task), .put (toRow activity)] := by
  rw [applyAll, applyAll, applyAll, mem_apply, if_neg]
  · exact mem_applyAll_put rows _
  · simp [Write.target, key, toRow, Row.key]

theorem edit_effect (planned : planTaskUpdate existing dto = .ok (data, changes)) (unique : UniqueKeys rows)
    (stored : toRow task ∈ rows) (own : task.id = taskId) (now : DateTime) :
    (editTrail taskId).state (applyAll rows [.put (toRow (data.apply now task)), .put (toRow activity)]) =
      ((editTrail taskId).state rows).map (overwrite · dto.sent) := by
  rw [editTrail_state (unique.applyAll _) (stored_beneath rows (data.apply now task) activity) own,
    editTrail_state unique stored own, fields_apply planned]
  rfl

/-- The entry is right where the fields are still as they were read. -/
theorem edit_step (planned : planTaskUpdate existing dto = .ok (data, changes)) (unique : UniqueKeys rows)
    (stored : toRow task ∈ rows) (own : task.id = taskId) (still : taskFields task = taskFields existing)
    (absent : ∀ row ∈ rows, key row ≠ Key.activity activity.id) (type : activity.type = .TaskUpdated)
    (about : activity.taskId = some taskId) (listed : activity.payload.lookup "changes" = some (.changed changes))
    (now : DateTime) :
    (editTrail taskId).Step rows (applyAll rows [.put (toRow (data.apply now task)), .put (toRow activity)]) := by
  right
  refine ⟨activity, ?_, ?_⟩
  · have added := table_insert (W := [.put (toRow (data.apply now task) : Row)]) (a := activity)
      (by simp [Write.Elsewhere, Write.target, key, toRow, Row.key]) absent
    simp only [List.singleton_append] at added
    simp [editTrail, added, List.filter_append, type, about]
  · rw [edit_effect planned unique stored own, editTrail_state unique stored own]
    refine ⟨by simp [overwrite, Function.comp_def], ?_⟩
    rw [listed, changes_eq planned now, fields_apply planned, still]

end Commit

section Calls

variable {allow : Assertion Row}

/-- An update takes effect as a whole, and is honest about it where nobody was in between. -/
def UpdateTaskCall.promise (call : UpdateTaskCall) (taskId : Id) : Promise Row Key where
  commit l rows :=
    (editTrail taskId).state (l.view rows) = call.effect ((editTrail taskId).state rows) ∧
      (SinceRead (editTrail taskId).state l rows → (editTrail taskId).Step rows (l.view rows))

theorem verified_updateTask (call : UpdateTaskCall) (taskId : Id) :
    Verified Protocol.unique allow (call.promise taskId) (call.service taskId) {} (fun _ => True)
      fun _ _ _ => True := by
  unfold UpdateTaskCall.service TaskService.update TaskReadService.findTask
  refine Verified.bind (Verified.bind (Verified.found trivial fun view existing uniqueThen _ hit =>
    ⟨fun _ => True, trivial, Stable.const _ _ True, ?_⟩))
  obtain ⟨before, chosen, rfl⟩ := Option.map_eq_some_iff.mp hit
  obtain ⟨ownBefore, _⟩ : before.id = taskId ∧ _ := by simpa [scopedTask] using List.find?_some chosen
  have storedBefore : toRow before ∈ view := mem_table.mp (List.mem_of_find?_eq_some chosen)
  refine Verified.bind (Verified.read trivial (Stable.const _ _ True) fun view₂ _ _ => ?_)
  refine Verified.bind (Verified.ofExcept fun plan planned => ?_)
  obtain ⟨data, changes⟩ := plan
  have planned : planTaskUpdate before call.dto = .ok (data, changes) := planned
  dsimp only
  split
  · trivial
  · refine Verified.bind (Verified.transaction ?_)
    refine Verified.bind (Verified.found trivial fun _ _ _ _ _ =>
      ⟨fun _ => True, trivial, Stable.const _ _ True, ?_⟩)
    refine Verified.bind fun given => ?_
    refine Verified.bind (Verified.query trivial fun rows unique _ o ran => ?_)
    obtain ⟨o', updated, answered, written, _⟩ := including_ok ran
    obtain ⟨task, member, matched, changed, wrote⟩ := Statement.update_ok updated
    obtain ⟨own, _⟩ : task.id = taskId ∧ _ := by simpa [scopedTask] using matched
    have stored : toRow task ∈ rows := mem_table.mp member
    rw [wrote] at written
    have owns : Owns ([] ++ o.footprint) (key (toRow task : Row)) := by
      refine Owns.of_footprint ?_ []
      simp [written, touched, Write.target, key, toRow, Row.key, TaskPatch.apply]
    refine ⟨fun rows => toRow task ∈ rows, stored, Stable.stored _ owns, ?_⟩
    refine Verified.bind (verified_recorded trivial (Stable.stored _ owns) ?_
      fun activity l view₃ type about payload pending seen steady => ?_)
    · simp [Local.ran, written, Write.Elsewhere, Write.target, key, toRow, Row.key]
    refine Verified.bind (Verified.read trivial steady fun view₄ _ _ => ?_)
    intro rows unique' fact _ _
    have shown : l.view rows = applyAll rows [.put (toRow (data.apply given.now task)), .put (toRow activity)] := by
      simp [Local.view, pending, Local.ran, written]
    have took : (editTrail taskId).state (l.view rows) = call.effect ((editTrail taskId).state rows) := by
      rw [shown]
      exact edit_effect planned unique' fact.1 own given.now
    refine ⟨unique'.applyAll _, trivial, ⟨took, fun since => ?_⟩, _, trivial, Stable.const _ _ True, trivial⟩
    have still : some (taskFields task) = some (taskFields before) := by
      rw [← editTrail_state unique' fact.1 own, ← editTrail_state uniqueThen storedBefore ownBefore]
      exact since view (by simp [seen, Local.ran, Local.view])
    have step := edit_step planned unique' fact.1 own (Option.some.inj still) fact.2 type about
      (by rw [payload]; rfl) given.now
    rw [← shown] at step
    exact step

/-- The one point of an update: its commit, or a read that leaves it nothing to do. -/
theorem settles_updateTask (call : UpdateTaskCall) (taskId : Id) :
    Settles UniqueKeys (editTrail taskId).state call.effect (call.service taskId) false [] fun _ placed _ =>
      placed = true := by
  unfold UpdateTaskCall.service TaskService.update TaskReadService.findTask
  refine Settles.bind (Settles.bind (Settles.found fun view existing unique hit => ?_))
  obtain ⟨before, chosen, rfl⟩ := Option.map_eq_some_iff.mp hit
  obtain ⟨own, _⟩ : before.id = taskId ∧ _ := by simpa [scopedTask] using List.find?_some chosen
  have stored : toRow before ∈ view := mem_table.mp (List.mem_of_find?_eq_some chosen)
  by_cases idle : ∃ data, planTaskUpdate before call.dto = .ok (data, [])
  · right
    obtain ⟨data, nothing⟩ := idle
    constructor
    · rw [editTrail_state unique stored own, UpdateTaskCall.effect, Option.map_some, overwrite_same nothing rfl]
    · refine Settles.bind (Settles.query fun _ _ _ _ => ?_)
      refine Settles.bind (Settles.ofExcept fun plan planned => ?_)
      have same : Except.ok plan = Except.ok (data, []) := planned.symm.trans nothing
      cases same
      rfl
  · left
    refine Settles.bind (Settles.query fun _ _ o ran => ?_)
    cases ran
    refine Settles.bind (Settles.ofExcept fun plan planned => ?_)
    obtain ⟨data, changes⟩ := plan
    have planned : planTaskUpdate before call.dto = .ok (data, changes) := planned
    dsimp only
    split
    · rename_i none_
      exact absurd ⟨data, none_ ▸ planned⟩ idle
    · refine Settles.bind (Settles.transaction ?_)
      refine Settles.bind (Settles.found fun _ _ _ _ => .inl ?_)
      refine Settles.bind fun given => ?_
      refine Settles.bind (Settles.query fun _ _ _ _ => ?_)
      refine Settles.bind fun given => Settles.query fun _ _ _ _ => ?_
      refine Settles.bind (Settles.query fun _ _ _ _ => ?_)
      exact ⟨rfl, rfl⟩

end Calls

def editing {ι : Type} (rows : List Row) (taskId : Id) (calls : ι → UpdateTaskCall) :
    System ι Row Key Event Input Error TaskDto :=
  { rows, threads := fun i => { prog := (calls i).service taskId } }

/-- Each field ends as the last update says that sent it, in one order of the updates. Where
none of them commits between another's first read and its commit, the entries tell the truth. -/
theorem task_edits_last_and_listed {ι : Type} [DecidableEq ι] {rows : List Row} (unique : UniqueKeys rows)
    (taskId : Id) (calls : ι → UpdateTaskCall) :
    (∀ actions s, (editing rows taskId calls).runs actions = some s →
      ∃ order, SerialOrder (editTrail taskId).state (fun i => (calls i).effect) (editing rows taskId calls)
          actions s order ∧
        ∀ before, (editTrail taskId).state rows = some before →
          ∃ after, (editTrail taskId).state s.rows = some after ∧
            ∀ field, after.lookup field = (before.lookup field).map fun value =>
              (order.reverse.findSome? fun i => (calls i).dto.sent.lookup field).getD value) ∧
    ∀ s, System.Reaches (ReadLast (editTrail taskId).state) (editing rows taskId calls) s →
      (editTrail taskId).Traced rows s.rows := by
  have sound : Sound Protocol.unique (fun _ _ => True) (fun i => (calls i).promise taskId)
      (editing rows taskId calls) := .initial unique fun i => verified_updateTask (calls i) taskId
  constructor
  · intro actions s ran
    obtain ⟨order, serial⟩ := serialOrder_of_runs sound (fun _ _ => trivial)
      (fun _ _ _ promised => promised.1) (fun i => settles_updateTask (calls i) taskId) ran
    refine ⟨order, serial, fun before start => ?_⟩
    obtain ⟨after, reached, fields⟩ := lookup_foldl_overwrite (fun i => (calls i).dto.sent) order before
    refine ⟨after, ?_, fields⟩
    rw [serial.account, ← reached, ← start]
    rfl
  · intro s run
    exact Journal.traced_of_reaches (J := editTrail taskId) (fun _ => SinceRead (editTrail taskId).state) sound
      (fun _ _ => trivial) (fun _ _ _ promised since => promised.2 since) run

/-- Two entries in a row do not give a field the same value. -/
theorem listed_once {before after : Option Fields} {first second : Activity} {rest : List Activity}
    (path : Path ListsNew before (first :: second :: rest) after)
    (distinct : ∀ fields, before = some fields → (fields.map Prod.fst).Nodup)
    {changes later : List (String × Json)} (said : first.payload.lookup "changes" = some (.changed changes))
    (again : second.payload.lookup "changes" = some (.changed later)) : changes.Disjoint later := by
  intro change listed repeated
  obtain ⟨middle, told, next, told', _⟩ := path
  cases before with
  | none => exact told.elim
  | some fields =>
      cases middle with
      | none => exact told.elim
      | some between =>
          cases next with
          | none => exact told'.elim
          | some last =>
              obtain ⟨aligned, new⟩ := told
              obtain ⟨aligned', new'⟩ := told'
              have names := distinct fields rfl
              have changed : changes = altered fields between := by simpa using said.symm.trans new
              have changed' : later = altered between last := by simpa using again.symm.trans new'
              have is := (mem_altered aligned names (changed ▸ listed)).2
              exact (mem_altered aligned' (aligned ▸ names) (changed' ▸ repeated)).1 is

/-- Both send the same new title. -/
def retitles : Caller → UpdateTaskCall
  | .ann => { workspaceId := "w", userId := "ann", dto := { title := some "Review" } }
  | .bob => { workspaceId := "w", userId := "bob", dto := { title := some "Review", priority := some .HIGH } }

def oneTask : List Row := sampleWorkspace ++ [
  .column { id := "c", boardId := "b", name := "To Do", position := 1000 },
  .task { id := "t", boardId := "b", columnId := "c", title := "Write", position := 1000, createdById := "ann" }]

/-- Bob reads the title that Ann then replaces. -/
def retitledMeanwhile : List (Action Caller Input Error) :=
  inTurn .bob 1 2 ++ inTurn .ann 10 10 ++ inTurn .bob 30 8

theorem edit_listed_twice :
    ∃ s, (editing oneTask "t" retitles).runs retitledMeanwhile = some s ∧
      (∀ i, (s.threads i).prog.succeeded) ∧ ¬ (editTrail "t").Traced oneTask s.rows := by
  have ran : ((editing oneTask "t" retitles).runs retitledMeanwhile).map (fun s =>
      ((s.threads .ann).prog.succeeded, (s.threads .bob).prog.succeeded,
        ((editTrail "t").entries s.rows).map fun entry => entry.payload.lookup "changes")) =
      some (true, true, [some (.changed [("title", .text "Review")]),
        some (.changed [("title", .text "Review"), ("priority", .text "HIGH")])]) := by decide +kernel
  obtain ⟨s, ran, facts⟩ := Option.map_eq_some_iff.mp ran
  simp only [Prod.mk.injEq] at facts
  obtain ⟨ann, bob, entries⟩ := facts
  refine ⟨s, ran, fun i => by cases i <;> assumption, ?_⟩
  rintro ⟨since, recorded, path⟩
  have none_ : (editTrail "t").entries oneTask = [] := by decide +kernel
  rw [none_, List.nil_append] at recorded
  rw [recorded] at entries
  obtain ⟨first, others, rfl, said, more⟩ := List.map_eq_cons_iff.mp entries
  obtain ⟨second, rest, rfl, again, _⟩ := List.map_eq_cons_iff.mp more
  have distinct : ∀ fields, (editTrail "t").state oneTask = some fields → (fields.map Prod.fst).Nodup := by
    intro fields found
    obtain ⟨task, _, rfl⟩ : ∃ task, _ ∧ taskFields task = fields := by simpa [editTrail] using found
    exact (by decide : ["title", "description", "priority", "dueDate", "estimatedMinutes"].Nodup)
  exact listed_once path distinct said again List.mem_cons_self List.mem_cons_self

/-- One update after the other. -/
def editByEdit : List (Action Caller Input Error) := inTurn .ann 1 10 ++ inTurn .bob 20 10

theorem task_edits_editByEdit :
    ∃ s, (editing oneTask "t" retitles).runsChecked (readLast (editTrail "t").state) editByEdit = some s ∧
      (editTrail "t").Traced oneTask s.rows := by
  have runs : ((editing oneTask "t" retitles).runsChecked (readLast (editTrail "t").state) editByEdit).isSome := by
    decide +kernel
  obtain ⟨s, ran⟩ := Option.isSome_iff_exists.mp runs
  refine ⟨s, ran, ?_⟩
  have unique : UniqueKeys oneTask := by decide +kernel
  exact (task_edits_last_and_listed unique "t" retitles).2 s
    (.of_runsChecked (fun _ _ passed => readLast_sound _ passed) editByEdit ran)

end Kurul
