import Kurul.Audit.TaskEdits

/-! What an update of a task is planned to write, beside the changes it is planned to record. -/
namespace Kurul

section Altered

variable {before after : Fields} {field : String}

theorem altered_self (fields : Fields) : altered fields fields = [] := by
  induction fields with
  | nil => rfl
  | cons first rest ih =>
      rw [altered_cons, if_neg (not_not_intro rfl), List.nil_append]
      exact ih

/-- The names of what was altered, in the order of the fields. -/
theorem altered_sublist (names : before.map Prod.fst = after.map Prod.fst) :
    ((altered before after).map Prod.fst).Sublist (before.map Prod.fst) := by
  induction before generalizing after with
  | nil => simp [altered, changesBetween, fieldChanges]
  | cons first rest ih =>
      cases after with
      | nil => simp at names
      | cons second others =>
          obtain ⟨name, old⟩ := first
          obtain ⟨name', new⟩ := second
          obtain ⟨rfl, aligned⟩ : name = name' ∧ rest.map Prod.fst = others.map Prod.fst := by simpa using names
          rw [altered_cons, List.map_append]
          split
          · exact (ih aligned).cons_cons name
          · exact (ih aligned).cons name

/-- A field is listed exactly where its value is another one afterwards. -/
theorem mem_altered_iff (names : before.map Prod.fst = after.map Prod.fst) (distinct : (before.map Prod.fst).Nodup) :
    field ∈ (altered before after).map Prod.fst ↔ after.lookup field ≠ before.lookup field := by
  induction before generalizing after with
  | nil =>
      obtain rfl : after = [] := by simpa using names.symm
      simp [altered, changesBetween, fieldChanges]
  | cons first rest ih =>
      cases after with
      | nil => simp at names
      | cons second others =>
          obtain ⟨name, old⟩ := first
          obtain ⟨name', new⟩ := second
          obtain ⟨rfl, aligned⟩ : name = name' ∧ rest.map Prod.fst = others.map Prod.fst := by simpa using names
          obtain ⟨fresh, apart⟩ := List.nodup_cons.mp distinct
          rw [altered_cons, List.map_append, List.mem_append, lookup_cons, lookup_cons]
          by_cases own : field = name
          · subst own
            have later : field ∉ (altered rest others).map Prod.fst :=
              fun member => fresh ((altered_sublist aligned).subset member)
            by_cases same : old = new <;> simp [same, later, eq_comm]
          · have here : field ∉ (if old ≠ new then [(name, new)] else []).map Prod.fst := by
              split <;> simp [own]
            rw [if_neg own, if_neg own, ← ih aligned apart]
            exact or_iff_right here

end Altered

section Plan

variable {existing : Task} {dto : UpdateTaskDto} {data : TaskPatch} {changes : List (String × Json)}

/-- The columns that no request sends are left alone. -/
theorem TaskPatch.apply_elsewhere (data : TaskPatch) (now : DateTime) (task : Task) :
    { data.apply now task with
      title := task.title
      description := task.description
      priority := task.priority
      dueDate := task.dueDate
      estimatedMinutes := task.estimatedMinutes
      updatedAt := task.updatedAt } = task := rfl

theorem TaskPatch.apply_twice (data : TaskPatch) (now : DateTime) (task : Task) :
    data.apply now (data.apply now task) = data.apply now task := by
  cases data with
  | mk title description priority dueDate estimatedMinutes =>
      cases title <;> cases description <;> cases priority <;> cases dueDate <;> cases estimatedMinutes <;> rfl

theorem taskFields_injective {a b : Task} (same : taskFields a = taskFields b) :
    a.title = b.title ∧ a.description = b.description ∧ a.priority = b.priority ∧ a.dueDate = b.dueDate ∧
      a.estimatedMinutes = b.estimatedMinutes := by
  have texts : Function.Injective Json.text := fun _ _ same => Json.text.inj same
  have times : Function.Injective Json.time := fun _ _ same => Json.time.inj same
  have numbers : Function.Injective Json.number := fun _ _ same => Json.number.inj same
  simp only [taskFields, List.cons.injEq, Prod.mk.injEq, true_and, and_true] at same
  obtain ⟨title, description, priority, dueDate, minutes⟩ := same
  exact ⟨texts title, ofOption_injective texts (by simp) description, Priority.text_injective (texts priority),
    ofOption_injective times (by simp) dueDate, ofOption_injective numbers (by simp) minutes⟩

/-- A patch that alters no field leaves the row as it is. -/
theorem apply_eq_self (same : taskFields existing = taskFields (data.apply existing.updatedAt existing)) :
    data.apply existing.updatedAt existing = existing := by
  obtain ⟨title, description, priority, dueDate, minutes⟩ := taskFields_injective same
  have elsewhere := data.apply_elsewhere existing.updatedAt existing
  rw [title, description, priority, dueDate, minutes] at elsewhere
  exact elsewhere

/-- Planning reads the row for its changes only. -/
theorem replanned (planned : planTaskUpdate existing dto = .ok (data, changes)) (other : Task) :
    ∃ others, planTaskUpdate other dto = .ok (data, others) := by
  obtain ⟨dueDate, parsed, done⟩ := Store.Statement.bind_ok planned
  cases done
  unfold planTaskUpdate
  rw [parsed]
  exact ⟨_, rfl⟩

/-- A plan writes exactly what it lists: the row differs afterwards in the listed fields, each at
its listed value, and nowhere else; nothing is listed where the row stays as it is, or where the
same request has been written already. -/
theorem task_update_plan_exact (existing : Task) (dto : UpdateTaskDto) (data : TaskPatch)
    (changes : List (String × Json)) (now : DateTime)
    (planned : planTaskUpdate existing dto = .ok (data, changes)) :
    (∀ field, field ∈ changes.map Prod.fst ↔
      (taskFields (data.apply now existing)).lookup field ≠ (taskFields existing).lookup field) ∧
    (∀ field value, (field, value) ∈ changes →
      (taskFields (data.apply now existing)).lookup field = some value) ∧
    (changes.map Prod.fst).Nodup ∧
    { data.apply now existing with
      title := existing.title
      description := existing.description
      priority := existing.priority
      dueDate := existing.dueDate
      estimatedMinutes := existing.estimatedMinutes
      updatedAt := existing.updatedAt } = existing ∧
    (changes = [] ↔ data.apply existing.updatedAt existing = existing) ∧
    planTaskUpdate (data.apply now existing) dto = .ok (data, []) := by
  have names : (taskFields existing).map Prod.fst = (taskFields (data.apply now existing)).map Prod.fst := rfl
  have distinct : ((taskFields existing).map Prod.fst).Nodup := by
    rw [show (taskFields existing).map Prod.fst =
      ["title", "description", "priority", "dueDate", "estimatedMinutes"] from rfl]
    decide
  have listed := changes_eq planned now
  refine ⟨?_, ?_, ?_, data.apply_elsewhere now existing, ⟨?_, ?_⟩, ?_⟩
  · intro field
    rw [listed]
    exact mem_altered_iff names distinct
  · intro field value member
    rw [listed] at member
    exact (mem_altered names distinct member).2
  · rw [listed]
    exact distinct.sublist (altered_sublist names)
  · intro none_
    apply apply_eq_self
    rw [fields_apply planned, overwrite_same planned none_]
  · intro same
    rw [changes_eq planned existing.updatedAt, same]
    exact altered_self _
  · obtain ⟨others, again⟩ := replanned planned (data.apply now existing)
    have nothing : others = [] := by
      rw [changes_eq again now, data.apply_twice]
      exact altered_self _
    rw [again, nothing]

/-- A request that sends the old title, no description and a new due date. -/
theorem task_update_plan_exact_due : ∃ data,
    planTaskUpdate { id := "t1", boardId := "b1", columnId := "c1", title := "Plan", position := 1, createdById := "u1" }
      { title := some "Plan", description := some none, dueDate := some (some (.instant 5)) } =
        .ok (data, [("dueDate", .time 5)]) ∧
    planTaskUpdate (data.apply 7
        { id := "t1", boardId := "b1", columnId := "c1", title := "Plan", position := 1, createdById := "u1" })
      { title := some "Plan", description := some none, dueDate := some (some (.instant 5)) } = .ok (data, []) :=
  ⟨⟨some "Plan", some none, none, some (some 5), none⟩, rfl, (task_update_plan_exact _ _ _ _ 7 rfl).2.2.2.2.2⟩

end Plan

end Kurul
