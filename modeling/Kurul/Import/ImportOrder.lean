import Kurul.Import.ImportSoundness

/-! The inserts of an import, one list of rows each. -/
namespace Kurul.Trello

variable {ι : Type}

inductive Table where
  | board | column | label | task | taskLabel | checklist | checklistItem | attachment
  deriving DecidableEq

inductive PlannedRow (ι : Type) where
  | board (row : PlannedBoard ι)
  | column (row : PlannedColumn ι)
  | label (row : PlannedLabel ι)
  | task (row : PlannedTask ι)
  | taskLabel (row : PlannedTaskLabel ι)
  | checklist (row : PlannedChecklist ι)
  | checklistItem (row : PlannedItem ι)
  | attachment (row : PlannedAttachment ι)

def PlannedRow.key : PlannedRow ι → Table × ι
  | .board row => (.board, row.id)
  | .column row => (.column, row.id)
  | .label row => (.label, row.id)
  | .task row => (.task, row.id)
  | .taskLabel row => (.taskLabel, row.id)
  | .checklist row => (.checklist, row.id)
  | .checklistItem row => (.checklistItem, row.id)
  | .attachment row => (.attachment, row.id)

/-- The foreign keys of a row. -/
def PlannedRow.refersTo : PlannedRow ι → List (Table × ι)
  | .board _ => []
  | .column row => [(.board, row.boardId)]
  | .label row => [(.board, row.boardId)]
  | .task row => [(.board, row.boardId), (.column, row.columnId)]
  | .taskLabel row => [(.task, row.taskId), (.label, row.labelId)]
  | .checklist row => [(.task, row.taskId)]
  | .checklistItem row => [(.checklist, row.checklistId)]
  | .attachment row => [(.task, row.taskId)]

def TrelloImportPlan.rows (plan : TrelloImportPlan ι) : List (PlannedRow ι) :=
  .board plan.board :: (plan.columns.map .column ++ plan.labels.map .label ++ plan.tasks.map .task ++
    plan.taskLabels.map .taskLabel ++ plan.checklists.map .checklist ++ plan.checklistItems.map .checklistItem ++
    plan.attachments.map .attachment)

/-- `board.create`, then the `createMany` calls of each table, as `importBoard` makes them. -/
def insertions (plan : TrelloImportPlan ι) : List (List (PlannedRow ι)) :=
  [.board plan.board] :: (chunked (plan.columns.map .column) IMPORT_CHUNK_SIZE ++
    (chunked (plan.labels.map .label) IMPORT_CHUNK_SIZE ++
    (chunked (plan.tasks.map .task) IMPORT_CHUNK_SIZE ++
    (chunked (plan.taskLabels.map .taskLabel) IMPORT_CHUNK_SIZE ++
    (chunked (plan.checklists.map .checklist) IMPORT_CHUNK_SIZE ++
    (chunked (plan.checklistItems.map .checklistItem) IMPORT_CHUNK_SIZE ++
    chunked (plan.attachments.map .attachment) IMPORT_CHUNK_SIZE))))))

/-- Each insert refers only to rows that were there, or that an insert before it made. -/
def RefersBack : List (Table × ι) → List (List (PlannedRow ι)) → Prop
  | _, [] => True
  | there, call :: rest =>
      (∀ row ∈ call, ∀ key ∈ row.refersTo, key ∈ there) ∧ RefersBack (there ++ call.map PlannedRow.key) rest

theorem RefersBack.append {there : List (Table × ι)} {calls more : List (List (PlannedRow ι))}
    (back : ∀ row ∈ calls.flatten, ∀ key ∈ row.refersTo, key ∈ there)
    (rest : RefersBack (there ++ calls.flatten.map PlannedRow.key) more) : RefersBack there (calls ++ more) := by
  induction calls generalizing there with
  | nil => simpa using rest
  | cons call calls ih =>
      refine ⟨fun row member => back row (List.mem_append_left _ member), ih ?_ ?_⟩
      · intro row member key referred
        exact List.mem_append_left _ (back row (List.mem_append_right _ member) key referred)
      · simpa using rest

theorem flatten_chunks (rows : List α) (size count : Nat) :
    ((List.range count).map fun chunk => (rows.drop (chunk * size)).take size).flatten = rows.take (count * size) := by
  induction count with
  | zero => simp
  | succ count ih =>
      rw [List.range_succ, List.map_append, List.flatten_append, ih, Nat.succ_mul, List.take_add]
      simp

/-- Cutting into chunks loses nothing and moves nothing. -/
theorem flatten_chunked (rows : List α) {size : Nat} (positive : 0 < size) : (chunked rows size).flatten = rows := by
  unfold chunked
  rw [flatten_chunks]
  apply List.take_of_length_le
  have cut := Nat.lt_div_mul_add positive (a := rows.length + size - 1)
  omega

theorem flatten_insertions (plan : TrelloImportPlan ι) : (insertions plan).flatten = plan.rows := by
  have size : 0 < IMPORT_CHUNK_SIZE := by decide
  simp only [insertions, List.flatten_cons, List.flatten_append, flatten_chunked _ size, TrelloImportPlan.rows,
    List.append_assoc, List.singleton_append]

theorem rows_ids (plan : TrelloImportPlan ι) : plan.rows.map (fun row => row.key.2) = plan.ids := by
  simp only [TrelloImportPlan.rows, TrelloImportPlan.ids, List.map_cons, List.map_append, List.map_map]
  rfl

/-- The chunks of one table, none of whose rows refers to another of them. -/
theorem RefersBack.table {there : List (Table × ι)} {rows : List (PlannedRow ι)} {more : List (List (PlannedRow ι))}
    (back : ∀ row ∈ rows, ∀ key ∈ row.refersTo, key ∈ there)
    (rest : RefersBack (there ++ rows.map PlannedRow.key) more) :
    RefersBack there (chunked rows IMPORT_CHUNK_SIZE ++ more) := by
  have whole : (chunked rows IMPORT_CHUNK_SIZE).flatten = rows := flatten_chunked rows (by decide)
  apply RefersBack.append
  · rw [whole]
    exact back
  · rw [whole]
    exact rest

theorem Sound.refersBack {plan : TrelloImportPlan ι} (sound : Sound plan) : RefersBack [] (insertions plan) := by
  refine ⟨by simp [PlannedRow.refersTo], ?_⟩
  refine RefersBack.table ?_ (RefersBack.table ?_ (RefersBack.table ?_ (RefersBack.table ?_ (RefersBack.table ?_
    (RefersBack.table ?_ ?_)))))
  · intro row member key referred
    obtain ⟨column, listed, rfl⟩ := List.mem_map.mp member
    have board := sound.columns_board column listed
    simp_all [PlannedRow.refersTo, PlannedRow.key]
  · intro row member key referred
    obtain ⟨label, listed, rfl⟩ := List.mem_map.mp member
    have board := sound.labels_board label listed
    simp_all [PlannedRow.refersTo, PlannedRow.key]
  · intro row member key referred
    obtain ⟨task, listed, rfl⟩ := List.mem_map.mp member
    have board := sound.tasks_board task listed
    obtain ⟨column, inside, same⟩ := List.mem_map.mp (sound.tasks_column task listed)
    simp only [PlannedRow.refersTo, board, ← same, List.mem_cons, List.not_mem_nil, or_false] at referred
    rcases referred with rfl | rfl
    · simp [PlannedRow.key]
    · simpa [PlannedRow.key] using ⟨column, inside, rfl⟩
  · intro row member key referred
    obtain ⟨taskLabel, listed, rfl⟩ := List.mem_map.mp member
    obtain ⟨task, inside, same⟩ := List.mem_map.mp (sound.taskLabels_task taskLabel listed)
    obtain ⟨label, inside', same'⟩ := List.mem_map.mp (sound.taskLabels_label taskLabel listed)
    simp only [PlannedRow.refersTo, ← same, ← same', List.mem_cons, List.not_mem_nil, or_false] at referred
    rcases referred with rfl | rfl
    · simpa [PlannedRow.key] using ⟨task, inside, rfl⟩
    · simpa [PlannedRow.key] using ⟨label, inside', rfl⟩
  · intro row member key referred
    obtain ⟨checklist, listed, rfl⟩ := List.mem_map.mp member
    obtain ⟨task, inside, same⟩ := List.mem_map.mp (sound.checklists_task checklist listed)
    simp only [PlannedRow.refersTo, ← same, List.mem_singleton] at referred
    subst referred
    simpa [PlannedRow.key] using ⟨task, inside, rfl⟩
  · intro row member key referred
    obtain ⟨item, listed, rfl⟩ := List.mem_map.mp member
    obtain ⟨checklist, inside, same⟩ := List.mem_map.mp (sound.items_checklist item listed)
    simp only [PlannedRow.refersTo, ← same, List.mem_singleton] at referred
    subst referred
    simpa [PlannedRow.key] using ⟨checklist, inside, rfl⟩
  · rw [← List.append_nil (chunked _ _)]
    refine RefersBack.table ?_ trivial
    intro row member key referred
    obtain ⟨attachment, listed, rfl⟩ := List.mem_map.mp member
    obtain ⟨task, inside, same⟩ := List.mem_map.mp (sound.attachments_task attachment listed)
    simp only [PlannedRow.refersTo, ← same, List.mem_singleton] at referred
    subst referred
    simpa [PlannedRow.key] using ⟨task, inside, rfl⟩

/-- A plan refers to its own rows, numbers them apart and orders the rows of each parent; its
inserts write each row once, and none before what it refers to. -/
theorem imports_sound [DecidableEq ι] (runtime : Runtime) (supply : Nat → ι) (distinct : Function.Injective supply)
    (actorId : Id) (raw : Value) (plan : TrelloImportPlan ι)
    (planned : trelloPlan runtime supply actorId raw = some plan) :
    Sound plan ∧ (insertions plan).flatten = plan.rows ∧ (plan.rows.map fun row => row.key.2).Nodup ∧
      RefersBack [] (insertions plan) := by
  obtain ⟨read, _, rfl⟩ := Option.map_eq_some_iff.mp planned
  have sound := planTrelloImport_sound runtime supply read actorId distinct
  refine ⟨sound, flatten_insertions _, ?_, sound.refersBack⟩
  rw [rows_ids]
  exact sound.ids_nodup

def letters : List (CodeUnit × CodeUnit) := (js "ABCDEFGHIJKLMNOPQRSTUVWXYZ").zip (js "abcdefghijklmnopqrstuvwxyz")

def sampleRuntime : Runtime where
  parseDate text := if text = js "2026-01-02T00:00:00.000Z" then some 1767312000000 else none
  parseUrl text := if text = js "https://example.com/plan" then some (js "https:", text) else none
  toLowerCase text := text.map fun unit => (letters.lookup unit).getD unit

def object (fields : List (String × Value)) : Value := .obj (fields.map fun field => (js field.1, field.2))

def text (value : String) : Value := .str (js value)

/-- Two lists of one id, one of them archived; a card with a label twice, a link and a checklist. -/
def sampleExport : Value := object [
  ("name", text "Board"),
  ("lists", .arr [
    object [("id", text "l1"), ("name", text "Doing"), ("pos", .num (some 2))],
    object [("id", text "l1"), ("name", text "Old"), ("closed", .bool true)],
    object [("id", text "l2"), ("name", text "Todo"), ("pos", .num (some 1))]]),
  ("labels", .arr [object [("id", text "b1"), ("name", text "Bug"), ("color", text "red_dark")]]),
  ("cards", .arr [
    object [("id", text "c1"), ("name", text "Plan"), ("idList", text "l2"), ("due", text "2026-01-02T00:00:00.000Z"),
      ("idLabels", .arr [text "b1", text "b1"]),
      ("attachments", .arr [object [("name", text "Plan"), ("url", text "https://example.com/plan")]])],
    object [("id", text "c2"), ("name", text "Lost"), ("idList", text "l9")],
    object [("name", text "No id")]]),
  ("checklists", .arr [object [("id", text "k1"), ("name", text "Steps"), ("idCard", text "c1"),
    ("checkItems", .arr [object [("id", text "i1"), ("name", text "First"), ("state", text "complete")]])]]),
  ("actions", .arr [object [("type", text "commentCard")]]),
  ("members", .arr [])]

theorem imports_sound_sample : ∃ plan, trelloPlan sampleRuntime id "u1" sampleExport = some plan ∧
    (plan.rows.length = 9 ∧ plan.skipped.length = 4) ∧
    Sound plan ∧ (insertions plan).flatten = plan.rows ∧ (plan.rows.map fun row => row.key.2).Nodup ∧
      RefersBack [] (insertions plan) := by
  have planned : ((trelloPlan sampleRuntime (id : Nat → Nat) "u1" sampleExport).map fun plan =>
      (plan.rows.length, plan.skipped.length)) = some (9, 4) := by decide +kernel
  obtain ⟨plan, made, counts⟩ := Option.map_eq_some_iff.mp planned
  have counts := Prod.mk.inj counts
  exact ⟨plan, made, counts, imports_sound sampleRuntime id Function.injective_id "u1" sampleExport plan made⟩

end Kurul.Trello
