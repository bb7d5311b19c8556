import Kurul.Board.ColumnOrdering
import Kurul.Spacing
import Kurul.Task.ChecklistOrdering
import Kurul.Task.TaskOrdering

/-! Creates, moves and removals on the ordered lists of a board, one after the other.
Tasks and columns are spread before a gap gets too small; checklists and their items
never are, so their positions run out of room. Where no checklist or item is moved into
such a gap, all siblings stay apart. -/
namespace Kurul

open Store Prog Sequence

inductive BoardListCall where
  | task (call : TaskCall)
  | column (call : ColumnCall)
  | list (call : ListCall)
  | removeChecklist (workspaceId taskId actorId checklistId : Id)
  | removeItem (workspaceId taskId actorId itemId : Id)

def BoardListCall.service : BoardListCall → Service Unit
  | .task call => call.service
  | .column call => call.service
  | .list call => call.service
  | .removeChecklist workspaceId taskId actorId checklistId => do
      let _ ← ChecklistService.remove workspaceId taskId actorId checklistId
  | .removeItem workspaceId taskId actorId itemId => do
      let _ ← ChecklistItemService.remove workspaceId taskId actorId itemId

section Calls

variable {rows : List Row}

/-- The rows before a call: keys are unique, and all siblings are apart. -/
structure Roomy (rows : List Row) : Prop where
  unique : UniqueKeys rows
  spaced : Spaced rows

theorem Roomy.siblings [Entity Row α] {P : Positioning α} (roomy : Roomy rows)
    (spaced : P.Spaced rows) (g : Id) :
    Ordered Sibling.id Sibling.position (P.siblings g rows) ∧
      ∀ a ∈ P.siblings g rows, ∀ b ∈ P.siblings g rows, a.id ≠ b.id →
        a.position + LEAST_GAP ≤ b.position ∨ b.position + LEAST_GAP ≤ a.position := by
  constructor
  · exact Positioning.ordered_siblings roomy.unique (spaced.distinct g)
  · exact spaced.listed fun a member => Positioning.mem_siblings.mp member

theorem holds_createTask (roomy : Roomy rows) {workspaceId boardId userId : Id} {dto : CreateTaskDto} :
    (TaskService.create workspaceId boardId userId dto).Holds CommitsSpaced (fun _ _ _ => True)
      (fun _ _ _ => True) rows [] := by
  unfold TaskService.create TaskService.findColumnOnBoard
  apply Holds.bind
  apply holds_assertBoard
  intro _
  apply Holds.bind
  apply Holds.found
  intro column _
  apply Holds.bind
  apply Holds.ofExcept
  intro attributes _
  apply Holds.bind
  apply Holds.transaction
  apply Holds.bind
  apply holds_lock
  apply Holds.bind
  apply Holds.read
  obtain ⟨ordered, apart⟩ := roomy.siblings roomy.spaced.tasks column.id
  apply Holds.bind
  apply Holds.ofExcept
  intro slot resolved
  obtain ⟨k, fits, rfl⟩ := resolveCreateNeighbors_slot resolved
  apply Holds.bind
  apply Positioning.holds_createPosition ordered.keys
    (Positioning.keeps_start fun stands _ => Positioning.mem_siblings.mpr stands)
    (fun roomy => midpoint_gapped ordered fits apart roomy) (rebalance_gapped _ fits)
  intro position moved W arranged gapped
  refine Holds.bind fun given => Holds.bind ?_
  apply Holds.query
  intro o created
  obtain ⟨_, written, new⟩ := Statement.create_ok created
  obtain ⟨placed, mine⟩ := arranged.insert rfl rfl new
  rw [← written] at placed mine
  apply Holds.bind
  apply holds_record
  intro activity
  refine ⟨?_, trivial, trivial⟩
  apply roomy.spaced.placeTask (placed.audit activity (silent_activity activity)) ordered.keys _ gapped
  rw [touched_append]
  exact List.mem_append_left _ mine

/-- What is left of a list without the row that is being moved. -/
theorem Roomy.remaining [Entity Row α] {P : Positioning α} (roomy : Roomy rows)
    (spaced : P.Spaced rows) (g own : Id) :
    Ordered Sibling.id Sibling.position ((P.siblings g rows).filter fun item => item.id ≠ own) ∧
      ∀ a ∈ (P.siblings g rows).filter fun item => item.id ≠ own,
        ∀ b ∈ (P.siblings g rows).filter fun item => item.id ≠ own, a.id ≠ b.id →
          a.position + LEAST_GAP ≤ b.position ∨ b.position + LEAST_GAP ≤ a.position := by
  obtain ⟨ordered, apart⟩ := roomy.siblings spaced g
  constructor
  · exact Positioning.ordered_remaining own ordered
  · intro a left b right
    exact apart a (List.mem_of_mem_filter left) b (List.mem_of_mem_filter right)

/-- The moved row's update, and its siblings' where they have to be moved apart. -/
theorem holds_placeTask {workspaceId columnId : Id} {task : TaskRow} {L : List Sibling} {k n : Nat}
    {fine : Occurrence Row Key Event → Prop} {ok : TaskDto → List Row → List (Write Row Key) → Prop}
    {fit : ℚ → (Nat → ℚ) → Prop} (keys : (L.map Sibling.id).Nodup)
    (between : needsRebalance ((sliceSlot L k).prev.map Sibling.position)
      ((sliceSlot L k).next.map Sibling.position) = false → fit (midpoint ((sliceSlot L k).prev.map Sibling.position)
        ((sliceSlot L k).next.map Sibling.position)) (Positioning.still L))
    (spread : fit ((rebalancePositions (L.length + 1)).getD k 0) (Positioning.apart k))
    (fits : k ≤ L.length) (absent : ∀ sibling ∈ L, sibling.id ≠ task.task.id)
    (keeps : taskPositions.Keeps L columnId (some task.task.id) (Positioning.still L) [] rows)
    (rest : ∀ result position moved W,
      taskPositions.Arranged L columnId (some task.task.id) position moved W rows →
      Key.task task.task.id ∈ touched W → fit position moved → ok result rows W) :
    (TaskService.place workspaceId task columnId L (sliceSlot L k) n).Holds fine ok
      (fun _ _ _ => True) rows [] := by
  unfold TaskService.place
  dsimp only
  split
  · refine Holds.bind fun given => Holds.bind ?_
    apply Holds.query
    intro o ran
    obtain ⟨row, same, here, stands, written⟩ := moved_task ran fun _ => ⟨rfl, rfl, rfl⟩
    rw [show (sliceSlot L k).insertionIndex = k from rfl, reorderedUpdates_eq fits absent]
    rw [← same] at keeps
    obtain ⟨puts, kept⟩ := Positioning.keeps_own keeps here stands
    apply Holds.bind
    rw [written]
    apply Positioning.holds_batch (P := taskPositions) keys kept
    · intro k member
      simp only [touched, List.map_cons, List.map_nil, List.mem_singleton] at member
      exact ⟨_, rfl, member⟩
    · rintro x named sibling member rfl
      exact absent sibling member ((Option.some.inj named).symm.trans same)
    intro B only batch kept'
    apply rest _ _ (Positioning.apart k) _ _ _ spread
    · rw [← same]
      refine ⟨(puts _).append (batch _), kept', OnlyRows.append ?_ only⟩
      intro write member
      exact .inl ⟨row, List.mem_singleton.mp member⟩
    · rw [touched_append, ← same]
      exact List.mem_append_left _ (List.mem_singleton_self _)
  · rename_i roomy
    refine Holds.bind fun given => Holds.bind ?_
    apply Holds.query
    intro o ran
    obtain ⟨o', updated, _, written, _⟩ := including_ok ran
    obtain ⟨row, same, here, stands, stored⟩ := moved_task updated fun _ => ⟨rfl, rfl, rfl⟩
    rw [← same] at keeps
    have arranged : taskPositions.Arranged L columnId (some row.id) _ _ _ rows :=
      Positioning.Arranged.shift keeps here stands
    rw [same] at arranged
    apply rest _ _ (Positioning.still L) _ _ _ (between (by simpa using roomy))
    · rw [written, stored]
      exact arranged
    · rw [written, stored, ← same]
      exact List.mem_singleton_self _

theorem holds_moveTask (roomy : Roomy rows) {workspaceId taskId userId : Id} {dto : MoveTaskDto} :
    (TaskService.move workspaceId taskId userId dto).Holds CommitsSpaced (fun _ _ _ => True)
      (fun _ _ _ => True) rows [] := by
  unfold TaskService.move
  apply Holds.bind
  apply Holds.transaction
  apply Holds.bind
  apply Holds.found
  intro task hit
  obtain ⟨row, chosen, rfl⟩ := Option.map_eq_some_iff.mp hit
  obtain ⟨own, _⟩ : row.id = taskId ∧ _ := by simpa [scopedTask] using List.find?_some chosen
  apply Holds.bind
  apply Holds.require
  intro _
  apply Holds.bind
  apply Holds.found
  intro column _
  apply Holds.bind
  apply Holds.require
  intro _
  apply Holds.bind
  have named : ∀ {ok : String → List Row → List (Write Row Key) → Prop}, (∀ name, ok name rows []) →
      (TaskService.fromColumnName row.columnId column).Holds CommitsSpaced ok (fun _ _ _ => True)
        rows [] := by
    intro ok rest
    unfold TaskService.fromColumnName
    split
    · exact rest _
    · apply Holds.bind
      apply Holds.read
      exact rest _
  apply named
  intro name
  apply Holds.bind
  apply holds_lock
  apply Holds.bind
  apply Holds.read
  obtain ⟨ordered, apart⟩ := roomy.remaining roomy.spaced.tasks column.id taskId
  apply Holds.bind
  apply Holds.ofExcept
  intro slot resolved
  obtain ⟨k, fits, rfl⟩ := resolveMoveNeighbors_slot resolved
  apply Holds.bind
  apply Holds.read
  apply Holds.bind
  apply holds_placeTask ordered.keys (fun roomy => midpoint_gapped ordered fits apart roomy)
    (rebalance_gapped _ fits) fits
  · intro sibling member
    change sibling.id ≠ row.id
    simpa [own] using (List.mem_filter.mp member).2
  · apply Positioning.keeps_start
    intro i p stands other
    exact List.mem_filter.mpr ⟨Positioning.mem_siblings.mpr stands, by
      simpa using fun same : i = taskId => other (congrArg some (own.trans same.symm))⟩
  intro result position moved W arranged mine gapped
  apply Holds.bind
  apply holds_record
  intro activity
  refine ⟨?_, trivial, trivial⟩
  apply roomy.spaced.placeTask (arranged.audit activity (silent_activity activity)) ordered.keys _ gapped
  rw [touched_append]
  exact List.mem_append_left _ mine

/-- An audit row and the deletion of rows. -/
theorem spaced_removal (spaced : Spaced rows) {activity : Activity} {view : List Row} {keys : List Key} :
    Spaced (applyAll rows ([.put (.activity activity)] ++ deletion view (cascade view keys))) := by
  apply spaced.quiet
  intro row member
  rcases List.mem_append.mp member with first | deleted
  · cases List.mem_singleton.mp first
    exact .inl ⟨activity, rfl⟩
  · exact puts_of_deletion deleted

theorem holds_removeTask (roomy : Roomy rows) {workspaceId taskId userId : Id} :
    (TaskService.remove workspaceId taskId userId).Holds CommitsSpaced (fun _ _ _ => True)
      (fun _ _ _ => True) rows [] := by
  unfold TaskService.remove
  apply Holds.bind
  apply Holds.transaction
  apply Holds.bind
  apply Holds.found
  intro task _
  apply Holds.bind
  apply holds_record
  intro activity
  apply Holds.bind
  apply Holds.query
  intro o ran
  apply Holds.bind
  apply Holds.require
  intro _
  rw [(Statement.deleteMany_ok ran).2]
  exact ⟨spaced_removal roomy.spaced, trivial, trivial⟩

/-- The same for columns, whose move reads the column back after a rebalance. -/
theorem holds_placeColumn {workspaceId : Id} {column : Column} {L : List Sibling} {k : Nat}
    {fine : Occurrence Row Key Event → Prop} {ok : ColumnDto → List Row → List (Write Row Key) → Prop}
    {fit : ℚ → (Nat → ℚ) → Prop} (unique : UniqueKeys rows) (member : column ∈ (table rows : List Column))
    (keys : (L.map Sibling.id).Nodup)
    (between : needsRebalance ((sliceSlot L k).prev.map Sibling.position)
      ((sliceSlot L k).next.map Sibling.position) = false → fit (midpoint ((sliceSlot L k).prev.map Sibling.position)
        ((sliceSlot L k).next.map Sibling.position)) (Positioning.still L))
    (spread : fit ((rebalancePositions (L.length + 1)).getD k 0) (Positioning.apart k))
    (fits : k ≤ L.length) (absent : ∀ sibling ∈ L, sibling.id ≠ column.id)
    (keeps : columnPositions.Keeps L column.boardId (some column.id) (Positioning.still L) [] rows)
    (rest : ∀ result position moved W,
      columnPositions.Arranged L column.boardId (some column.id) position moved W rows →
      Key.column column.id ∈ touched W → fit position moved → ok result rows W) :
    (ColumnService.place workspaceId column L (sliceSlot L k)).Holds fine ok
      (fun _ _ _ => True) rows [] := by
  have moved : ∀ {position : ℚ} {o : Outcome Row Key Column},
      (Statement.update (scopedColumn workspaceId column.id) (fun row => { row with position }) rows :
        Except Error _) = .ok o →
      o.writes = [.put (toRow { column with position })] := by
    intro position o ran
    obtain ⟨row, there, chosen, _, written⟩ := Statement.update_ok ran
    obtain ⟨same, _⟩ : row.id = column.id ∧ _ := by simpa [scopedColumn] using chosen
    obtain rfl : row = column := toRow_injective (unique.eq_of_key (mem_table.mp there)
      (mem_table.mp member) (congrArg Key.column same))
    exact written
  have shifted : ∀ position, columnPositions.Arranged L column.boardId (some column.id) position
      (Positioning.still L) [.put (toRow { column with position })] rows := fun position =>
    Positioning.Arranged.shift (P := columnPositions) (a := { column with position }) keeps rfl rfl
  unfold ColumnService.place
  dsimp only
  split
  · apply Holds.bind
    apply Holds.query
    intro o ran
    rw [List.nil_append, moved ran, show (sliceSlot L k).insertionIndex = k from rfl,
      reorderedUpdates_eq fits absent]
    apply Holds.bind
    apply Positioning.holds_batch (P := columnPositions) keys (shifted _).keeps
    · intro key touches
      exact ⟨_, rfl, List.mem_singleton.mp touches⟩
    · rintro x named sibling listed rfl
      exact absent sibling listed (Option.some.inj named).symm
    intro B only batch kept
    apply Holds.found
    intro result _
    apply rest _ _ (Positioning.apart k) _ _ _ spread
    · obtain ⟨puts, _⟩ := Positioning.keeps_own (P := columnPositions)
        (a := { column with position := (rebalancePositions (L.length + 1)).getD k 0 }) keeps rfl rfl
      exact ⟨(puts _).append (batch _), kept, (shifted _).only.append only⟩
    · rw [touched_append]
      exact List.mem_append_left _ (List.mem_singleton_self _)
  · rename_i roomy
    apply Holds.query
    intro o ran
    obtain ⟨o', updated, _, written, _⟩ := including_ok ran
    rw [List.nil_append, written, moved updated]
    apply rest _ _ (Positioning.still L) _ _ _ (between (by simpa using roomy))
    · exact shifted _
    · exact List.mem_singleton_self _

theorem holds_createColumn (roomy : Roomy rows) {workspaceId boardId actorId : Id} {dto : CreateColumnDto} :
    (ColumnService.create workspaceId boardId actorId dto).Holds CommitsSpaced (fun _ _ _ => True)
      (fun _ _ _ => True) rows [] := by
  unfold ColumnService.create
  apply Holds.bind
  apply holds_assertBoard
  intro _
  apply Holds.bind
  apply Holds.transaction
  apply Holds.bind
  apply holds_lock
  apply Holds.bind
  apply Holds.read
  obtain ⟨ordered, apart⟩ := roomy.siblings roomy.spaced.columns boardId
  apply Holds.bind
  apply Holds.ofExcept
  intro slot resolved
  obtain ⟨k, fits, rfl⟩ := resolveCreateNeighbors_slot resolved
  apply Holds.bind
  apply Positioning.holds_createPosition ordered.keys
    (Positioning.keeps_start fun stands _ => Positioning.mem_siblings.mpr stands)
    (fun roomy => midpoint_gapped ordered fits apart roomy) (rebalance_gapped _ fits)
  intro position moved W arranged gapped
  refine Holds.bind fun given => ?_
  apply Holds.query
  intro o created
  obtain ⟨written, new⟩ := created_column created
  obtain ⟨placed, mine⟩ := arranged.insert rfl rfl new
  rw [← written] at placed mine
  have spaced := roomy.spaced.placeColumn placed ordered.keys mine gapped
  refine ⟨spaced, ?_⟩
  apply Holds.bind
  apply Holds.transaction
  apply holds_record
  intro activity
  refine ⟨?_, trivial, trivial⟩
  apply spaced.quiet
  intro row member
  cases List.mem_singleton.mp member
  exact .inl ⟨activity, rfl⟩

theorem holds_moveColumn (roomy : Roomy rows) {workspaceId columnId actorId : Id} {dto : MoveColumnDto} :
    (ColumnService.move workspaceId columnId actorId dto).Holds CommitsSpaced (fun _ _ _ => True)
      (fun _ _ _ => True) rows [] := by
  unfold ColumnService.move
  apply Holds.bind
  apply Holds.transaction
  apply Holds.bind
  apply Holds.found
  intro column hit
  obtain ⟨own, _⟩ : column.id = columnId ∧ _ := by simpa [scopedColumn] using List.find?_some hit
  apply Holds.bind
  apply Holds.require
  intro _
  apply Holds.bind
  apply holds_lock
  apply Holds.bind
  apply Holds.read
  obtain ⟨ordered, apart⟩ := roomy.remaining roomy.spaced.columns column.boardId columnId
  apply Holds.bind
  apply Holds.ofExcept
  intro slot resolved
  obtain ⟨k, fits, rfl⟩ := resolveMoveNeighbors_slot resolved
  apply holds_placeColumn roomy.unique (List.mem_of_find?_eq_some hit) ordered.keys
    (fun roomy => midpoint_gapped ordered fits apart roomy) (rebalance_gapped _ fits) fits
  · intro sibling member
    simpa [own] using (List.mem_filter.mp member).2
  · apply Positioning.keeps_start
    intro i p stands other
    exact List.mem_filter.mpr ⟨Positioning.mem_siblings.mpr stands, by
      simpa using fun same : i = columnId => other (congrArg some (own.trans same.symm))⟩
  intro result position moved W arranged mine gapped
  exact ⟨roomy.spaced.placeColumn arranged ordered.keys mine gapped, trivial, trivial⟩

theorem holds_removeColumn (roomy : Roomy rows) {workspaceId columnId actorId : Id} :
    (ColumnService.remove workspaceId columnId actorId).Holds CommitsSpaced (fun _ _ _ => True)
      (fun _ _ _ => True) rows [] := by
  unfold ColumnService.remove
  apply Holds.bind
  apply Holds.transaction
  apply Holds.bind
  apply Holds.found
  intro column _
  apply Holds.bind
  apply Holds.read
  apply Holds.bind
  apply Holds.require
  intro _
  apply Holds.bind
  apply holds_record
  intro activity
  apply Holds.bind
  apply Holds.query
  intro o ran
  apply Holds.bind
  apply Holds.require
  intro _
  rw [(Statement.deleteMany_ok ran).2]
  exact ⟨spaced_removal roomy.spaced, trivial, trivial⟩

theorem defaultColumns_apart (locale : Locale) :
    ∀ p ∈ (defaultColumnsFor locale).map DefaultColumn.position,
      ∀ q ∈ (defaultColumnsFor locale).map DefaultColumn.position, p ≠ q →
        p + LEAST_GAP ≤ q ∨ q + LEAST_GAP ≤ p := by
  cases locale <;> decide +kernel

theorem Seeds.gapped {boardId : Id} {locale : Locale} {data : List Column}
    (seeds : Seeds boardId locale data) :
    ∀ x ∈ data.map (fun column => (column.id, column.position)),
      ∀ y ∈ data.map (fun column => (column.id, column.position)), x.1 ≠ y.1 →
        x.2 + LEAST_GAP ≤ y.2 ∨ y.2 + LEAST_GAP ≤ x.2 := by
  intro x left y right different
  have listed : ∀ {z}, z ∈ data.map (fun column => (column.id, column.position)) →
      z.2 ∈ (defaultColumnsFor locale).map DefaultColumn.position := by
    intro z member
    obtain ⟨column, there, rfl⟩ := List.mem_map.mp member
    rw [← seeds.defaults, List.map_map]
    exact List.mem_map_of_mem (f := DefaultColumn.position ∘ Column.asDefault) there
  apply defaultColumns_apart locale _ (listed left) _ (listed right)
  intro same
  exact different (seeds.apart x left y right same)

theorem holds_seeds {boardId : Id} {columns : List DefaultColumn} :
    (collect columns (ColumnService.seed boardId)).Holds CommitsSpaced (fun data rows' W =>
      List.Forall₂ (fun column row => row.boardId = boardId ∧ row.asDefault = column) columns data ∧
        rows' = rows ∧ W = []) (fun _ _ _ => True) rows [] := by
  apply Holds.collect
  intro column _ given
  exact ⟨⟨rfl, rfl⟩, rfl, rfl⟩

theorem holds_resolve {userId : Id} {negotiated : Option Locale}
    {ok : Locale → List Row → List (Write Row Key) → Prop} {W : List (Write Row Key)}
    (rest : ∀ locale, ok locale rows W) :
    (LocaleService.resolve userId negotiated).Holds CommitsSpaced ok (fun _ _ _ => True) rows W := by
  apply Holds.bind
  apply Holds.catching
  apply Holds.read_or
  · intro _
    exact rest _
  · exact rest _

/-- Audit rows were added. -/
def Audited (before after : List (Write Row Key)) : Prop :=
  ∃ audits, after = before ++ audits ∧ ∀ write ∈ audits, ∃ activity, write = .put (.activity activity)

theorem holds_recordSeeded {workspaceId boardId actorId : Id} {columns : List Column}
    {W : List (Write Row Key)} :
    (forEach columns (ColumnService.recordSeeded workspaceId boardId actorId)).Holds CommitsSpaced
      (fun _ rows' W' => rows' = rows ∧ Audited W W') (fun _ _ _ => True) rows W := by
  apply Holds.forEach (I := fun rows' W' => rows' = rows ∧ Audited W W')
  · exact ⟨rfl, [], (List.append_nil W).symm, by simp⟩
  · rintro column _ _ _ ⟨rfl, audits, rfl, recorded⟩
    apply Holds.bind
    apply holds_record
    intro activity
    refine ⟨rfl, audits ++ [.put (.activity activity)], List.append_assoc _ _ _, ?_⟩
    intro write member
    rcases List.mem_append.mp member with early | last
    · exact recorded write early
    · exact ⟨activity, List.mem_singleton.mp last⟩

theorem holds_told {workspaceId boardId actorId : Id} {columns : List Column} :
    (forEach columns fun column => ColumnService.emitChanged workspaceId actorId boardId column.id).Holds
      CommitsSpaced (fun _ _ _ => True) (fun _ _ _ => True) rows [] :=
  Holds.forEach (I := fun _ _ => True) trivial fun _ _ _ _ _ => ⟨trivial, trivial⟩

theorem holds_createDefaults (roomy : Roomy rows) {workspaceId boardId actorId : Id}
    {negotiated : Option Locale} :
    (ColumnService.createDefaults workspaceId boardId actorId negotiated).Holds CommitsSpaced
      (fun _ _ _ => True) (fun _ _ _ => True) rows [] := by
  unfold ColumnService.createDefaults
  apply Holds.bind
  apply holds_assertBoard
  intro _
  apply Holds.bind
  apply holds_resolve
  intro locale
  apply Holds.bind
  apply Holds.transaction
  apply Holds.bind
  apply holds_lock
  apply Holds.bind
  apply Holds.read
  apply Holds.bind
  apply Holds.require
  intro counted
  have empty : ∀ i p, ¬ boardOrder boardId rows i p := by
    intro i p stands
    obtain ⟨column, member, here, _⟩ := Positioning.order_iff.mp stands
    have none := List.countP_eq_zero.mp (of_decide_eq_true counted)
    exact none column member (decide_eq_true here)
  apply Holds.bind
  apply holds_seeds.weaken _ fun _ _ _ _ => trivial
  rintro data _ _ ⟨collected, rfl, rfl⟩
  obtain ⟨here, defaults⟩ := Seeds.of_collected collected
  apply Holds.bind
  apply Holds.query
  intro o ran
  obtain ⟨stored, _, all, written, keys, _⟩ := Statement.createMany_ok ran
  have stores := all rfl
  subst stores
  have seeds : Seeds boardId locale stored := ⟨here, defaults, keys⟩
  apply Holds.bind
  apply Holds.read
  apply Holds.bind
  apply holds_recordSeeded.weaken _ fun _ _ _ _ => trivial
  rintro _ _ _ ⟨rfl, audits, rfl, recorded⟩
  rw [List.nil_append, written]
  have filled := seeds.fills recorded
  have only : OnlyRows Column (Seeds.written stored audits) := by
    intro write member
    rcases List.mem_append.mp member with seeded | audited
    · obtain ⟨column, _, rfl⟩ := List.mem_map.mp seeded
      exact .inl ⟨column, rfl⟩
    · exact .inr (recorded write audited)
  constructor
  · constructor
    · exact roomy.spaced.tasks.other only (fun _ => rfl) fun _ => rfl
    · exact filled.spaced seeds.gapped empty roomy.spaced.columns
    · exact roomy.spaced.checklists.other only (fun _ => rfl) fun _ => rfl
    · exact roomy.spaced.items.other only (fun _ => rfl) fun _ => rfl
  · apply Holds.bind
    exact holds_told.weaken (fun _ _ _ _ => trivial) fun _ _ _ _ => trivial

/-- What follows the commits of a call on checklists: reads and an event. -/
theorem holds_emitUpdated {workspaceId taskId actorId : Id} :
    (TaskEventsService.emitUpdated workspaceId taskId actorId).Holds CommitsSpaced
      (fun _ _ _ => True) (fun _ _ _ => True) rows [] := by
  unfold TaskEventsService.emitUpdated TaskReadService.findTask
  apply Holds.bind
  apply Holds.bind
  apply Holds.found
  intro task _
  apply Holds.bind
  apply Holds.read
  exact ⟨trivial, trivial⟩

/-- Appending a row under the lock of its parent. -/
theorem holds_append [Entity Row α] {P : Positioning α} {g : Id} {k : Key}
    (make : Input → ℚ → α) (roomy : Roomy rows) (spaced : P.Spaced rows)
    (made : ∀ given position, P.group (make given position) = g ∧
      P.position (make given position) = position)
    (places : ∀ {L x position moved W k}, P.Arranged L g (some x) position moved W rows →
      (L.map Sibling.id).Nodup → P.entryKey x ∈ touched W →
      Gapped LEAST_GAP L.length k position moved → Spaced (applyAll rows W)) :
    (transaction do
      query (.lockForUpdate k)
      let siblings ← query (.read (P.lastListed g))
      let given ← Service.fresh
      let _ ← query (.create (make given (appendedPosition siblings))) : Service Unit).Holds
        CommitsSpaced (fun _ _ W => W = []) (fun _ _ _ => True) rows [] := by
  have ordered := Positioning.ordered_listed (P := P) (g := g) roomy.unique (spaced.distinct g)
  have apart := spaced.listed (L := P.listed g rows) fun _ member => Positioning.mem_listed_iff.mp member
  have end_ : needsRebalance
      ((sliceSlot (P.listed g rows) (P.listed g rows).length).prev.map Sibling.position)
      ((sliceSlot (P.listed g rows) (P.listed g rows).length).next.map Sibling.position) = false := by
    have last : (sliceSlot (P.listed g rows) (P.listed g rows).length).next = none := by
      simp [sliceSlot]
    rw [last]
    cases (sliceSlot (P.listed g rows) (P.listed g rows).length).prev <;> rfl
  apply Holds.transaction
  apply Holds.bind
  apply holds_lock
  apply Holds.bind
  apply Holds.read
  refine Holds.bind fun given => Holds.bind ?_
  apply Holds.query
  intro o created
  obtain ⟨_, written, new⟩ := Statement.create_ok created
  obtain ⟨group, position⟩ := made given (appendedPosition (P.lastListed g rows))
  obtain ⟨placed, mine⟩ := (Positioning.Arranged.start (P := P)
    (fun stands _ => Positioning.mem_listed_iff.mpr stands) _).insert group position new
  change o.writes = [.put (toRow (make given (appendedPosition (P.lastListed g rows))))] at written
  rw [List.nil_append, ← written] at placed mine
  have gapped := midpoint_gapped ordered le_rfl apart end_
  rw [← InsertionSlot.midpoint, ← appendedPosition_slot] at gapped
  exact ⟨places placed ordered.keys mine gapped, rfl⟩

/-- Moving a row of a list by an update of its own. -/
theorem holds_shift [Entity Row α] {P : Positioning α} {g x : Id} {afterId : Option Id}
    {message : String} {slot : InsertionSlot} (roomy : Roomy rows) (spaced : P.Spaced rows)
    (here : ∃ a ∈ (table rows : List α), P.id a = x ∧ P.group a = g)
    (resolved : resolveAfter ((P.listed g rows).filter (·.id ≠ x)) afterId message = .ok slot)
    (room : needsRebalance (slot.prev.map Sibling.position) (slot.next.map Sibling.position) = false)
    (places : ∀ {L x position moved W k}, P.Arranged L g (some x) position moved W rows →
      (L.map Sibling.id).Nodup → P.entryKey x ∈ touched W →
      Gapped LEAST_GAP L.length k position moved → Spaced (applyAll rows W)) :
    (transaction (query (.update (fun _ a => P.id a = x) (P.reposition slot.midpoint))) :
      Service α).Holds CommitsSpaced (fun _ _ W => W = []) (fun _ _ _ => True) rows [] := by
  have listed := Positioning.ordered_listed (P := P) (g := g) roomy.unique (spaced.distinct g)
  have ordered : Ordered Sibling.id Sibling.position ((P.listed g rows).filter (·.id ≠ x)) :=
    ⟨listed.increasing.sublist (List.filter_sublist.map _), listed.keys.sublist (List.filter_sublist.map _)⟩
  have apart := spaced.listed (g := g) (L := (P.listed g rows).filter (·.id ≠ x)) fun _ member =>
    Positioning.mem_listed_iff.mp (List.mem_of_mem_filter member)
  obtain ⟨k, fits, rfl⟩ := resolveAfter_slot resolved
  apply Holds.transaction
  apply Holds.query
  intro o ran
  obtain ⟨a, member, same, _, written⟩ := Statement.update_ok ran
  have own : P.id a = x := of_decide_eq_true same
  obtain ⟨b, stands, sameB, hereB⟩ := here
  obtain rfl : a = b := toRow_injective (roomy.unique.eq_of_key (mem_table.mp member)
    (mem_table.mp stands) (by rw [P.key_toRow, P.key_toRow, own, sameB]))
  have keeps : P.Keeps ((P.listed g rows).filter (·.id ≠ x)) g (some x)
      (Positioning.still ((P.listed g rows).filter (·.id ≠ x))) [] rows := by
    apply Positioning.keeps_start
    intro i p there other
    exact List.mem_filter.mpr ⟨Positioning.mem_listed_iff.mpr there, by
      simpa using fun same : i = x => other (congrArg some same.symm)⟩
  have arranged := Positioning.Arranged.shift
    (a := P.reposition (sliceSlot ((P.listed g rows).filter (·.id ≠ x)) k).midpoint a)
    (by rw [P.id_reposition, own]; exact keeps) ((P.group_reposition _ a).trans hereB)
    (P.position_reposition _ a)
  have mine : P.entryKey (P.id (P.reposition (sliceSlot ((P.listed g rows).filter (·.id ≠ x)) k).midpoint a)) ∈
      touched [Write.put (toRow (P.reposition (sliceSlot ((P.listed g rows).filter (·.id ≠ x)) k).midpoint a) : Row)] := by
    rw [← P.key_toRow]
    exact List.mem_singleton_self _
  rw [List.nil_append, written]
  rw [P.id_reposition, own] at arranged mine
  exact ⟨places arranged ordered.keys mine (midpoint_gapped ordered fits apart room), rfl⟩

/-- A deletion of rows of its own. -/
theorem holds_delete [Entity Row α] {where_ : Where Row α} (spaced : Spaced rows) :
    (transaction (query (.deleteMany where_)) : Service Nat).Holds CommitsSpaced
      (fun _ _ W => W = []) (fun _ _ _ => True) rows [] := by
  apply Holds.transaction
  apply Holds.query
  intro o ran
  rw [(Statement.deleteMany_ok ran).2, List.nil_append]
  exact ⟨spaced.quiet fun row member => puts_of_deletion member, rfl⟩

theorem holds_removeChecklist (roomy : Roomy rows) {workspaceId taskId actorId checklistId : Id} :
    (ChecklistService.remove workspaceId taskId actorId checklistId).Holds CommitsSpaced
      (fun _ _ _ => True) (fun _ _ _ => True) rows [] := by
  unfold ChecklistService.remove TaskReadService.findTaskBasic
  apply Holds.bind
  apply Holds.found
  intro task _
  apply Holds.bind
  apply (holds_delete roomy.spaced).weaken _ fun _ _ _ _ => trivial
  rintro count rows _ rfl
  apply Holds.bind
  apply Holds.require
  intro _
  exact holds_emitUpdated

theorem holds_removeItem (roomy : Roomy rows) {workspaceId taskId actorId itemId : Id} :
    (ChecklistItemService.remove workspaceId taskId actorId itemId).Holds CommitsSpaced
      (fun _ _ _ => True) (fun _ _ _ => True) rows [] := by
  unfold ChecklistItemService.remove TaskReadService.findTaskBasic
  apply Holds.bind
  apply Holds.found
  intro task _
  apply Holds.bind
  apply (holds_delete roomy.spaced).weaken _ fun _ _ _ _ => trivial
  rintro count rows _ rfl
  apply Holds.bind
  apply Holds.require
  intro _
  exact holds_emitUpdated

end Calls

/-- The slot after `afterId` in a list leaves room for one more row. -/
def Positioning.RoomAfter [Entity Row α] (P : Positioning α) (g x : Id) (afterId : Option Id)
    (rows : List Row) : Prop :=
  ∀ slot ∈ (resolveAfter ((P.listed g rows).filter (·.id ≠ x)) afterId "").toOption,
    needsRebalance (slot.prev.map Sibling.position) (slot.next.map Sibling.position) = false

instance [Entity Row α] (P : Positioning α) (g x : Id) (afterId : Option Id) (rows : List Row) :
    Decidable (P.RoomAfter g x afterId rows) :=
  inferInstanceAs (Decidable (∀ slot ∈ Except.toOption _, _))

/-- A move of a checklist or an item goes into a gap that is wide enough. -/
def BoardListCall.HasRoom (rows : List Row) : BoardListCall → Prop
  | .list (.moveChecklist _ taskId _ checklistId dto) =>
      checklistPositions.RoomAfter taskId checklistId dto.afterId rows
  | .list (.moveItem workspaceId taskId _ itemId dto) =>
      ∀ owner ∈ (table rows).find? (scopedChecklistItem workspaceId taskId itemId rows),
        checklistItemPositions.RoomAfter owner.checklistId itemId dto.afterId rows
  | _ => True

instance (rows : List Row) (call : BoardListCall) : Decidable (call.HasRoom rows) :=
  match call with
  | .task _ | .column _ | .removeChecklist .. | .removeItem .. | .list (.createChecklist ..)
  | .list (.createItem ..) => inferInstanceAs (Decidable True)
  | .list (.moveChecklist ..) => inferInstanceAs (Decidable (Positioning.RoomAfter ..))
  | .list (.moveItem ..) => inferInstanceAs (Decidable (∀ owner ∈ List.find? _ _, _))

section Lists

variable {rows : List Row}

theorem resolveAfter_message {others : List Sibling} {afterId : Option Id} {message : String}
    {slot : InsertionSlot} (resolved : resolveAfter others afterId message = .ok slot) (other : String) :
    resolveAfter others afterId other = .ok slot := by
  simp only [resolveAfter] at resolved ⊢
  generalize (if truthy afterId then others.findIdx? (some ·.id = afterId) else none) = found at *
  split at resolved
  · contradiction
  · rename_i hit
    rw [if_neg hit]
    exact resolved

theorem Positioning.RoomAfter.room [Entity Row α] {P : Positioning α} {g x : Id} {afterId : Option Id}
    {message : String} {slot : InsertionSlot} (room : P.RoomAfter g x afterId rows)
    (resolved : resolveAfter ((P.listed g rows).filter (·.id ≠ x)) afterId message = .ok slot) :
    needsRebalance (slot.prev.map Sibling.position) (slot.next.map Sibling.position) = false := by
  apply room slot
  rw [resolveAfter_message resolved ""]
  rfl

theorem holds_list (roomy : Roomy rows) {call : ListCall} (room : (BoardListCall.list call).HasRoom rows) :
    call.service.Holds CommitsSpaced (fun _ _ _ => True) (fun _ _ _ => True) rows [] := by
  cases call with
  | createChecklist workspaceId taskId actorId dto =>
      apply Holds.bind
      apply Holds.bind
      apply Holds.found
      intro task _
      apply Holds.bind
      apply Holds.weaken (holds_append (P := checklistPositions) (k := .task task.id)
        (fun given position =>
          { id := given.id, taskId := task.id, title := dto.title, position }) roomy
        roomy.spaced.checklists (fun _ _ => ⟨rfl, rfl⟩)
        fun arranged keys mine gapped => roomy.spaced.placeChecklist arranged keys mine gapped) _
        fun _ _ _ _ => trivial
      rintro _ rows _ rfl
      exact holds_emitUpdated
  | moveChecklist workspaceId taskId actorId checklistId dto =>
      apply Holds.bind
      apply Holds.bind
      apply Holds.found
      intro task _
      apply Holds.bind
      apply Holds.read
      apply Holds.bind
      apply Holds.require
      intro listed
      obtain ⟨sibling, member, same⟩ := List.any_eq_true.mp listed
      obtain ⟨checklist, stands, here, sameId, _⟩ := Positioning.mem_listed.mp member
      apply Holds.bind
      apply Holds.ofExcept
      intro slot resolved
      apply Holds.bind
      apply Holds.weaken (holds_shift (P := checklistPositions) roomy roomy.spaced.checklists
        ⟨checklist, stands, sameId.trans (of_decide_eq_true same), here⟩ resolved (room.room resolved)
        fun arranged keys mine gapped => roomy.spaced.placeChecklist arranged keys mine gapped) _
        fun _ _ _ _ => trivial
      rintro _ rows _ rfl
      exact holds_emitUpdated
  | createItem workspaceId taskId actorId checklistId dto =>
      apply Holds.bind
      apply Holds.bind
      apply Holds.found
      intro task _
      apply Holds.bind
      apply Holds.found
      intro checklist _
      apply Holds.bind
      apply Holds.weaken (holds_append (P := checklistItemPositions) (k := .checklist checklistId)
        (fun given position =>
          { id := given.id, checklistId, content := dto.content, position }) roomy
        roomy.spaced.items (fun _ _ => ⟨rfl, rfl⟩)
        fun arranged keys mine gapped => roomy.spaced.placeItem arranged keys mine gapped) _
        fun _ _ _ _ => trivial
      rintro _ rows _ rfl
      exact holds_emitUpdated
  | moveItem workspaceId taskId actorId itemId dto =>
      apply Holds.bind
      apply Holds.bind
      apply Holds.found
      intro task _
      apply Holds.bind
      apply Holds.found
      intro owner hit
      have same : owner.id = itemId := by
        have chosen := List.find?_some hit
        simp only [scopedChecklistItem, Bool.and_eq_true, decide_eq_true_eq] at chosen
        exact chosen.1
      apply Holds.bind
      apply Holds.read
      apply Holds.bind
      apply Holds.ofExcept
      intro slot resolved
      apply Holds.bind
      apply Holds.weaken (holds_shift (P := checklistItemPositions) roomy roomy.spaced.items
        ⟨owner, List.mem_of_find?_eq_some hit, same, rfl⟩ resolved ((room owner hit).room resolved)
        fun arranged keys mine gapped => roomy.spaced.placeItem arranged keys mine gapped) _
        fun _ _ _ _ => trivial
      rintro _ rows _ rfl
      exact holds_emitUpdated

theorem BoardListCall.holds (roomy : Roomy rows) {call : BoardListCall} (room : call.HasRoom rows) :
    call.service.Holds CommitsSpaced (fun _ _ _ => True) (fun _ _ _ => True) rows [] := by
  cases call with
  | task call =>
      cases call with
      | create => exact Holds.bind ((holds_createTask roomy).weaken (fun _ _ _ _ => trivial) fun _ _ _ _ => trivial)
      | move => exact Holds.bind ((holds_moveTask roomy).weaken (fun _ _ _ _ => trivial) fun _ _ _ _ => trivial)
      | remove => exact holds_removeTask roomy
  | column call =>
      cases call with
      | create => exact Holds.bind ((holds_createColumn roomy).weaken (fun _ _ _ _ => trivial) fun _ _ _ _ => trivial)
      | createDefaults =>
          exact Holds.bind ((holds_createDefaults roomy).weaken (fun _ _ _ _ => trivial) fun _ _ _ _ => trivial)
      | move => exact Holds.bind ((holds_moveColumn roomy).weaken (fun _ _ _ _ => trivial) fun _ _ _ _ => trivial)
      | remove => exact holds_removeColumn roomy
  | list call => exact holds_list roomy room
  | removeChecklist => exact Holds.bind (holds_removeChecklist roomy)
  | removeItem => exact Holds.bind (holds_removeItem roomy)

/-- Each call of a run that moves a checklist or an item finds room for it. -/
def Rooms (oracle : Nat → Choice Input Error) : List BoardListCall → Store.Session Row Key Event → Prop
  | [], _ => True
  | call :: rest, s => call.HasRoom s.rows ∧
      Rooms oracle rest (call.service.run oracle { s with pending := [] }).2

/-- Where each move of a checklist or an item finds room, all siblings stay apart, after
every commit of every run. -/
theorem lists_stay_spaced {oracle : Nat → Choice Input Error} {calls : List BoardListCall}
    {s : Store.Session Row Key Event} (unique : UniqueKeys s.rows) (spaced : Spaced s.rows)
    (rooms : Rooms oracle calls s) :
    Spaced (runAll oracle (calls.map BoardListCall.service) s).rows ∧
      ∃ more, (runAll oracle (calls.map BoardListCall.service) s).log = s.log ++ more ∧
        ∀ before W, .committed before W ∈ more → Spaced (applyAll before W) := by
  induction calls generalizing s with
  | nil => exact ⟨spaced, [], (List.append_nil _).symm, by simp⟩
  | cons call rest ih =>
      obtain ⟨room, later⟩ := rooms
      have roomy : Roomy s.rows := ⟨unique, spaced⟩
      have holds := BoardListCall.holds roomy room
      obtain ⟨_, first, log, kept⟩ := holds.run (s := { s with pending := [] }) oracle
      have next := holds.keeping (s := { s with pending := [] }) (I := Roomy)
        (fun rows W before now => ⟨before.unique.applyAll W, now⟩) roomy oracle
      obtain ⟨ends, more, log', kept'⟩ := ih next.unique next.spaced later
      refine ⟨ends, first ++ more, ?_, ?_⟩
      · rw [← List.append_assoc, ← log]
        exact log'
      · intro before W member
        rcases List.mem_append.mp member with early | late
        · exact kept _ early
        · exact kept' before W late

end Lists

section Sample

/-- Every value asked for is named after its turn, and nothing fails. -/
def smooth (turn : Nat) : Choice Input Error := { value := { id := toString turn, now := turn } }

/-- A column, a task with a checklist of three items, and the last two of them moved
behind the first one in turn. -/
def squeeze (rounds : Nat) : List BoardListCall := [
  .column (.create "w" "b" "ann" { name := "To Do" }),
  .task (.create "w" "b" "ann" { columnId := "3", title := "Read" }),
  .list (.createChecklist "w" "13" "ann" { title := "Books" }),
  .list (.createItem "w" "13" "ann" "21" { content := "One" }),
  .list (.createItem "w" "13" "ann" "21" { content := "Two" }),
  .list (.createItem "w" "13" "ann" "21" { content := "Three" })] ++
  (List.range rounds).map fun round =>
    .list (.moveItem "w" "13" "ann" (if round % 2 = 0 then "48" else "39") { afterId := some "30" })

/-- No rows in any of the ordered lists. -/
structure NoLists (rows : List Row) : Prop where
  tasks : (table rows : List Task) = []
  columns : (table rows : List Column) = []
  checklists : (table rows : List Checklist) = []
  items : (table rows : List ChecklistItem) = []

theorem Positioning.spaced_of_none [Entity Row α] {P : Positioning α} {rows : List Row}
    (none : (table rows : List α) = []) : P.Spaced rows := by
  intro g a b p q left
  obtain ⟨row, member, _⟩ := Positioning.order_iff.mp left
  rw [none] at member
  cases member

theorem NoLists.spaced {rows : List Row} (none : NoLists rows) : Spaced rows where
  tasks := Positioning.spaced_of_none none.tasks
  columns := Positioning.spaced_of_none none.columns
  checklists := Positioning.spaced_of_none none.checklists
  items := Positioning.spaced_of_none none.items

theorem sampleWorkspace_noLists : NoLists sampleWorkspace := ⟨rfl, rfl, rfl, rfl⟩

/-- Thirty-one moves into the same gap bring two items closer than that. -/
theorem item_moves_run_out_of_room :
    ¬ ∀ (oracle : Nat → Choice Input Error) (calls : List BoardListCall) (rows : List Row),
      UniqueKeys rows → NoLists rows →
        Spaced (runAll oracle (calls.map BoardListCall.service) { rows }).rows := by
  intro claim
  have spaced := (claim smooth (squeeze 31) sampleWorkspace (by decide +kernel)
    sampleWorkspace_noLists).items
  have close : ∃ a ∈ (table (runAll smooth ((squeeze 31).map BoardListCall.service)
        { rows := sampleWorkspace }).rows : List ChecklistItem),
      ∃ b ∈ (table (runAll smooth ((squeeze 31).map BoardListCall.service)
        { rows := sampleWorkspace }).rows : List ChecklistItem),
      a.checklistId = "21" ∧ b.checklistId = "21" ∧ a.id ≠ b.id ∧
        ¬ a.position + LEAST_GAP ≤ b.position ∧ ¬ b.position + LEAST_GAP ≤ a.position := by
    decide +kernel
  obtain ⟨a, memberA, b, memberB, hereA, hereB, different, below, above⟩ := close
  rcases spaced "21" (Positioning.order_iff.mpr ⟨a, memberA, hereA, rfl, rfl⟩)
    (Positioning.order_iff.mpr ⟨b, memberB, hereB, rfl, rfl⟩) different with le | le
  · exact below le
  · exact above le

/-- Two such moves still find room. -/
theorem lists_stay_spaced_squeeze :
    Spaced (runAll smooth ((squeeze 2).map BoardListCall.service) { rows := sampleWorkspace }).rows :=
  (lists_stay_spaced (by decide +kernel) sampleWorkspace_noLists.spaced (by
    refine ⟨?_, ?_, ?_, ?_, ?_, ?_, ?_, ?_, trivial⟩ <;> decide +kernel)).1

end Sample

end Kurul
