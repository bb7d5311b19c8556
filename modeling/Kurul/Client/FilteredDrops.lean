import Kurul.Board.Insertions
import Kurul.Client.TaskDnd
import Kurul.Sequence.Glimpse

/-! A drop on a board that shows only some of a column's cards. The server puts the task where
the drop put it, unless a card that is not shown lies between the two it was put between: then it
refuses. -/
namespace Kurul.Client

open Sequence Store Prog

def sibling (task : TaskDto) : Sibling := { id := task.id, position := task.position }

def siblingPlace (item : Sibling) : ℚ ×ₗ Id := toLex (item.position, item.id)

/-- What the board shows of a column is as the server has it. -/
structure Shows (rows : List Row) (tasks : List TaskDto) (columnId : Id) : Prop where
  ids : (taskIds tasks).Nodup
  stands : ∀ task ∈ tasks, task.columnId = columnId → sibling task ∈ taskPositions.siblings columnId rows

/-- The server's column without the task that moves. -/
def remaining (rows : List Row) (columnId taskId : Id) : List Sibling :=
  (taskPositions.siblings columnId rows).filter fun item => item.id ≠ taskId

/-- A task of the column lies between the two neighbours of a drop. -/
def Hidden (rows : List Row) (columnId taskId : Id) (beforeTaskId afterTaskId : Option Id) : Prop :=
  ∃ before ∈ remaining rows columnId taskId, ∃ after ∈ remaining rows columnId taskId,
    beforeTaskId = some before.id ∧ afterTaskId = some after.id ∧
      ∃ item ∈ remaining rows columnId taskId,
        siblingPlace before < siblingPlace item ∧ siblingPlace item < siblingPlace after

section Column

variable {rows : List Row} {tasks : List TaskDto} {moving : TaskDto} {columnId : Id} {k : Nat}

theorem remaining_ids (unique : UniqueKeys rows) (taskId : Id) : ((remaining rows columnId taskId).map Sibling.id).Nodup :=
  (List.filter_sublist.map Sibling.id).nodup (Positioning.nodup_siblings (P := taskPositions) (g := columnId) unique)

theorem remaining_ordered (unique : UniqueKeys rows) (taskId : Id) :
    (remaining rows columnId taskId).Pairwise fun a b => siblingPlace a < siblingPlace b := by
  have sorted := (Positioning.sorted_siblings (P := taskPositions) columnId rows).sublist
    (List.filter_sublist (p := fun item => decide (item.id ≠ taskId)))
  refine (sorted.and (List.pairwise_map.mp (remaining_ids unique taskId))).imp ?_
  rintro a b ⟨before, different⟩
  rw [siblingPlace, siblingPlace, Prod.Lex.lt_iff]
  rcases before with lower | ⟨same, le⟩
  · exact .inl lower
  · exact .inr ⟨same, lt_of_le_of_ne le different⟩

/-- The cards between which one is dropped. -/
def shownCards (tasks : List TaskDto) (taskId columnId : Id) : List Sibling :=
  (sortTasks (others tasks taskId columnId)).map sibling

theorem shown_sublist (unique : UniqueKeys rows) (shows : Shows rows tasks columnId) (taskId : Id) :
    (shownCards tasks taskId columnId).Sublist (remaining rows columnId taskId) := by
  have ordered : (shownCards tasks taskId columnId).Pairwise fun a b => siblingPlace a < siblingPlace b :=
    List.pairwise_map.mpr (pairwise_sorted (distinct_places (nodup_others shows.ids _ _)))
  have nodup : (shownCards tasks taskId columnId).Nodup := ordered.imp fun less same => less.ne (congrArg siblingPlace same)
  have inside : shownCards tasks taskId columnId ⊆ remaining rows columnId taskId := by
    intro item listed
    obtain ⟨task, member, rfl⟩ := List.mem_map.mp listed
    have other : task ∈ others tasks taskId columnId := mem_sorted.mp member
    simp only [others, List.mem_filter, decide_eq_true_eq] at other
    exact List.mem_filter.mpr ⟨shows.stands task other.1.1 other.2, decide_eq_true other.1.2⟩
  exact List.sublist_of_subperm_of_pairwise (List.subperm_of_subset nodup inside) ordered (remaining_ordered unique taskId)

/-- The index at which the server finds a sibling. -/
theorem remaining_index (unique : UniqueKeys rows) {taskId : Id} {item : Sibling}
    (listed : item ∈ remaining rows columnId taskId) :
    ∃ m, (remaining rows columnId taskId)[m]? = some item ∧
      (remaining rows columnId taskId).findIdx? (fun other => decide (other.id = item.id)) = some m := by
  obtain ⟨m, inside, rfl⟩ := List.getElem_of_mem listed
  refine ⟨m, List.getElem?_eq_getElem inside, List.findIdx?_eq_some_iff_getElem.mpr ⟨inside, by simp, ?_⟩⟩
  intro j earlier
  have within : j < (remaining rows columnId taskId).length := earlier.trans inside
  simpa using fun same => earlier.ne (index_eq (remaining_ids unique taskId) within inside same)

/-- A drop between two cards with another task between them is refused. -/
theorem resolve_hidden (unique : UniqueKeys rows) {taskId : Id} {beforeTaskId afterTaskId : Option Id}
    (hidden : Hidden rows columnId taskId beforeTaskId afterTaskId) :
    resolveMoveNeighbors (remaining rows columnId taskId) beforeTaskId afterTaskId =
      .error (.notFound "Neighbor not found") := by
  obtain ⟨before, listed, after, listed', rfl, rfl, item, between, above, below⟩ := hidden
  obtain ⟨m, stands, found⟩ := remaining_index unique listed
  obtain ⟨n, stands', found'⟩ := remaining_index unique listed'
  have apart : n ≠ m + 1 := fun next =>
    ((next_iff (remaining_ordered unique taskId) stands stands').mp next).2 item between ⟨above, below⟩
  simp [resolveMoveNeighbors, found, found', adjacent, apart]

/-- A drop that has nothing hidden between its neighbours is put where the shown cards have it. -/
theorem resolve_shown (unique : UniqueKeys rows) (shows : Shows rows tasks columnId) {taskId : Id}
    (fits : k ≤ (shownCards tasks taskId columnId).length)
    (calm : ¬Hidden rows columnId taskId
      ((if k = 0 then none else (shownCards tasks taskId columnId)[k - 1]?).map Sibling.id)
      ((shownCards tasks taskId columnId)[k]?.map Sibling.id)) :
    ∃ m ≤ (remaining rows columnId taskId).length,
      resolveMoveNeighbors (remaining rows columnId taskId)
          ((if k = 0 then none else (shownCards tasks taskId columnId)[k - 1]?).map Sibling.id)
          ((shownCards tasks taskId columnId)[k]?.map Sibling.id) =
        .ok (sliceSlot (remaining rows columnId taskId) m) ∧
      Cut (remaining rows columnId taskId) (shownCards tasks taskId columnId) k m := by
  have sub := shown_sublist unique shows taskId
  have ordered : (remaining rows columnId taskId).Pairwise fun a b => siblingPlace a < siblingPlace b :=
    remaining_ordered unique taskId
  generalize shownCards tasks taskId columnId = shown at sub fits calm ⊢
  have known : ∀ {i : Nat} {item : Sibling}, shown[i]? = some item → item ∈ remaining rows columnId taskId :=
    fun stands => sub.subset (List.mem_of_getElem? stands)
  cases k with
  | zero =>
      cases behind : shown[0]? with
      | none =>
          obtain rfl : shown = [] := by simpa using behind
          exact ⟨_, le_rfl, by simp [resolveMoveNeighbors, truthy, adjacent], by simp, by simp⟩
      | some after =>
          obtain ⟨m, stands, found⟩ := remaining_index unique (known behind)
          refine ⟨m, ?_, ?_, cut_before ordered sub behind stands⟩
          · exact (List.getElem?_eq_some_iff.mp stands).1.le
          · simp [resolveMoveNeighbors, found, truthy, adjacent]
  | succ j =>
      have inside : j < shown.length := by omega
      have first := List.getElem?_eq_getElem inside
      obtain ⟨m, stands, found⟩ := remaining_index unique (known first)
      have within : m + 1 ≤ (remaining rows columnId taskId).length := (List.getElem?_eq_some_iff.mp stands).1
      refine ⟨m + 1, within, ?_, cut_behind ordered sub first stands⟩
      cases behind : shown[j + 1]? with
      | none => simp [resolveMoveNeighbors, first, found, truthy, adjacent]
      | some after =>
          obtain ⟨n, stands', found'⟩ := remaining_index unique (known behind)
          have less : siblingPlace shown[j] < siblingPlace after := by
            obtain ⟨inside', rfl⟩ := List.getElem?_eq_some_iff.mp behind
            exact List.pairwise_iff_getElem.mp (ordered.sublist sub) j (j + 1) inside inside' (Nat.lt_succ_self j)
          have next : n = m + 1 := by
            refine (next_iff ordered stands stands').mpr ⟨less, fun item listed between => ?_⟩
            refine calm ⟨_, known first, _, known behind, ?_, ?_, item, listed, between⟩
            · simp [first]
            · simp [behind]
          simp [resolveMoveNeighbors, first, found, found', adjacent, next]

theorem insertionIndex_le {over_ : Option Id} {columnTasks : List TaskDto} :
    insertionIndex moving columnId over_ columnTasks ≤ columnTasks.length := by
  unfold insertionIndex
  split
  · exact le_rfl
  · rename_i i found
    obtain ⟨id, _, index⟩ := Option.bind_eq_some_iff.mp found
    have inside := (List.findIdx?_eq_some_iff_getElem.mp index).1
    split <;> omega

/-- The column as it is drawn after a drop: the shown cards with the dropped one between the two
neighbours that the request names. -/
theorem drawn_drop (ids : (taskIds tasks).Nodup) (here : moving ∈ tasks) (columnId : Id) (over_ : Option Id) :
    ∃ k ≤ (shownCards tasks moving.id columnId).length, ∃ applied, applyMove tasks moving.id columnId over_ = some applied ∧
      applied.beforeTaskId = (if k = 0 then none else (shownCards tasks moving.id columnId)[k - 1]?).map Sibling.id ∧
      applied.afterTaskId = (shownCards tasks moving.id columnId)[k]?.map Sibling.id ∧
      taskIds (applied.nextTasks.filter (·.columnId = columnId)) =
        ((shownCards tasks moving.id columnId).map Sibling.id).insertIdx k moving.id := by
  let cards := sortTasks (others tasks moving.id columnId)
  let k := insertionIndex moving columnId over_ cards
  let updated : TaskDto := { moving with
    columnId
    position := midpoint ((if k = 0 then none else cards[k - 1]?).map TaskDto.position) (cards[k]?.map TaskDto.position) }
  have fits : k ≤ cards.length := insertionIndex_le
  have inColumn : ∀ task ∈ cards, task.columnId = columnId := by
    intro task listed
    have member : task ∈ others tasks moving.id columnId := mem_sorted.mp listed
    simpa using (List.mem_filter.mp member).2
  refine ⟨k, by simpa [shownCards] using fits, {
    nextTasks := (tasks.filter (·.id ≠ moving.id)).filter (·.columnId ≠ columnId) ++ cards.insertIdx k updated
    beforeTaskId := (if k = 0 then none else cards[k - 1]?).map TaskDto.id
    afterTaskId := cards[k]?.map TaskDto.id }, ?_, ?_, ?_, ?_⟩
  · simp only [applyMove, find_task ids here, Option.bind_eq_bind, Option.bind_some]
    rfl
  · change _ = Option.map Sibling.id (if k = 0 then none else (cards.map sibling)[k - 1]?)
    split
    · rfl
    · rw [List.getElem?_map, Option.map_map]
      rfl
  · change _ = Option.map Sibling.id (cards.map sibling)[k]?
    rw [List.getElem?_map, Option.map_map]
    rfl
  · have away : ((tasks.filter (·.id ≠ moving.id)).filter (·.columnId ≠ columnId)).filter (·.columnId = columnId) = [] := by
      rw [List.filter_eq_nil_iff]
      intro task listed
      simpa using (List.mem_filter.mp listed).2
    have kept : (cards.insertIdx k updated).filter (·.columnId = columnId) = cards.insertIdx k updated := by
      rw [List.filter_eq_self]
      intro task listed
      rcases (List.mem_insertIdx fits).mp listed with rfl | listed
      · simp [updated]
      · simpa using inColumn task listed
    rw [List.filter_append, away, kept, List.nil_append, taskIds, List.map_insertIdx, shownCards, List.map_map]
    rfl

end Column

/-- The server performs a drop unless a task that is not shown lies between its neighbours. Where
it has performed it, the cards that are shown stand in its column as the drop has drawn them. -/
theorem drops_land_as_drawn (oracle : Nat → Choice Input Error) (s : Store.Session Row Key Event)
    (unique : UniqueKeys s.rows) (settled : s.pending = []) {tasks : List TaskDto} {moving : TaskDto} {columnId : Id}
    (shows : Shows s.rows tasks columnId) (here : moving ∈ tasks) (overTaskId : Option Id) (workspaceId userId : Id) :
    ∃ applied, applyMove tasks moving.id columnId overTaskId = some applied ∧
      ((∃ slot, resolveMoveNeighbors (remaining s.rows columnId moving.id) applied.beforeTaskId applied.afterTaskId = .ok slot) ↔
        ¬Hidden s.rows columnId moving.id applied.beforeTaskId applied.afterTaskId) ∧
      ∀ result, ((TaskService.move workspaceId moving.id userId {
          columnId, beforeTaskId := applied.beforeTaskId, afterTaskId := applied.afterTaskId }).run oracle s).1 = .ok result →
        ¬Hidden s.rows columnId moving.id applied.beforeTaskId applied.afterTaskId ∧
          (taskPositions.ids columnId ((TaskService.move workspaceId moving.id userId {
              columnId, beforeTaskId := applied.beforeTaskId, afterTaskId := applied.afterTaskId }).run oracle s).2.rows).filter
            (· ∈ taskIds (applied.nextTasks.filter (·.columnId = columnId))) =
          taskIds (applied.nextTasks.filter (·.columnId = columnId)) := by
  obtain ⟨k, fits, applied, made, before, after, drawn⟩ := drawn_drop shows.ids here columnId overTaskId
  have refused : ∀ slot,
    resolveMoveNeighbors (remaining s.rows columnId moving.id) applied.beforeTaskId applied.afterTaskId =
      .ok slot → ¬Hidden s.rows columnId moving.id applied.beforeTaskId applied.afterTaskId := by
    intro slot resolved hidden
    rw [resolve_hidden unique hidden] at resolved
    cases resolved
  have accepted := resolve_shown unique shows fits
  rw [← before, ← after] at accepted
  refine ⟨applied, made, ⟨?_, ?_⟩, ?_⟩
  · rintro ⟨slot, resolved⟩
    exact refused slot resolved
  · intro calm
    obtain ⟨m, _, resolved, _⟩ := accepted calm
    exact ⟨_, resolved⟩
  · intro result ran
    obtain ⟨_, slot, resolved, moved⟩ := returned (inserts_moveTask unique) settled oracle ran
    have calm := refused slot resolved
    refine ⟨calm, ?_⟩
    obtain ⟨m, inside, same, cut⟩ := accepted calm
    cases same.symm.trans resolved
    rw [moved, drawn, ← ids_filter]
    refine (cut.map Sibling.id).filter_insertIdx ((shown_sublist unique shows moving.id).map Sibling.id)
      (remaining_ids unique moving.id) (by simpa using fits) (by simpa using inside) ?_
    intro listed
    obtain ⟨item, member, same⟩ := List.mem_map.mp listed
    exact absurd same (by simpa using (List.mem_filter.mp member).2)

/-- A column of four cards. -/
def fourCards : List Row := sampleWorkspace ++ [
  .column { id := "c", boardId := "b", name := "To Do", position := 1000 },
  .task { id := "s", boardId := "b", columnId := "c", title := "s", position := 1000, createdById := "ann" },
  .task { id := "t", boardId := "b", columnId := "c", title := "t", position := 2000, createdById := "ann" },
  .task { id := "u", boardId := "b", columnId := "c", title := "u", position := 3000, createdById := "ann" },
  .task { id := "v", boardId := "b", columnId := "c", title := "v", position := 4000, createdById := "ann" }]

/-- The board with the second of them filtered out. -/
def threeShown : List TaskDto := [cardAt "s" "c" 1000, cardAt "u" "c" 3000, cardAt "v" "c" 4000]

/-- Between the first and the third a drop is refused for the hidden second one. -/
example : ((applyMove threeShown "v" "c" (some "u")).map fun applied =>
    resolveMoveNeighbors (remaining fourCards "c" "v") applied.beforeTaskId applied.afterTaskId) =
      some (.error (.notFound "Neighbor not found")) := by decide +kernel

/-- In front of the first the last one is put. -/
def toFront : Service TaskDto :=
  TaskService.move "w" "v" "ann" { columnId := "c", beforeTaskId := none, afterTaskId := some "s" }

theorem drops_land_as_drawn_front :
    (taskPositions.ids "c" (toFront.run smooth { rows := fourCards }).2.rows).filter (· ∈ ["v", "s", "u"])
      = ["v", "s", "u"] := by
  have shows : Shows fourCards threeShown "c" := ⟨by decide, by decide +kernel⟩
  have here : cardAt "v" "c" 4000 ∈ threeShown := by decide
  obtain ⟨applied, made, _, lands⟩ :=
    drops_land_as_drawn smooth { rows := fourCards } (by decide +kernel) rfl shows here (some "s") "w" "ann"
  have request : (applyMove threeShown "v" "c" (some "s")).map (fun applied =>
      (applied.beforeTaskId, applied.afterTaskId, taskIds (applied.nextTasks.filter (·.columnId = "c")))) =
        some (none, some "s", ["v", "s", "u"]) := by decide +kernel
  have made : applyMove threeShown "v" "c" (some "s") = some applied := made
  rw [made, Option.map_some, Option.some.injEq, Prod.mk.injEq, Prod.mk.injEq] at request
  obtain ⟨before, after, drawn⟩ := request
  rw [before, after, drawn] at lands
  have ran : ((toFront.run smooth { rows := fourCards }).1.toOption).isSome := by decide +kernel
  cases answer : (toFront.run smooth { rows := fourCards }).1 with
  | ok result => exact (lands result answer).2
  | error error =>
      rw [answer] at ran
      cases ran

end Kurul.Client
