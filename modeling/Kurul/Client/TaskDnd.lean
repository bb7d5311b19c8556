import Kurul.Client.BoardTasks
import Kurul.Sequence.Rank

/-! Dragging a card: the slot that is drawn, and the move that is made. Ids are compared as
`localeCompare` compares lower-case UUIDs. -/
namespace Kurul.Client

open Sequence

/-- What tasks are sorted by. -/
def place (task : TaskDto) : ℚ ×ₗ Id := toLex (task.position, task.id)

def sortTasks (tasks : List TaskDto) : List TaskDto := sorted place tasks

/-- A column as the board renders it. -/
def tasksByColumn (tasks : List TaskDto) (columnId : Id) : List TaskDto :=
  sortTasks (tasks.filter (·.columnId = columnId))

def dropSlotIndex (tasks : List TaskDto) (targetColumnId : Id) (overTaskId : Option Id) : Nat :=
  let columnTasks := sortTasks (tasks.filter (·.columnId = targetColumnId))
  (overTaskId.bind fun id => columnTasks.findIdx? (·.id = id)).getD columnTasks.length

/-- Moving down within a column the card is put behind the one it is dropped on. -/
def insertionIndex (moving : TaskDto) (targetColumnId : Id) (overTaskId : Option Id) (columnTasks : List TaskDto) : Nat :=
  match overTaskId.bind fun id => columnTasks.findIdx? (·.id = id) with
  | none => columnTasks.length
  | some overIndex =>
      if moving.columnId = targetColumnId && (columnTasks[overIndex]?).any (moving.position < ·.position) then
        overIndex + 1
      else overIndex

structure AppliedMove where
  nextTasks : List TaskDto
  beforeTaskId : Option Id
  afterTaskId : Option Id

/-- The midpoint is the one the server computes. -/
def applyMove (tasks : List TaskDto) (taskId targetColumnId : Id) (overTaskId : Option Id) : Option AppliedMove := do
  let moving ← tasks.find? (·.id = taskId)
  let without := tasks.filter (·.id ≠ taskId)
  let columnTasks := sortTasks (without.filter (·.columnId = targetColumnId))
  let index := insertionIndex moving targetColumnId overTaskId columnTasks
  let before := if index = 0 then none else columnTasks[index - 1]?
  let after := columnTasks[index]?
  let position := midpoint (before.map TaskDto.position) (after.map TaskDto.position)
  let updated := { moving with columnId := targetColumnId, position }
  return {
    nextTasks := without.filter (·.columnId ≠ targetColumnId) ++ columnTasks.insertIdx index updated
    beforeTaskId := before.map TaskDto.id
    afterTaskId := after.map TaskDto.id }

section Drops

variable {tasks : List TaskDto} {moving over_ : TaskDto} {columnId : Id}

/-- The cards a dropped one is put among. -/
def others (tasks : List TaskDto) (taskId columnId : Id) : List TaskDto :=
  (tasks.filter (·.id ≠ taskId)).filter (·.columnId = columnId)

theorem distinct_places (ids : (taskIds tasks).Nodup) : (tasks.map place).Nodup := by
  refine List.Nodup.of_map (fun p : ℚ ×ₗ Id => (ofLex p).2) ?_
  rw [List.map_map]
  exact ids

theorem nodup_others (ids : (taskIds tasks).Nodup) (taskId columnId : Id) :
    (taskIds (others tasks taskId columnId)).Nodup :=
  ids.sublist ((List.filter_sublist.trans List.filter_sublist).map TaskDto.id)

theorem find_task (ids : (taskIds tasks).Nodup) (member : moving ∈ tasks) :
    tasks.find? (·.id = moving.id) = some moving := by
  obtain ⟨i, inside, rfl⟩ := List.getElem_of_mem member
  rw [List.find?_eq_some_iff_getElem]
  refine ⟨by simp, i, inside, rfl, ?_⟩
  intro j before
  have within : j < tasks.length := Nat.lt_trans before inside
  simpa using fun same => before.ne (Sequence.index_eq ids within inside same)

/-- A task is told from the others by its id. -/
theorem tells_id (ids : (taskIds tasks).Nodup) (member : moving ∈ tasks) :
    ∀ b ∈ tasks, (decide (b.id = moving.id) = true ↔ b = moving) := by
  intro b listed
  rw [decide_eq_true_eq]
  constructor
  · intro same
    have found := find_task ids listed
    rw [same, find_task ids member] at found
    exact (Option.some.inj found).symm
  · exact fun same => congrArg TaskDto.id same

/-- The tasks with one of them in front. -/
theorem perm_without (ids : (taskIds tasks).Nodup) (member : moving ∈ tasks) :
    tasks.Perm (moving :: tasks.filter (·.id ≠ moving.id)) := by
  have split := List.filter_append_perm (fun task : TaskDto => decide (task.id = moving.id)) tasks
  have self : tasks.filter (·.id = moving.id) = [moving] := by
    rw [← List.perm_singleton]
    refine (List.perm_ext_iff_of_nodup ?_ (List.nodup_singleton _)).mpr ?_
    · exact (List.Nodup.of_map _ ids).filter _
    · intro task
      rw [List.mem_filter, List.mem_singleton]
      constructor
      · rintro ⟨listed, same⟩
        exact (tells_id ids member task listed).mp same
      · rintro rfl
        exact ⟨member, by simp⟩
  rw [self] at split
  simpa using split.symm

/-- The column a card is dropped into, without the card. -/
def gapColumn (tasks : List TaskDto) (moving over_ : TaskDto) : List TaskDto :=
  sortTasks (others tasks moving.id over_.columnId)

/-- The cards between which a card dropped on another is put: below it when it is moved down
within its column, else above. -/
def gap (tasks : List TaskDto) (moving over_ : TaskDto) : Option TaskDto × Option TaskDto :=
  let column := gapColumn tasks moving over_
  let index := column.findIdx (·.id = over_.id)
  if moving.columnId = over_.columnId ∧ moving.position < over_.position then (column[index]?, column[index + 1]?)
  else (if index = 0 then none else column[index - 1]?, column[index]?)

/-- The card does not come from right above at the same position, and between cards at one
position its id puts it there. -/
structure DropFits (tasks : List TaskDto) (moving over_ : TaskDto) : Prop where
  apart : ¬(moving.columnId = over_.columnId ∧ moving.position = over_.position ∧ moving.id < over_.id)
  room : ∀ before after, gap tasks moving over_ = (some before, some after) →
    before.position < after.position ∨ before.id < moving.id ∧ moving.id < after.id

theorem place_lt {a b : TaskDto} : place a < place b ↔ a.position < b.position ∨ a.position = b.position ∧ a.id < b.id :=
  Prod.Lex.lt_iff

theorem ordered_gapColumn (ids : (taskIds tasks).Nodup) :
    (gapColumn tasks moving over_).Pairwise fun a b => place a < place b :=
  pairwise_sorted (distinct_places (nodup_others ids _ _))

/-- The card dropped on and its index among the others. -/
theorem gapColumn_index (ids : (taskIds tasks).Nodup) (there : over_ ∈ tasks) (different : moving.id ≠ over_.id) :
    ∃ i, ∃ inside : i < (gapColumn tasks moving over_).length, (gapColumn tasks moving over_)[i] = over_ ∧
      (gapColumn tasks moving over_).findIdx? (·.id = over_.id) = some i ∧
      rank place (place over_) (gapColumn tasks moving over_) = i := by
  have member : over_ ∈ others tasks moving.id over_.columnId := by
    simp [others, there, different.symm]
  have listed : over_ ∈ gapColumn tasks moving over_ := mem_sorted.mpr member
  obtain ⟨i, inside, same⟩ := List.getElem_of_mem listed
  have index := rank_getElem (ordered_gapColumn ids) inside
  rw [same] at index
  have found := findIdx?_sorted (distinct_places (nodup_others ids moving.id over_.columnId)) member
    (tells_id (nodup_others ids moving.id over_.columnId) member)
  have perm : (gapColumn tasks moving over_).Perm (others tasks moving.id over_.columnId) := sorted_perm _
  rw [← rank_perm perm, index] at found
  exact ⟨i, inside, same, found, index⟩

/-- The slot drawn is that of the card dropped on, the moved one counted. -/
theorem dropSlotIndex_eq (ids : (taskIds tasks).Nodup) (here : moving ∈ tasks) (there : over_ ∈ tasks) :
    dropSlotIndex tasks over_.columnId (some over_.id) = rank place (place over_) (gapColumn tasks moving over_) +
      if moving.columnId = over_.columnId ∧ place moving < place over_ then 1 else 0 := by
  have column : (tasks.filter (·.columnId = over_.columnId)).Perm
      ((moving :: tasks.filter (·.id ≠ moving.id)).filter (·.columnId = over_.columnId)) :=
    (perm_without ids here).filter _
  have nodup : (taskIds (tasks.filter (·.columnId = over_.columnId))).Nodup :=
    ids.sublist (List.filter_sublist.map TaskDto.id)
  have member : over_ ∈ tasks.filter (·.columnId = over_.columnId) := by simp [there]
  have found := findIdx?_sorted (distinct_places nodup) member (tells_id nodup member)
  have perm : (gapColumn tasks moving over_).Perm (others tasks moving.id over_.columnId) := sorted_perm _
  have slot : dropSlotIndex tasks over_.columnId (some over_.id) =
      rank place (place over_) (tasks.filter (·.columnId = over_.columnId)) := by
    simp only [dropSlotIndex, sortTasks, Option.bind_some, found, Option.getD_some]
  rw [slot, rank_perm column, rank_perm perm, List.filter_cons, others]
  by_cases own : moving.columnId = over_.columnId
  · simp only [own, decide_true, if_true, rank_cons, true_and]
  · simp [own]

theorem insertionIndex_eq {i : Nat} (inside : i < (gapColumn tasks moving over_).length)
    (same : (gapColumn tasks moving over_)[i] = over_)
    (found : (gapColumn tasks moving over_).findIdx? (·.id = over_.id) = some i) :
    insertionIndex moving over_.columnId (some over_.id) (gapColumn tasks moving over_) =
      if moving.columnId = over_.columnId ∧ moving.position < over_.position then i + 1 else i := by
  simp only [insertionIndex, Option.bind_some, found, List.getElem?_eq_getElem inside, same, Option.any_some,
    Bool.and_eq_true, decide_eq_true_eq]

theorem gap_eq {i : Nat} (found : (gapColumn tasks moving over_).findIdx? (·.id = over_.id) = some i) :
    gap tasks moving over_ =
      let k := if moving.columnId = over_.columnId ∧ moving.position < over_.position then i + 1 else i
      (if k = 0 then none else (gapColumn tasks moving over_)[k - 1]?, (gapColumn tasks moving over_)[k]?) := by
  have index := (List.findIdx?_eq_some_iff_findIdx_eq.mp found).2
  unfold gap
  simp only [index]
  split <;> simp

/-- The card as it stands after the move. -/
def dropped (tasks : List TaskDto) (moving over_ : TaskDto) : TaskDto :=
  { moving with
    columnId := over_.columnId
    position := midpoint ((gap tasks moving over_).1.map TaskDto.position)
      ((gap tasks moving over_).2.map TaskDto.position) }

/-- After the move the card stands at its rank among the others of its column. -/
theorem index_dropped (ids : (taskIds tasks).Nodup) (here : moving ∈ tasks) (there : over_ ∈ tasks)
    (different : moving.id ≠ over_.id) :
    ∃ applied, applyMove tasks moving.id over_.columnId (some over_.id) = some applied ∧
      (tasksByColumn applied.nextTasks over_.columnId).findIdx? (·.id = moving.id) =
        some (rank place (place (dropped tasks moving over_)) (gapColumn tasks moving over_)) := by
  obtain ⟨i, inside, same, found, _⟩ := gapColumn_index ids there different
  have index := insertionIndex_eq inside same found
  have between := gap_eq found
  generalize moved : (if moving.columnId = over_.columnId ∧ moving.position < over_.position then i + 1 else i) = k
    at index between
  have fits : k ≤ (gapColumn tasks moving over_).length := by
    rw [← moved]
    split <;> omega
  refine ⟨{
    nextTasks := (tasks.filter (·.id ≠ moving.id)).filter (·.columnId ≠ over_.columnId) ++
      (gapColumn tasks moving over_).insertIdx k (dropped tasks moving over_)
    beforeTaskId := (gap tasks moving over_).1.map TaskDto.id
    afterTaskId := (gap tasks moving over_).2.map TaskDto.id }, ?_, ?_⟩
  · simp only [applyMove, find_task ids here, Option.bind_eq_bind, Option.bind_some, dropped, between, gapColumn,
      others] at index ⊢
    rw [index]
    rfl
  · have own : ∀ task ∈ gapColumn tasks moving over_, task.columnId = over_.columnId := by
      intro task listed
      have member : task ∈ others tasks moving.id over_.columnId := mem_sorted.mp listed
      simpa using (List.mem_filter.mp member).2
    have perm : (gapColumn tasks moving over_).Perm (others tasks moving.id over_.columnId) := sorted_perm _
    have column : (((tasks.filter (·.id ≠ moving.id)).filter (·.columnId ≠ over_.columnId) ++
        (gapColumn tasks moving over_).insertIdx k (dropped tasks moving over_)).filter
          (·.columnId = over_.columnId)).Perm (dropped tasks moving over_ :: gapColumn tasks moving over_) := by
      rw [List.filter_append]
      have gone : ((tasks.filter (·.id ≠ moving.id)).filter (·.columnId ≠ over_.columnId)).filter
          (·.columnId = over_.columnId) = [] := by
        rw [List.filter_eq_nil_iff]
        intro task listed
        simpa using (List.mem_filter.mp listed).2
      have inserted := List.perm_insertIdx (dropped tasks moving over_) (gapColumn tasks moving over_) fits
      have kept : (dropped tasks moving over_ :: gapColumn tasks moving over_).filter (·.columnId = over_.columnId) =
          dropped tasks moving over_ :: gapColumn tasks moving over_ := by
        rw [List.filter_eq_self]
        intro task listed
        rcases List.mem_cons.mp listed with rfl | listed
        · simp [dropped]
        · simpa using own task listed
      rw [gone, List.nil_append, ← kept]
      exact inserted.filter _
    have nodup : (taskIds (dropped tasks moving over_ :: gapColumn tasks moving over_)).Nodup := by
      refine List.nodup_cons.mpr ⟨?_, (perm.map TaskDto.id).nodup_iff.mpr (nodup_others ids _ _)⟩
      intro listed
      obtain ⟨task, member, equal⟩ := List.mem_map.mp listed
      have other : task ∈ others tasks moving.id over_.columnId := mem_sorted.mp member
      have kept : task.id ≠ moving.id := by simpa using (List.mem_filter.mp (List.mem_filter.mp other).1).2
      exact kept equal
    have nodup' := (column.map TaskDto.id).nodup_iff.mpr nodup
    have member := column.mem_iff.mpr (List.mem_cons_self (a := dropped tasks moving over_))
    have found := findIdx?_sorted (distinct_places nodup') member (tells_id nodup' member)
    rw [rank_perm column, rank_cons, if_neg (lt_irrefl _), Nat.add_zero] at found
    exact found

/-- The slot that is drawn is where the card lands. -/
def ShowsSlot (tasks : List TaskDto) (moving over_ : TaskDto) : Prop :=
  ∃ applied, applyMove tasks moving.id over_.columnId (some over_.id) = some applied ∧
    (tasksByColumn applied.nextTasks over_.columnId).findIdx? (·.id = moving.id) =
      some (dropSlotIndex tasks over_.columnId (some over_.id))

theorem showsSlot_iff_rank (ids : (taskIds tasks).Nodup) (here : moving ∈ tasks) (there : over_ ∈ tasks)
    (different : moving.id ≠ over_.id) : ShowsSlot tasks moving over_ ↔
      rank place (place (dropped tasks moving over_)) (gapColumn tasks moving over_) =
        dropSlotIndex tasks over_.columnId (some over_.id) := by
  obtain ⟨applied, made, index⟩ := index_dropped ids here there different
  constructor
  · rintro ⟨applied', made', index'⟩
    cases made.symm.trans made'
    exact Option.some.inj (index.symm.trans index')
  · intro same
    exact ⟨applied, made, by rw [index, same]⟩

theorem midpoint_between {p q : ℚ} (less : p < q) : p < midpoint (some p) (some q) ∧ midpoint (some p) (some q) < q := by
  unfold midpoint
  constructor <;> linarith

/-- Between the two cards of the gap, where there is room for the card. -/
theorem rank_dropped (ids : (taskIds tasks).Nodup) {k : Nat} (fits : k ≤ (gapColumn tasks moving over_).length)
    (between : gap tasks moving over_ =
      (if k = 0 then none else (gapColumn tasks moving over_)[k - 1]?, (gapColumn tasks moving over_)[k]?)) :
    rank place (place (dropped tasks moving over_)) (gapColumn tasks moving over_) = k ↔
      ∀ before after, gap tasks moving over_ = (some before, some after) →
        before.position < after.position ∨ before.id < moving.id ∧ moving.id < after.id := by
  have ordered := @ordered_gapColumn tasks moving over_ ids
  rw [rank_eq_iff ordered fits]
  constructor
  · rintro ⟨below, above⟩ before after neighbours
    rw [between, Prod.mk.injEq] at neighbours
    obtain ⟨first, second⟩ := neighbours
    have positive : k ≠ 0 := by
      rintro rfl
      simp at first
    rw [if_neg positive] at first
    obtain ⟨inside, rfl⟩ := List.getElem?_eq_some_iff.mp first
    obtain ⟨inside', rfl⟩ := List.getElem?_eq_some_iff.mp second
    have less := List.pairwise_iff_getElem.mp ordered (k - 1) k inside inside' (by omega)
    rcases place_lt.mp less with apart | ⟨tied, _⟩
    · exact Or.inl apart
    · have position : (dropped tasks moving over_).position = (gapColumn tasks moving over_)[k].position := by
        simp only [dropped, between, if_neg positive, first, second, Option.map_some, midpoint, tied]
        ring
      refine Or.inr ⟨?_, ?_⟩
      · rcases place_lt.mp (below _ positive first) with lower | ⟨_, id⟩
        · rw [position, tied] at lower
          exact absurd lower (lt_irrefl _)
        · exact id
      · have notBefore := above _ second
        have member : (gapColumn tasks moving over_)[k] ∈ others tasks moving.id over_.columnId :=
          mem_sorted.mp (List.getElem_mem inside')
        have other : (gapColumn tasks moving over_)[k].id ≠ moving.id := by
          simpa using (List.mem_filter.mp (List.mem_filter.mp member).1).2
        rw [place_lt, position] at notBefore
        have least : moving.id ≤ (gapColumn tasks moving over_)[k].id :=
          not_lt.mp fun lower => notBefore (Or.inr ⟨rfl, lower⟩)
        exact lt_of_le_of_ne least other.symm
  · intro room
    constructor
    · intro before positive first
      rw [place_lt]
      cases second : (gapColumn tasks moving over_)[k]? with
      | none =>
          left
          simp [dropped, between, if_neg positive, first, second, midpoint, POSITION_GAP]
      | some after =>
          have neighbours : gap tasks moving over_ = (some before, some after) := by
            rw [between, if_neg positive, first, second]
          rcases room before after neighbours with apart | ⟨id, _⟩
          · left
            simp only [dropped, neighbours, Option.map_some]
            exact (midpoint_between apart).1
          · obtain ⟨inside, rfl⟩ := List.getElem?_eq_some_iff.mp first
            obtain ⟨inside', rfl⟩ := List.getElem?_eq_some_iff.mp second
            have less := List.pairwise_iff_getElem.mp ordered (k - 1) k inside inside' (by omega)
            simp only [dropped, neighbours, Option.map_some]
            rcases place_lt.mp less with apart | ⟨tied, _⟩
            · exact Or.inl (midpoint_between apart).1
            · refine Or.inr ⟨?_, id⟩
              rw [tied]
              simp only [midpoint]
              ring
    · intro after second
      rw [place_lt, not_or, not_and]
      by_cases zero : k = 0
      · have neighbours : gap tasks moving over_ = (none, some after) := by
          rw [between, if_pos zero, second]
        have lower : (dropped tasks moving over_).position < after.position := by
          simp [dropped, neighbours, midpoint, POSITION_GAP]
        exact ⟨not_lt.mpr lower.le, fun same => absurd same.symm lower.ne⟩
      · obtain ⟨inside', rfl⟩ := List.getElem?_eq_some_iff.mp second
        have inside : k - 1 < (gapColumn tasks moving over_).length := by omega
        have first := List.getElem?_eq_getElem inside
        have neighbours : gap tasks moving over_ =
            (some (gapColumn tasks moving over_)[k - 1], some (gapColumn tasks moving over_)[k]) := by
          rw [between, if_neg zero, first, second]
        have less := List.pairwise_iff_getElem.mp ordered (k - 1) k inside inside' (by omega)
        simp only [dropped, neighbours, Option.map_some]
        rcases place_lt.mp less with apart | ⟨tied, _⟩
        · have upper := (midpoint_between apart).2
          exact ⟨not_lt.mpr upper.le, fun same => absurd same.symm upper.ne⟩
        · have id := (room _ _ neighbours).resolve_left (by rw [tied]; exact lt_irrefl _)
          have position : midpoint (some (gapColumn tasks moving over_)[k - 1].position)
              (some (gapColumn tasks moving over_)[k].position) = (gapColumn tasks moving over_)[k].position := by
            rw [tied]
            simp only [midpoint]
            ring
          rw [position]
          exact ⟨lt_irrefl _, fun _ => not_lt.mpr id.2.le⟩

/-- A card above the one it is dropped on, at the same position, stays above it. -/
theorem rank_dropped_tied (ids : (taskIds tasks).Nodup) (there : over_ ∈ tasks) (different : moving.id ≠ over_.id)
    (tied : moving.columnId = over_.columnId ∧ moving.position = over_.position ∧ moving.id < over_.id) :
    rank place (place (dropped tasks moving over_)) (gapColumn tasks moving over_) ≤
      rank place (place over_) (gapColumn tasks moving over_) := by
  obtain ⟨i, inside, same, found, index⟩ := @gapColumn_index tasks moving over_ ids there different
  have stays : ¬(moving.columnId = over_.columnId ∧ moving.position < over_.position) := by
    rw [tied.2.1]
    exact fun lowers => lt_irrefl _ lowers.2
  have between := gap_eq found
  rw [if_neg stays] at between
  have second : (gapColumn tasks moving over_)[i]? = some over_ := by rw [List.getElem?_eq_getElem inside, same]
  have lower : (dropped tasks moving over_).position ≤ over_.position := by
    by_cases zero : i = 0
    · simp only [dropped, between, if_pos zero, second, Option.map_none, Option.map_some, midpoint, POSITION_GAP]
      linarith
    · have inside' : i - 1 < (gapColumn tasks moving over_).length := by omega
      have less := List.pairwise_iff_getElem.mp (ordered_gapColumn ids) (i - 1) i inside' inside (by omega)
      rw [same] at less
      have below : (gapColumn tasks moving over_)[i - 1].position ≤ over_.position := by
        rcases place_lt.mp less with apart | ⟨equal, _⟩
        · exact apart.le
        · exact equal.le
      simp only [dropped, between, if_neg zero, List.getElem?_eq_getElem inside', second, Option.map_some, midpoint]
      linarith
  rw [index]
  by_contra more
  have before := (lt_rank_iff (k := place (dropped tasks moving over_)) (ordered_gapColumn ids) inside).mp (by omega)
  rw [same] at before
  rcases place_lt.mp before with above | ⟨_, id⟩
  · exact absurd lower (not_le.mpr above)
  · exact absurd id (not_lt.mpr tied.2.2.le)

theorem showsSlot_iff_dropFits (ids : (taskIds tasks).Nodup) (here : moving ∈ tasks) (there : over_ ∈ tasks)
    (different : moving.id ≠ over_.id) : ShowsSlot tasks moving over_ ↔ DropFits tasks moving over_ := by
  obtain ⟨i, inside, same, found, index⟩ := @gapColumn_index tasks moving over_ ids there different
  rw [showsSlot_iff_rank ids here there different, dropSlotIndex_eq ids here there, index]
  by_cases tied : moving.columnId = over_.columnId ∧ moving.position = over_.position ∧ moving.id < over_.id
  · have low := rank_dropped_tied ids there different tied
    rw [index] at low
    have before : moving.columnId = over_.columnId ∧ place moving < place over_ :=
      ⟨tied.1, place_lt.mpr (Or.inr tied.2)⟩
    rw [if_pos before]
    constructor
    · intro slot
      omega
    · exact fun fits => absurd tied fits.apart
  · have shift : (moving.columnId = over_.columnId ∧ place moving < place over_) ↔
        (moving.columnId = over_.columnId ∧ moving.position < over_.position) := by
      rw [place_lt]
      tauto
    have between := @gap_eq tasks moving over_ i found
    have placed := @rank_dropped tasks moving over_ ids
      (if moving.columnId = over_.columnId ∧ moving.position < over_.position then i + 1 else i)
      (by split <;> omega) between
    have slot : i + (if moving.columnId = over_.columnId ∧ place moving < place over_ then 1 else 0) =
        if moving.columnId = over_.columnId ∧ moving.position < over_.position then i + 1 else i := by
      simp only [shift]
      split <;> rfl
    rw [slot, placed]
    exact ⟨fun room => ⟨tied, room⟩, fun fits => fits.room⟩

/-- Dropped on a column the card ends up last in it. -/
theorem dropped_last (ids : (taskIds tasks).Nodup) (here : moving ∈ tasks) (columnId : Id) :
    ∃ applied, applyMove tasks moving.id columnId none = some applied ∧
      (tasksByColumn applied.nextTasks columnId).getLast?.map TaskDto.id = some moving.id := by
  have ordered : (sortTasks (others tasks moving.id columnId)).Pairwise fun a b => place a < place b :=
    pairwise_sorted (distinct_places (nodup_others ids _ _))
  generalize column : sortTasks (others tasks moving.id columnId) = L at ordered
  have last : (if L.length = 0 then none else L[L.length - 1]?) = L.getLast? := by
    rw [List.getLast?_eq_getElem?]
    split
    · rename_i none_
      rw [List.length_eq_zero_iff.mp none_]
      rfl
    · rfl
  let updated : TaskDto := { moving with columnId, position := midpoint (L.getLast?.map TaskDto.position) none }
  refine ⟨{
    nextTasks := (tasks.filter (·.id ≠ moving.id)).filter (·.columnId ≠ columnId) ++ L.insertIdx L.length updated
    beforeTaskId := L.getLast?.map TaskDto.id
    afterTaskId := none }, ?_, ?_⟩
  · simp only [others] at column
    simp only [applyMove, find_task ids here, Option.bind_eq_bind, Option.bind_some, column, insertionIndex,
      Option.bind_none, last, List.getElem?_length, Option.map_none]
    rfl
  · have above : ∀ task ∈ L, place task < place updated := by
      intro task listed
      rw [place_lt]
      left
      rcases List.eq_nil_or_concat L with rfl | ⟨front, final, rfl⟩
      · cases listed
      · have position : updated.position = final.position + POSITION_GAP := by
          simp [updated, midpoint]
        rw [position]
        rw [List.concat_eq_append] at listed ordered
        have le : task.position ≤ final.position := by
          rcases List.mem_append.mp listed with early | same
          · have less := (List.pairwise_append.mp ordered).2.2 task early final List.mem_cons_self
            rcases place_lt.mp less with apart | ⟨equal, _⟩
            · exact apart.le
            · exact equal.le
          · rw [List.mem_singleton.mp same]
        unfold POSITION_GAP
        linarith
    have own : ∀ task ∈ L, task.columnId = columnId := by
      intro task listed
      rw [← column] at listed
      have member : task ∈ others tasks moving.id columnId := mem_sorted.mp listed
      simpa using (List.mem_filter.mp member).2
    have shown : tasksByColumn ((tasks.filter (·.id ≠ moving.id)).filter (·.columnId ≠ columnId) ++
        L.insertIdx L.length updated) columnId = L ++ [updated] := by
      refine sorted_eq ?_ ?_
      · have gone : ((tasks.filter (·.id ≠ moving.id)).filter (·.columnId ≠ columnId)).filter
            (·.columnId = columnId) = [] := by
          rw [List.filter_eq_nil_iff]
          intro task listed
          simpa using (List.mem_filter.mp listed).2
        have kept : (L ++ [updated]).filter (·.columnId = columnId) = L ++ [updated] := by
          rw [List.filter_eq_self]
          intro task listed
          rcases List.mem_append.mp listed with old | new
          · simpa using own task old
          · rw [List.mem_singleton.mp new]
            simp [updated]
        rw [List.filter_append, gone, List.nil_append, List.insertIdx_length_self, kept]
      · refine List.pairwise_append.mpr ⟨ordered, List.pairwise_singleton _ _, ?_⟩
        intro task listed other new
        rw [List.mem_singleton.mp new]
        exact above task listed
    rw [shown]
    simp [updated]

/-- A card dropped on another lands in the slot drawn exactly where it fits; dropped on a
column it lands last. -/
theorem drops_land_where_shown (tasks : List TaskDto) (moving : TaskDto) (ids : (taskIds tasks).Nodup)
    (here : moving ∈ tasks) :
    (∀ over_ ∈ tasks, moving.id ≠ over_.id → (ShowsSlot tasks moving over_ ↔ DropFits tasks moving over_)) ∧
    ∀ columnId, ∃ applied, applyMove tasks moving.id columnId none = some applied ∧
      (tasksByColumn applied.nextTasks columnId).getLast?.map TaskDto.id = some moving.id :=
  ⟨fun _ there different => showsSlot_iff_dropFits ids here there different, dropped_last ids here⟩

/-- A card of a column, as far as dragging looks at it. -/
def cardAt (id columnId : Id) (position : ℚ) : TaskDto :=
  toTaskListDto {
    task := { id, boardId := "b", columnId, title := id, position, createdById := "ann" }
    assignees := []
    labels := []
    checklists := []
    attachmentCount := 0 }

/-- Two cards at one position, the upper one dropped on the lower one: the slot drawn is below
it, and the card stays above. -/
theorem tied_drop_missed : ∃ tasks : List TaskDto, ∃ moving ∈ tasks, ∃ over_ ∈ tasks, (taskIds tasks).Nodup ∧
    moving.id ≠ over_.id ∧ ¬ ShowsSlot tasks moving over_ := by
  refine ⟨[cardAt "t1" "c" 1000, cardAt "t2" "c" 1000], cardAt "t1" "c" 1000, by decide, cardAt "t2" "c" 1000,
    by decide, by decide, by decide, ?_⟩
  rintro ⟨applied, made, index⟩
  have landed : ((applyMove [cardAt "t1" "c" 1000, cardAt "t2" "c" 1000] "t1" "c" (some "t2")).map fun applied =>
      (tasksByColumn applied.nextTasks "c").findIdx? (·.id = "t1")) = some (some 0) := by decide +kernel
  have drawn : dropSlotIndex [cardAt "t1" "c" 1000, cardAt "t2" "c" 1000] "c" (some "t2") = 1 := by decide +kernel
  have made : applyMove [cardAt "t1" "c" 1000, cardAt "t2" "c" 1000] "t1" "c" (some "t2") = some applied := made
  have index : (tasksByColumn applied.nextTasks "c").findIdx? (·.id = "t1") =
      some (dropSlotIndex [cardAt "t1" "c" 1000, cardAt "t2" "c" 1000] "c" (some "t2")) := index
  rw [made, Option.map_some, index, drawn] at landed
  exact absurd landed (by decide)

theorem drops_land_where_shown_apart : (ShowsSlot [cardAt "t1" "c" 1000, cardAt "t2" "c" 2000] (cardAt "t1" "c" 1000)
    (cardAt "t2" "c" 2000) ↔ DropFits [cardAt "t1" "c" 1000, cardAt "t2" "c" 2000] (cardAt "t1" "c" 1000)
    (cardAt "t2" "c" 2000)) ∧
    ∃ applied, applyMove [cardAt "t1" "c" 1000, cardAt "t2" "c" 2000] "t1" "d" none = some applied ∧
      (tasksByColumn applied.nextTasks "d").getLast?.map TaskDto.id = some "t1" := by
  have both := drops_land_where_shown [cardAt "t1" "c" 1000, cardAt "t2" "c" 2000] (cardAt "t1" "c" 1000)
    (by decide) (by decide)
  exact ⟨both.1 (cardAt "t2" "c" 2000) (by decide) (by decide), both.2 "d"⟩

end Drops
end Kurul.Client
