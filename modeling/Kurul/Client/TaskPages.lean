import Kurul.Client.BoardClient
import Kurul.Store.Sequential
import Kurul.Task.TaskService
import Kurul.Sequence.Drain

/-! A board's tasks page by page: what a list request answers, and the client's walk along
`nextCursor` while tasks are added, moved and deleted. -/
namespace Kurul.Client

open Store Prog Sequence

/-- What `TaskService.list` answers: the tasks as its read is shown them, with the counts that
are read after them. -/
def listPage (boardId : Id) (dto : TaskQueryDto) (rows : List Row) (counts : Id → Nat) : CursorPage TaskDto :=
  let limit := dto.limit.getD 50
  let found := ((orderBy Task.id ((table rows).filter (buildListWhere boardId dto rows))).take (limit + 1)).map
    (taskListInclude rows)
  toCursorPage (found.map fun row => { row with attachmentCount := counts row.task.id }) (·.task.id) limit toTaskListDto

theorem list_answers (workspaceId boardId : Id) (dto : TaskQueryDto) (rows : List Row) (W : List (Write Row Key)) :
    (TaskService.list workspaceId boardId dto).Holds (fun _ => True)
      (fun page rows W => ∃ counts, page = listPage boardId dto (applyAll rows W) counts) (fun _ _ _ => True)
      rows W := by
  apply Holds.bind
  apply Holds.found
  intro _ _
  apply Holds.bind
  apply Holds.read
  apply Holds.bind
  have counted : ∀ taskIds, (countAttachmentsByTask taskIds).Holds (fun _ => True)
      (fun _ rows' W' => rows' = rows ∧ W' = W) (fun _ _ _ => True) rows W := by
    intro taskIds
    unfold countAttachmentsByTask
    split
    · exact ⟨rfl, rfl⟩
    · exact Holds.read ⟨rfl, rfl⟩
  apply (counted _).weaken _ fun _ _ _ _ => trivial
  rintro counts _ _ ⟨rfl, rfl⟩
  exact ⟨counts, rfl⟩

/-- What the requests of one walk are shown: the rows each task read finds, and the counts. -/
structure Shown where
  rows : Nat → List Row
  counts : Nat → Id → Nat

def Shown.answer (shown : Shown) (boardId : Id) (dto : TaskQueryDto) (limit index : Nat) (cursor : Option Id) :
    CursorPage TaskDto :=
  listPage boardId { dto with limit := some limit, cursor } (shown.rows index) (shown.counts index)

/-- The pages along `nextCursor` until `hasMore` is false; none where these reads are not enough. -/
def followCursor (answer : Nat → Option Id → CursorPage TaskDto) : Nat → Nat → Option Id →
    Option (List (CursorPage TaskDto))
  | 0, _, _ => none
  | reads + 1, index, cursor =>
      let page := answer index cursor
      if page.hasMore then (followCursor answer reads (index + 1) page.nextCursor).map (page :: ·) else some [page]

/-- The drain of a board; a cursor that does not advance ends it. -/
def fetchAllBoardTasks (answer : Nat → Option Id → CursorPage TaskDto) :
    Nat → Nat → Option Id → List TaskDto → Option (List TaskDto)
  | 0, _, _, _ => none
  | reads + 1, index, cursor, items =>
      let page := answer index cursor
      let items := items ++ page.items
      let hasMore := page.hasMore && truthy page.nextCursor && page.nextCursor ≠ cursor
      if hasMore then fetchAllBoardTasks answer reads (index + 1) page.nextCursor items else some items

section Answers

variable {boardId : Id} {dto : TaskQueryDto} {limit index : Nat} {cursor : Option Id} {shown : Shown}

/-- The tasks that match the filter, whatever the cursor. -/
def matching (boardId : Id) (dto : TaskQueryDto) (rows : List Row) : List Task :=
  (table rows).filter (buildListWhere boardId { dto with cursor := none } rows)

/-- Ids tell the tasks apart and are not empty, as the schema has them. -/
structure Shown.Keyed (shown : Shown) : Prop where
  nodup : ∀ n, ((table (shown.rows n) : List Task).map Task.id).Nodup
  named : ∀ n, ∀ task ∈ (table (shown.rows n) : List Task), task.id ≠ ""

/-- The cursor narrows the filter to the tasks behind it. -/
theorem filter_cursor (rows : List Row) (given : cursor ≠ some "") :
    (table rows : List Task).filter (buildListWhere boardId { dto with limit := some limit, cursor } rows) =
      (matching boardId dto rows).filter (behind Task.id cursor) := by
  rw [matching, List.filter_filter]
  refine List.filter_congr ?_
  intro task _
  have narrows : (!truthy cursor || cursor.all (· < task.id)) = behind Task.id cursor task := by
    cases cursor with
    | none => rfl
    | some c =>
        have truth : truthy (some c) = true := by simpa [truthy] using given
        simp [truth, behind]
  have open_ : (!truthy none || (none : Option Id).all (· < task.id)) = true := rfl
  simp only [buildListWhere, narrows, open_, Bool.and_true]
  cases behind Task.id cursor task <;> simp

/-- A page of the list is a page of the matching tasks. -/
theorem answer_eq (given : cursor ≠ some "") :
    (shown.answer boardId dto limit index cursor).items.map TaskDto.id =
      (page Task.id limit cursor (matching boardId dto (shown.rows index))).map Task.id ∧
    (shown.answer boardId dto limit index cursor).hasMore =
      hasMore Task.id limit cursor (matching boardId dto (shown.rows index)) ∧
    (hasMore Task.id limit cursor (matching boardId dto (shown.rows index)) = true →
      (shown.answer boardId dto limit index cursor).nextCursor =
        (page Task.id limit cursor (matching boardId dto (shown.rows index))).getLast?.map Task.id) := by
  have found := @filter_cursor boardId dto limit cursor (shown.rows index) given
  generalize read : sorted Task.id ((matching boardId dto (shown.rows index)).filter (behind Task.id cursor)) = L
  have size : L.length = ((matching boardId dto (shown.rows index)).filter (behind Task.id cursor)).length := by
    rw [← read]
    exact (sorted_perm _).length_eq
  have longer : limit < (L.take (limit + 1)).length ↔ limit < L.length := by
    rw [List.length_take]
    omega
  have cut : (L.take (limit + 1)).take limit = L.take limit := by
    rw [List.take_take]
    congr 1
    omega
  have all : ¬limit < L.length → L.take (limit + 1) = L.take limit := by
    intro short
    rw [List.take_of_length_le (by omega), List.take_of_length_le (by omega)]
  have rows : orderBy Task.id ((matching boardId dto (shown.rows index)).filter (behind Task.id cursor)) = L := read
  simp only [Shown.answer, listPage, found, rows, Option.getD_some, toCursorPage, hasMore, page, read, ← size,
    List.length_map, gt_iff_lt, longer]
  by_cases more : limit < L.length
  · simp only [more, decide_true, if_true, ← List.map_take, cut, List.map_map, true_and]
    refine ⟨rfl, fun _ => ?_⟩
    rw [List.getLast?_map, Option.map_map]
    rfl
  · simp only [more, decide_false, Bool.false_eq_true, if_false, all more, List.map_map, true_and]
    refine ⟨rfl, ?_⟩
    rintro ⟨⟩

/-- The ids along the cursor are those of the paged tasks. -/
theorem followCursor_drain (keyed : shown.Keyed) (positive : 0 < limit) (reads index : Nat) (given : cursor ≠ some "") :
    (followCursor (shown.answer boardId dto limit) reads index cursor).map (List.map fun page =>
      page.items.map TaskDto.id) =
      (drain Task.id limit (fun n => matching boardId dto (shown.rows n)) reads index cursor).map
        (List.map (List.map Task.id)) := by
  induction reads generalizing index cursor with
  | zero => rfl
  | succ reads ih =>
      obtain ⟨ids, more, next⟩ := @answer_eq boardId dto limit index cursor shown given
      unfold followCursor drain
      dsimp only
      rw [more]
      cases continues : hasMore Task.id limit cursor (matching boardId dto (shown.rows index)) with
      | false => simp [ids]
      | true =>
          obtain ⟨last, final, ends⟩ := last_page positive continues
          have named : last.id ≠ "" := keyed.named index last (List.mem_of_mem_filter (mem_page final).1)
          have given' : some last.id ≠ some "" := by simpa using named
          have later := ih (index + 1) given'
          have both := congrArg (Option.map (List.cons
            ((page Task.id limit cursor (matching boardId dto (shown.rows index))).map Task.id))) later
          simpa [next continues, ends, ids, Option.map_map, Function.comp_def] using both

/-- The client's walk gathers the pages. -/
theorem fetchAll_pages (keyed : shown.Keyed) (positive : 0 < limit) (reads index : Nat) (items : List TaskDto)
    (given : cursor ≠ some "") :
    fetchAllBoardTasks (shown.answer boardId dto limit) reads index cursor items =
      (followCursor (shown.answer boardId dto limit) reads index cursor).map fun pages =>
        items ++ pages.flatMap CursorPage.items := by
  induction reads generalizing index cursor items with
  | zero => rfl
  | succ reads ih =>
      obtain ⟨_, more, next⟩ := @answer_eq boardId dto limit index cursor shown given
      unfold fetchAllBoardTasks followCursor
      dsimp only
      rw [more]
      cases continues : hasMore Task.id limit cursor (matching boardId dto (shown.rows index)) with
      | false => simp
      | true =>
          obtain ⟨last, final, ends⟩ := last_page positive continues
          obtain ⟨there, after⟩ := mem_page final
          have named : last.id ≠ "" := keyed.named index last (List.mem_of_mem_filter there)
          have advances : some last.id ≠ cursor := by
            rintro rfl
            have less : last.id < last.id := of_decide_eq_true after
            exact lt_irrefl _ less
          have truth : truthy (some last.id) = true := by simpa [truthy] using named
          have goes : (truthy (some last.id) && decide (some last.id ≠ cursor)) = true := by
            rw [truth, Bool.true_and, decide_eq_true advances]
          simp only [next continues, ends, Option.map_some, Bool.true_and, goes, if_true, Option.map_map]
          rw [ih (index + 1) _ (by simpa using named)]
          simp [Function.comp_def]

/-- Every task comes from the tasks before it or from the ones inserted. -/
def Shown.Inserts (shown : Shown) (inserted : Finset Id) : Prop :=
  ∀ n, ∀ task ∈ (table (shown.rows (n + 1)) : List Task),
    (∃ old ∈ (table (shown.rows n) : List Task), old.id = task.id) ∨ task.id ∈ inserted

theorem Shown.Inserts.ids {inserted : Finset Id} (inserts : shown.Inserts inserted) (n : Nat) :
    ∀ task ∈ (table (shown.rows n) : List Task),
      task.id ∈ ((table (shown.rows 0) : List Task).map Task.id).toFinset ∪ inserted := by
  induction n with
  | zero =>
      intro task listed
      exact Finset.mem_union_left _ (List.mem_toFinset.mpr (List.mem_map_of_mem listed))
  | succ n ih =>
      intro task listed
      rcases inserts n task listed with ⟨old, there, same⟩ | new
      · rw [← same]
        exact ih old there
      · exact Finset.mem_union_right _ new

/-- A task that matches at every read of these pages. -/
def MatchesThroughout (shown : Shown) (boardId : Id) (dto : TaskQueryDto) (pages : List (CursorPage TaskDto))
    (taskId : Id) : Prop :=
  ∀ n < pages.length, ∃ task ∈ matching boardId dto (shown.rows n), task.id = taskId

/-- Along `nextCursor` the pages end, whatever comes and goes between the reads, as long as only
finitely many tasks are inserted; they hold each task at most once, in the order of ids, and
every task that matches throughout. The client's drain is the pages put together. -/
theorem pages_lose_nothing (shown : Shown) (keyed : shown.Keyed) (inserted : Finset Id)
    (inserts : shown.Inserts inserted) (boardId : Id) (dto : TaskQueryDto) (limit : Nat) (positive : 1 ≤ limit) :
    (∃ enough, ∀ reads ≥ enough, ∃ pages, followCursor (shown.answer boardId dto limit) reads 0 none = some pages ∧
      ((pages.flatMap CursorPage.items).map TaskDto.id).Pairwise (· < ·) ∧
      ∀ taskId, MatchesThroughout shown boardId dto pages taskId →
        taskId ∈ (pages.flatMap CursorPage.items).map TaskDto.id) ∧
    ∀ reads, fetchAllBoardTasks (shown.answer boardId dto BOARD_TASK_PAGE_LIMIT) reads 0 none [] =
      (followCursor (shown.answer boardId dto BOARD_TASK_PAGE_LIMIT) reads 0 none).map
        (List.flatMap CursorPage.items) := by
  constructor
  · refine ⟨(((table (shown.rows 0) : List Task).map Task.id).toFinset ∪ inserted).card + 1, ?_⟩
    intro reads many
    have distinct : ∀ n, ((matching boardId dto (shown.rows n)).map Task.id).Nodup :=
      fun n => (keyed.nodup n).sublist (List.filter_sublist.map Task.id)
    have within : ∀ n, ∀ task ∈ matching boardId dto (shown.rows n),
        task.id ∈ ((table (shown.rows 0) : List Task).map Task.id).toFinset ∪ inserted :=
      fun n task listed => inserts.ids n task (List.mem_of_mem_filter listed)
    have few := (Finset.card_filter_le (((table (shown.rows 0) : List Task).map Task.id).toFinset ∪ inserted)
      fun k => (none : Option Id).all (· < k)).trans_lt (Nat.lt_of_succ_le many)
    obtain ⟨drained, ended, rising, _, complete⟩ := drain_complete positive distinct _ within reads 0 none few
    have same := @followCursor_drain boardId dto _ none shown keyed positive reads 0 (by simp)
    rw [ended, Option.map_some] at same
    obtain ⟨pages, followed, ids⟩ := Option.map_eq_some_iff.mp same
    have all : (pages.flatMap CursorPage.items).map TaskDto.id = drained.flatten.map Task.id := by
      rw [List.map_flatMap, List.map_flatten, ← ids]
      rfl
    have sizes : pages.length = drained.length := by simpa using congrArg List.length ids
    refine ⟨pages, followed, ?_, ?_⟩
    · rw [all, List.pairwise_map]
      exact rising
    · intro taskId throughout
      rw [all]
      refine complete taskId rfl ?_
      intro n inside
      rw [Nat.zero_add]
      exact throughout n (sizes ▸ inside)
  · intro reads
    exact fetchAll_pages keyed (by decide) reads 0 [] (by simp)

def taskRow (id columnId : Id) : Row :=
  .task { id, boardId := "b", columnId, title := id, position := 1000, createdById := "ann" }

/-- Between the first two reads the first task is deleted, the second moved and a fourth added. -/
def changing : Shown where
  rows
    | 0 => [taskRow "t1" "c", taskRow "t2" "c", taskRow "t3" "c"]
    | _ + 1 => [taskRow "t4" "c", taskRow "t2" "d", taskRow "t3" "c"]
  counts _ _ := 0

theorem pages_lose_nothing_changing :
    ((followCursor (changing.answer "b" {} 1) 5 0 none).map fun pages =>
      (pages.flatMap CursorPage.items).map TaskDto.id) = some ["t1", "t2", "t3", "t4"] ∧
    (∃ enough, ∀ reads ≥ enough, ∃ pages, followCursor (changing.answer "b" {} 1) reads 0 none = some pages ∧
      ((pages.flatMap CursorPage.items).map TaskDto.id).Pairwise (· < ·) ∧
      ∀ taskId, MatchesThroughout changing "b" {} pages taskId →
        taskId ∈ (pages.flatMap CursorPage.items).map TaskDto.id) ∧
    ∀ reads, fetchAllBoardTasks (changing.answer "b" {} BOARD_TASK_PAGE_LIMIT) reads 0 none [] =
      (followCursor (changing.answer "b" {} BOARD_TASK_PAGE_LIMIT) reads 0 none).map
        (List.flatMap CursorPage.items) := by
  have keyed : changing.Keyed := by
    constructor
    · intro n
      cases n with
      | zero => decide
      | succ n =>
          change ((table [taskRow "t4" "c", taskRow "t2" "d", taskRow "t3" "c"] : List Task).map Task.id).Nodup
          decide
    · intro n
      cases n with
      | zero =>
          change ∀ task ∈ (table [taskRow "t1" "c", taskRow "t2" "c", taskRow "t3" "c"] : List Task), task.id ≠ ""
          decide
      | succ n =>
          change ∀ task ∈ (table [taskRow "t4" "c", taskRow "t2" "d", taskRow "t3" "c"] : List Task), task.id ≠ ""
          decide
  have inserts : changing.Inserts {"t4"} := by
    intro n
    cases n with
    | zero =>
        change ∀ task ∈ (table [taskRow "t4" "c", taskRow "t2" "d", taskRow "t3" "c"] : List Task),
          (∃ old ∈ (table [taskRow "t1" "c", taskRow "t2" "c", taskRow "t3" "c"] : List Task), old.id = task.id) ∨
            task.id ∈ ({"t4"} : Finset Id)
        decide
    | succ n => exact fun task listed => Or.inl ⟨task, listed, rfl⟩
  exact ⟨by decide +kernel, pages_lose_nothing changing keyed {"t4"} inserts "b" {} 1 (by decide)⟩

end Answers
end Kurul.Client
