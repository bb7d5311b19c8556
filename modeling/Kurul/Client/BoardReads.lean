import Kurul.Client.TasksOnce

/-! The paged reads of a board and its filters. A load is aborted with its filters; the reads
of a resync and of a refused move are not, and run with the filters their caller was made with. -/
namespace Kurul.Client

open Sequence

section Pages

variable {rows done rest : List TaskDto}

/-- The list's form of a task. -/
def listed (task : TaskDto) : TaskDto := { task with checklists := none }

/-- What a full read of a filter brings. -/
def result (rows : List TaskDto) (selected : TaskDto → Bool) : List TaskDto :=
  sorted TaskDto.id (rows.filter selected)

/-- The page behind the first tasks of a result. -/
theorem boardPage_eq {selected : TaskDto → Bool} (distinct : (taskIds rows).Nodup)
    (split_ : result rows selected = done ++ rest) (index : Nat) :
    boardPage rows { filters := selected, index, cursor := done.getLast?.map TaskDto.id } = {
      items := (rest.take BOARD_TASK_PAGE_LIMIT).map listed
      nextCursor := if rest.length > BOARD_TASK_PAGE_LIMIT then
        (rest.take BOARD_TASK_PAGE_LIMIT).getLast?.map TaskDto.id else none
      hasMore := decide (rest.length > BOARD_TASK_PAGE_LIMIT) } := by
  have few : (taskIds (rows.filter selected)).Nodup := distinct.sublist (List.filter_sublist.map _)
  unfold boardPage
  dsimp only
  rw [page_eq few split_]
  unfold toCursorPage
  have longer : (rest.take (BOARD_TASK_PAGE_LIMIT + 1)).length > BOARD_TASK_PAGE_LIMIT ↔
      rest.length > BOARD_TASK_PAGE_LIMIT := by
    rw [List.length_take]
    omega
  by_cases more : rest.length > BOARD_TASK_PAGE_LIMIT
  · have cut : (rest.take (BOARD_TASK_PAGE_LIMIT + 1)).take BOARD_TASK_PAGE_LIMIT =
        rest.take BOARD_TASK_PAGE_LIMIT := by
      rw [List.take_take]
      congr 1
    simp only [longer, more, decide_true, if_true, cut]
    rfl
  · have all : rest.take (BOARD_TASK_PAGE_LIMIT + 1) = rest.take BOARD_TASK_PAGE_LIMIT := by
      rw [List.take_of_length_le (by omega), List.take_of_length_le (by omega)]
    simp only [longer, more, decide_false, Bool.false_eq_true, if_false]
    rw [all]
    rfl

end Pages

/-- A paged read under way. -/
structure BoardRead (F : Type) where
  filters : F
  /-- only the load's own read is made with an abort signal -/
  signalled : Bool := false
  aborted : Bool := false
  index : Nat := 0
  cursor : Option Id := none

structure BoardReads (F : Type) where
  filters : F
  tasks : List TaskDto := []
  reads : Nat → Option (BoardRead F) := fun _ => none
  /-- the filters that the moves committed so far were made with -/
  moves : List F := []
  /-- a page of the filters in force has been written since they are -/
  painted : Bool := false
  /-- and one of other filters after it -/
  overwritten : Bool := false

inductive ReadMove (F : Type) where
  | applyFilters (filters : F) (slot : Nat)
  /-- the resync's timer goes off, or a patch too thin asks for a reload -/
  | reload (slot : Nat)
  | commitTaskMove
  /-- an older move is refused and reloads with the callback it was made with -/
  | refuseMove (filters : F) (slot : Nat)
  | complete (slot : Nat)

namespace BoardReads

variable {F : Type} [DecidableEq F] (selects : F → TaskDto → Bool) (rows : List TaskDto) (s : BoardReads F)

def start (slot : Nat) (read : BoardRead F) : Option (BoardReads F) :=
  if (s.reads slot).isSome then none else some { s with reads := Function.update s.reads slot (some read) }

/-- The page a read waits for. -/
def pageOf (read : BoardRead F) : CursorPage TaskDto :=
  boardPage rows { filters := selects read.filters, index := read.index, cursor := read.cursor }

/-- What is left of a read after its page. -/
def following (read : BoardRead F) (page : CursorPage TaskDto) : Option (BoardRead F) :=
  if page.hasMore && page.nextCursor.isSome && page.nextCursor ≠ read.cursor then
    some { read with index := read.index + 1, cursor := page.nextCursor }
  else none

/-- The cleanup of the load effect aborts its controller. -/
def abortLoads : BoardReads F :=
  { s with reads := fun slot => (s.reads slot).map fun read =>
      if read.signalled then { read with aborted := true } else read }

def step : ReadMove F → Option (BoardReads F)
  | .applyFilters filters slot =>
      { s.abortLoads with filters, painted := false, overwritten := false }.start slot { filters, signalled := true }
  | .reload slot => s.start slot { filters := s.filters }
  | .commitTaskMove => some { s with moves := s.filters :: s.moves }
  | .refuseMove filters slot => if filters ∈ s.moves then s.start slot { filters } else none
  | .complete slot => do
      let read ← s.reads slot
      let page := pageOf selects rows read
      if read.aborted then return { s with reads := Function.update s.reads slot none }
      else return { s with
        tasks := paintPage read.index page.items s.tasks
        reads := Function.update s.reads slot (following read page)
        painted := s.painted || decide (read.filters = s.filters)
        overwritten := s.overwritten || (s.painted && decide (read.filters ≠ s.filters)) }

/-- The first load is under way. -/
structure Start : Prop where
  loading : s.reads = Function.update (fun _ => none) 0 (some { filters := s.filters, signalled := true })
  painted : s.painted = false
  overwritten : s.overwritten = false

/-- The filters change while no read without a signal is under way for others, and a refused
move was made with the ones in force. -/
def Settled : ReadMove F → Prop
  | .applyFilters filters _ => ∀ slot read, s.reads slot = some read → read.signalled = false → read.filters = filters
  | .refuseMove filters _ => filters = s.filters
  | _ => True

/-- How far a read has come through its result. -/
structure At (read : BoardRead F) (done rest : List TaskDto) : Prop where
  split : result rows (selects read.filters) = done ++ rest
  cursor : read.cursor = done.getLast?.map TaskDto.id
  first : read.index = 0 ↔ done = []

section Pages

variable {selects rows} {read : BoardRead F} {done rest : List TaskDto}
omit [DecidableEq F]

theorem At.begin (filters : F) (signalled : Bool) :
    At selects rows { filters, signalled } [] (result rows (selects filters)) :=
  ⟨rfl, rfl, by simp⟩

theorem At.page (at_ : At selects rows read done rest) (distinct : (taskIds rows).Nodup) :
    pageOf selects rows read = {
      items := (rest.take BOARD_TASK_PAGE_LIMIT).map listed
      nextCursor := if rest.length > BOARD_TASK_PAGE_LIMIT then
        (rest.take BOARD_TASK_PAGE_LIMIT).getLast?.map TaskDto.id else none
      hasMore := decide (rest.length > BOARD_TASK_PAGE_LIMIT) } := by
  rw [pageOf, at_.cursor, boardPage_eq distinct at_.split]

/-- After its page a read is over, or goes on behind it. -/
theorem At.following (at_ : At selects rows read done rest) (distinct : (taskIds rows).Nodup) :
    (following read (pageOf selects rows read) = none ∧ rest.drop BOARD_TASK_PAGE_LIMIT = []) ∨
      ∃ next, following read (pageOf selects rows read) = some next ∧ next.filters = read.filters ∧
        next.aborted = read.aborted ∧ next.index ≠ 0 ∧
        At selects rows next (done ++ rest.take BOARD_TASK_PAGE_LIMIT) (rest.drop BOARD_TASK_PAGE_LIMIT) := by
  by_cases more : rest.length > BOARD_TASK_PAGE_LIMIT
  · right
    obtain ⟨last, ends⟩ : ∃ last, (rest.take BOARD_TASK_PAGE_LIMIT).getLast? = some last := by
      apply Option.isSome_iff_exists.mp
      rw [List.getLast?_isSome]
      intro none_
      have empty := congrArg List.length none_
      simp only [List.length_take, List.length_nil, BOARD_TASK_PAGE_LIMIT] at empty more
      omega
    have moves : some last.id ≠ read.cursor := by
      rw [at_.cursor]
      intro same
      obtain ⟨before, ended, own⟩ := Option.map_eq_some_iff.mp same.symm
      have few : (taskIds (rows.filter (selects read.filters))).Nodup := distinct.sublist (List.filter_sublist.map _)
      have ordered : (sorted TaskDto.id (rows.filter (selects read.filters))).Pairwise fun a b => a.id < b.id :=
        pairwise_sorted few
      have split_ : sorted TaskDto.id (rows.filter (selects read.filters)) = done ++ rest := at_.split
      rw [split_] at ordered
      have below := (List.pairwise_append.mp ordered).2.2 before (List.mem_of_getLast? ended) last
        (List.mem_of_mem_take (List.mem_of_getLast? ends))
      exact absurd own (ne_of_lt below)
    refine ⟨{ read with index := read.index + 1, cursor := some last.id }, ?_, rfl, rfl, by simp, ?_⟩
    · rw [BoardReads.following, at_.page distinct]
      simp [more, ends, moves]
    · refine ⟨?_, ?_, ?_⟩
      · rw [List.append_assoc, List.take_append_drop]
        exact at_.split
      · rw [List.getLast?_append, ends]
        rfl
      · constructor
        · intro zero
          simp at zero
        · intro none_
          rw [(List.append_eq_nil_iff.mp none_).2] at ends
          cases ends
  · left
    constructor
    · rw [BoardReads.following, at_.page distinct]
      simp [more]
    · exact List.drop_eq_nil_of_le (by omega)

end Pages

/-- The list is of the result, with these first tasks of it. -/
structure Shows (whole done tasks : List TaskDto) : Prop where
  once : (taskIds tasks).Nodup
  inside : ∀ task ∈ tasks, task ∈ whole.map listed
  held : ∀ task ∈ done, listed task ∈ tasks

/-- A read is still to bring the rest. -/
structure Covered (done rest : List TaskDto) : Prop where
  split : result rows (selects s.filters) = done ++ rest
  shows : Shows (result rows (selects s.filters)) done s.tasks
  coming : rest = [] ∨ ∃ slot read, s.reads slot = some read ∧ read.aborted = false ∧ At selects rows read done rest

/-- Every read that may still write is of the filters in force, and the list is theirs or
is yet to be replaced. -/
structure Current : Prop where
  kept : s.overwritten = false
  live : ∀ slot read, s.reads slot = some read → read.aborted = false → read.filters = s.filters
  under : ∀ slot read, s.reads slot = some read → ∃ done rest, At selects rows read done rest
  shown : (∃ slot read, s.reads slot = some read ∧ read.aborted = false ∧ read.index = 0) ∨
    ∃ done rest, s.Covered selects rows done rest

section Lists

variable {rows done rest tasks whole : List TaskDto}

theorem taskIds_listed : taskIds (tasks.map listed) = taskIds tasks := by
  simp only [taskIds, List.map_map]
  rfl

theorem result_nodup {selected : TaskDto → Bool} (distinct : (taskIds rows).Nodup) :
    (taskIds (result rows selected)).Nodup := by
  have few : (taskIds (rows.filter selected)).Nodup := distinct.sublist (List.filter_sublist.map _)
  have perm : (result rows selected).Perm (rows.filter selected) := sorted_perm _
  exact (perm.map TaskDto.id).nodup_iff.mpr few

/-- Tasks of the result with one id are one task. -/
theorem eq_of_id {a b : TaskDto} (distinct : (taskIds whole).Nodup) (left : a ∈ whole.map listed)
    (right : b ∈ whole.map listed) (same : a.id = b.id) : a = b := by
  rw [← taskIds_listed] at distinct
  exact List.inj_on_of_nodup_map distinct left right same

/-- The first page replaces whatever was there. -/
theorem Shows.first (distinct : (taskIds whole).Nodup) (split_ : whole = done ++ rest) :
    Shows whole done (done.map listed) := by
  refine ⟨?_, ?_, ?_⟩
  · rw [taskIds_listed]
    rw [split_, taskIds_append] at distinct
    exact distinct.of_append_left
  · intro task member
    rw [split_, List.map_append]
    exact List.mem_append_left _ member
  · exact fun task member => List.mem_map_of_mem member

/-- A later page adds to the list and takes nothing from it. -/
theorem Shows.more {items : List TaskDto} {index : Nat} (shows : Shows whole done tasks) (later : index ≠ 0)
    (distinct : (taskIds whole).Nodup) (page : (taskIds items).Nodup)
    (inside : ∀ task ∈ items, task ∈ whole) :
    Shows whole (done ++ items) (paintPage index (items.map listed) tasks) := by
  have painted : paintPage index (items.map listed) tasks =
      tasks ++ (items.map listed).filter fun task => !onBoard tasks task.id := if_neg later
  refine ⟨?_, ?_, ?_⟩
  · exact nodup_paintPage (taskIds_listed.symm ▸ page) shows.once
  · rw [painted]
    intro task member
    rcases List.mem_append.mp member with old | new
    · exact shows.inside task old
    · obtain ⟨source, brought, rfl⟩ := List.mem_map.mp (List.mem_filter.mp new).1
      exact List.mem_map_of_mem (inside source brought)
  · rw [painted]
    intro task member
    rcases List.mem_append.mp member with old | new
    · exact List.mem_append_left _ (shows.held task old)
    · by_cases there : onBoard tasks task.id
      · obtain ⟨shown, stored, same⟩ := List.mem_map.mp (onBoard_iff.mp there)
        have own : shown = listed task :=
          eq_of_id distinct (shows.inside shown stored) (List.mem_map_of_mem (inside task new)) same
        exact List.mem_append_left _ (own ▸ stored)
      · apply List.mem_append_right
        apply List.mem_filter.mpr
        refine ⟨List.mem_map_of_mem new, ?_⟩
        rw [Bool.not_eq_true']
        exact Bool.eq_false_of_not_eq_true there

theorem Shows.fewer {more : List TaskDto} (shows : Shows whole (done ++ more) tasks) : Shows whole done tasks :=
  ⟨shows.once, shows.inside, fun task member => shows.held task (List.mem_append_left _ member)⟩

/-- With all of the result held the list is the result. -/
theorem Shows.perm (shows : Shows whole whole tasks) (distinct : (taskIds whole).Nodup) :
    tasks.Perm (whole.map listed) := by
  have left : tasks.Nodup := shows.once.of_map
  have ids : (taskIds (whole.map listed)).Nodup := taskIds_listed.symm ▸ distinct
  have right : (whole.map listed).Nodup := ids.of_map
  apply (List.perm_ext_iff_of_nodup left right).mpr
  intro task
  constructor
  · exact shows.inside task
  · intro member
    obtain ⟨source, stored, rfl⟩ := List.mem_map.mp member
    exact shows.held source stored

end Lists

section Steps

variable {selects rows} {s} {next : BoardReads F} {slot : Nat} {read : BoardRead F}
omit [DecidableEq F]

theorem start_eq (started : s.start slot read = some next) :
    s.reads slot = none ∧ next = { s with reads := Function.update s.reads slot (some read) } := by
  unfold start at started
  split at started
  · cases started
  · rename_i free
    exact ⟨by simpa using free, (Option.some.inj started).symm⟩

theorem Current.start {signalled : Bool} (current : s.Current selects rows)
    (started : s.start slot { filters := s.filters, signalled } = some next) : next.Current selects rows := by
  obtain ⟨free, rfl⟩ := start_eq started
  refine ⟨current.kept, ?_, ?_, .inl ⟨slot, _, Function.update_self .., rfl, rfl⟩⟩
  · intro other read held alive
    by_cases same : other = slot
    · subst same
      cases (Function.update_self ..).symm.trans held
      rfl
    · exact current.live other read ((Function.update_of_ne same _ _).symm.trans held) alive
  · intro other read held
    by_cases same : other = slot
    · subst same
      cases (Function.update_self ..).symm.trans held
      exact ⟨[], _, At.begin _ _⟩
    · exact current.under other read ((Function.update_of_ne same _ _).symm.trans held)

theorem abortLoads_reads {other : Nat} (held : s.abortLoads.reads other = some read) :
    ∃ before, s.reads other = some before ∧
      read = if before.signalled then { before with aborted := true } else before := by
  obtain ⟨before, here, same⟩ := Option.map_eq_some_iff.mp held
  exact ⟨before, here, same.symm⟩

theorem Current.applyFilters {filters : F} (current : s.Current selects rows)
    (settled : ∀ slot read, s.reads slot = some read → read.signalled = false → read.filters = filters)
    (started : BoardReads.start { s.abortLoads with filters, painted := false, overwritten := false } slot
      { filters, signalled := true } = some next) : next.Current selects rows := by
  obtain ⟨free, rfl⟩ := start_eq started
  refine ⟨rfl, ?_, ?_, .inl ⟨slot, _, Function.update_self .., rfl, rfl⟩⟩
  · intro other read held alive
    by_cases same : other = slot
    · subst same
      cases (Function.update_self ..).symm.trans held
      rfl
    · obtain ⟨before, here, rfl⟩ := abortLoads_reads ((Function.update_of_ne same _ _).symm.trans held)
      by_cases signalled : before.signalled
      · simp [signalled] at alive
      · simp only [signalled, Bool.false_eq_true, if_false]
        exact settled other before here (by simpa using signalled)
  · intro other read held
    by_cases same : other = slot
    · subst same
      cases (Function.update_self ..).symm.trans held
      exact ⟨[], _, At.begin _ _⟩
    · obtain ⟨before, here, rfl⟩ := abortLoads_reads ((Function.update_of_ne same _ _).symm.trans held)
      obtain ⟨done, rest, at_⟩ := current.under other before here
      refine ⟨done, rest, ?_⟩
      split
      · exact ⟨at_.split, at_.cursor, at_.first⟩
      · exact at_

theorem update_cases {other : Nat} {after : Option (BoardRead F)} {found : BoardRead F}
    (held : Function.update s.reads slot after other = some found) :
    (other = slot ∧ after = some found) ∨ (other ≠ slot ∧ s.reads other = some found) := by
  by_cases same : other = slot
  · subst same
    rw [Function.update_self] at held
    exact .inl ⟨rfl, held⟩
  · exact .inr ⟨same, (Function.update_of_ne same _ _).symm.trans held⟩

/-- An aborted read writes nothing. -/
theorem Current.drop (current : s.Current selects rows) (held : s.reads slot = some read)
    (aborted : read.aborted = true) :
    ({ s with reads := Function.update s.reads slot none } : BoardReads F).Current selects rows := by
  have others : ∀ other found, s.reads other = some found → found.aborted = false →
      Function.update s.reads slot none other = some found := by
    intro other found here alive
    have apart : other ≠ slot := by
      rintro rfl
      cases held.symm.trans here
      rw [aborted] at alive
      cases alive
    exact (Function.update_of_ne apart _ _).trans here
  refine ⟨current.kept, ?_, ?_, ?_⟩
  · intro other found here alive
    rcases update_cases here with ⟨_, ⟨⟩⟩ | ⟨_, before⟩
    exact current.live other found before alive
  · intro other found here
    rcases update_cases here with ⟨_, ⟨⟩⟩ | ⟨_, before⟩
    exact current.under other found before
  · rcases current.shown with ⟨other, found, here, alive, first⟩ | ⟨done, rest, split_, shows, coming⟩
    · exact .inl ⟨other, found, others other found here alive, alive, first⟩
    · right
      refine ⟨done, rest, split_, shows, ?_⟩
      rcases coming with none_ | ⟨other, found, here, alive, at_⟩
      · exact .inl none_
      · exact .inr ⟨other, found, others other found here alive, alive, at_⟩

/-- A page of the filters in force, by a read that has come this far. -/
theorem Current.write (current : s.Current selects rows) (distinct : (taskIds rows).Nodup)
    (held : s.reads slot = some read) (alive : read.aborted = false) (painted : Bool) :
    ({ s with
        tasks := paintPage read.index (pageOf selects rows read).items s.tasks
        reads := Function.update s.reads slot (following read (pageOf selects rows read))
        painted } : BoardReads F).Current selects rows := by
  have own := current.live slot read held alive
  have whole : (taskIds (result rows (selects s.filters))).Nodup := result_nodup distinct
  -- what the read leaves behind it covers the rest of its result
  have onward : ∀ done rest, At selects rows read done rest → rest.drop BOARD_TASK_PAGE_LIMIT = [] ∨
      ∃ other found, Function.update s.reads slot (following read (pageOf selects rows read)) other = some found ∧
        found.aborted = false ∧
        At selects rows found (done ++ rest.take BOARD_TASK_PAGE_LIMIT) (rest.drop BOARD_TASK_PAGE_LIMIT) := by
    intro done rest at_
    rcases at_.following distinct with ⟨_, none_⟩ | ⟨found, same, _, aborted, _, there⟩
    · exact .inl none_
    · exact .inr ⟨slot, found, same ▸ Function.update_self .., aborted.trans alive, there⟩
  have later : ∀ done rest, At selects rows read done rest →
      result rows (selects s.filters) = (done ++ rest.take BOARD_TASK_PAGE_LIMIT) ++ rest.drop BOARD_TASK_PAGE_LIMIT := by
    intro done rest at_
    rw [List.append_assoc, List.take_append_drop, ← own]
    exact at_.split
  refine ⟨current.kept, ?_, ?_, ?_⟩
  · intro other found here alive'
    rcases update_cases here with ⟨_, next⟩ | ⟨_, before⟩
    · obtain ⟨done, rest, at_⟩ := current.under slot read held
      rcases at_.following distinct with ⟨over_, _⟩ | ⟨_, same, filters, _⟩
      · rw [over_] at next
        cases next
      · cases same.symm.trans next
        exact filters.trans own
    · exact current.live other found before alive'
  · intro other found here
    rcases update_cases here with ⟨_, next⟩ | ⟨_, before⟩
    · obtain ⟨done, rest, at_⟩ := current.under slot read held
      rcases at_.following distinct with ⟨over_, _⟩ | ⟨_, same, _, _, _, there⟩
      · rw [over_] at next
        cases next
      · cases same.symm.trans next
        exact ⟨_, _, there⟩
    · exact current.under other found before
  · obtain ⟨done, rest, at_⟩ := current.under slot read held
    by_cases first : read.index = 0
    · right
      cases at_.first.mp first
      refine ⟨_, _, later _ _ at_, ?_, onward _ _ at_⟩
      have items : paintPage read.index (pageOf selects rows read).items s.tasks =
          (rest.take BOARD_TASK_PAGE_LIMIT).map listed := by
        rw [at_.page distinct, paintPage, if_pos first]
      dsimp only
      rw [items]
      exact .first whole (later _ _ at_)
    · rcases current.shown with ⟨other, found, here, alive', zero⟩ | ⟨done', rest', split_, shows, coming⟩
      · left
        have apart : other ≠ slot := by
          rintro rfl
          cases held.symm.trans here
          exact first zero
        exact ⟨other, found, (Function.update_of_ne apart _ _).trans here, alive', zero⟩
      · right
        have brought : ∀ done rest, At selects rows read done rest → ∀ {held_ : List TaskDto},
            Shows (result rows (selects s.filters)) held_ s.tasks →
            Shows (result rows (selects s.filters)) (held_ ++ rest.take BOARD_TASK_PAGE_LIMIT)
              (paintPage read.index (pageOf selects rows read).items s.tasks) := by
          intro done rest at_ held_ shows
          rw [at_.page distinct]
          have inside := later done rest at_
          have page : (taskIds (rest.take BOARD_TASK_PAGE_LIMIT)).Nodup := by
            rw [inside, taskIds_append, taskIds_append] at whole
            exact whole.of_append_left.of_append_right
          apply shows.more first whole page
          intro task member
          rw [inside]
          exact List.mem_append_left _ (List.mem_append_right _ member)
        rcases coming with none_ | ⟨other, found, here, alive', at'⟩
        · exact ⟨done', rest', split_, (brought _ _ at_ shows).fewer, .inl none_⟩
        · by_cases same : other = slot
          · subst same
            cases held.symm.trans here
            exact ⟨_, _, later _ _ at', brought _ _ at' shows, onward _ _ at'⟩
          · exact ⟨done', rest', split_, (brought _ _ at_ shows).fewer,
              .inr ⟨other, found, (Function.update_of_ne same _ _).trans here, alive', at'⟩⟩

theorem Current.step [DecidableEq F] {move : ReadMove F} (current : s.Current selects rows)
    (distinct : (taskIds rows).Nodup)
    (settled : s.Settled move) (stepped : s.step selects rows move = some next) : next.Current selects rows := by
  cases move with
  | applyFilters filters slot => exact current.applyFilters settled stepped
  | reload slot => exact current.start stepped
  | commitTaskMove =>
      cases stepped
      exact ⟨current.kept, current.live, current.under, current.shown.imp id
        fun ⟨done, rest, covered⟩ => ⟨done, rest, covered.split, covered.shows, covered.coming⟩⟩
  | refuseMove filters slot =>
      simp only [BoardReads.step] at stepped
      split at stepped
      · cases (settled : filters = s.filters)
        exact current.start stepped
      · cases stepped
  | complete slot =>
      obtain ⟨read, held, stepped⟩ := Option.bind_eq_some_iff.mp stepped
      split at stepped
      · rename_i aborted
        cases stepped
        exact current.drop held aborted
      · rename_i alive
        cases stepped
        have own := current.live slot read held (by simpa using alive)
        have written := current.write distinct held (by simpa using alive)
          (s.painted || decide (read.filters = s.filters))
        refine ⟨?_, written.live, written.under, written.shown.imp id
          fun ⟨done, rest, covered⟩ => ⟨done, rest, covered.split, covered.shows, covered.coming⟩⟩
        simp [current.kept, own]

theorem Start.current (start : s.Start) : s.Current selects rows := by
  have only : ∀ other found, s.reads other = some found →
      found = { filters := s.filters, signalled := true } := by
    intro other found held
    rw [start.loading] at held
    by_cases same : other = 0
    · subst same
      rw [Function.update_self] at held
      exact (Option.some.inj held).symm
    · rw [Function.update_of_ne same] at held
      cases held
  refine ⟨start.overwritten, ?_, ?_, .inl ⟨0, _, by rw [start.loading]; exact Function.update_self .., rfl, rfl⟩⟩
  · intro other found held _
    rw [only other found held]
  · intro other found held
    rw [only other found held]
    exact ⟨[], _, At.begin _ _⟩

end Steps

end BoardReads

/-- While filters change only with no read without a signal under way for others, and refused
moves are of the filters in force, no older page lands on a newer one, and with no request
left the list is the result of the filters in force. -/
theorem board_shows_filters {F : Type} [DecidableEq F] (selects : F → TaskDto → Bool) {rows : List TaskDto}
    (distinct : (taskIds rows).Nodup) {s t : BoardReads F} (start : s.Start) {moves : List (ReadMove F)}
    (ran : Machine.run (BoardReads.step selects rows) s moves = some t)
    (settled : Machine.Meets (BoardReads.step selects rows) BoardReads.Settled s moves) :
    t.overwritten = false ∧
      ((∀ slot, t.reads slot = none) → t.tasks.Perm ((rows.filter (selects t.filters)).map listed)) := by
  have current : t.Current selects rows := by
    refine Machine.run_keeps (I := BoardReads.Current selects rows) ?_ start.current settled ran
    exact fun _ _ _ current settled stepped => current.step distinct settled stepped
  refine ⟨current.kept, ?_⟩
  intro idle
  rcases current.shown with ⟨slot, read, held, _⟩ | ⟨done, rest, split_, shows, coming⟩
  · cases (idle slot).symm.trans held
  · rcases coming with rfl | ⟨slot, read, held, _⟩
    · rw [List.append_nil] at split_
      rw [← split_] at shows
      have perm := shows.perm (BoardReads.result_nodup distinct)
      exact perm.trans ((sorted_perm _).map _)
    · cases (idle slot).symm.trans held

/-- A task of medium priority and one of low. -/
def twoTasks : List TaskDto := [soleTask, { soleTask with id := "u", priority := .LOW }]

/-- A choice of priorities, none of which is every one. -/
def byPriority (priorities : List Priority) (task : TaskDto) : Bool :=
  priorities.isEmpty || priorities.contains task.priority

def loadingAll : BoardReads (List Priority) where
  filters := []
  reads := Function.update (fun _ => none) 0 (some { filters := [], signalled := true })

theorem loadingAll_start : loadingAll.Start := ⟨rfl, rfl, rfl⟩

/-- A resync's page of all tasks lands after that of the filter set meanwhile. -/
def resyncAcross : List (ReadMove (List Priority)) := [
  .complete 0, .reload 1, .applyFilters [.LOW] 2, .complete 2, .complete 1]

/-- The resync is through before the filter is set. -/
def resyncBefore : List (ReadMove (List Priority)) := [
  .complete 0, .reload 1, .complete 1, .applyFilters [.LOW] 2, .complete 2]

theorem resyncBefore_settled :
    Machine.Meets (BoardReads.step byPriority twoTasks) BoardReads.Settled loadingAll resyncBefore := by
  refine ⟨trivial, ?_⟩
  rintro _ ⟨⟩
  refine ⟨trivial, ?_⟩
  rintro _ ⟨⟩
  refine ⟨trivial, ?_⟩
  rintro _ ⟨⟩
  refine ⟨?_, ?_⟩
  · rintro slot read held
    rcases slot with _ | _ | slot <;> cases held
  rintro _ ⟨⟩
  exact ⟨trivial, fun _ _ => trivial⟩

theorem board_shows_filters_resyncBefore : ∃ t,
    Machine.run (BoardReads.step byPriority twoTasks) loadingAll resyncBefore = some t ∧
      t.overwritten = false ∧ taskIds t.tasks = ["u"] := by
  have shown : (Machine.run (BoardReads.step byPriority twoTasks) loadingAll resyncBefore).map
      (taskIds ∘ BoardReads.tasks) = some ["u"] := by decide +kernel
  obtain ⟨t, ran, listed⟩ := Option.map_eq_some_iff.mp shown
  exact ⟨t, ran,
    (board_shows_filters byPriority (by decide) loadingAll_start ran resyncBefore_settled).1, listed⟩

/-- A board that shows all tasks under a filter. -/
theorem filter_overwritten : ¬ ∀ (s t : BoardReads (List Priority)) (moves : List (ReadMove (List Priority))),
    s.Start → Machine.run (BoardReads.step byPriority twoTasks) s moves = some t →
      t.overwritten = false ∧
        ((∀ slot, t.reads slot = none) → t.tasks.Perm ((twoTasks.filter (byPriority t.filters)).map listed)) := by
  intro claim
  have shown : (Machine.run (BoardReads.step byPriority twoTasks) loadingAll resyncAcross).map
      (fun t => (t.overwritten, taskIds t.tasks)) = some (true, ["t", "u"]) := by decide +kernel
  obtain ⟨t, ran, stale⟩ := Option.map_eq_some_iff.mp shown
  have fresh := (claim loadingAll t resyncAcross loadingAll_start ran).1
  rw [(Prod.mk.inj stale).1] at fresh
  cases fresh

end Kurul.Client
