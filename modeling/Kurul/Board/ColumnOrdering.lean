import Kurul.Ordering
import Kurul.Board.ColumnService

/-! Creates, seedings, moves and removals of one board's columns, interleaved in any
way: the columns keep their order, and defaults only go into an empty board. The
board's row lock is what all of them but a removal hold while they write. -/
namespace Kurul

open Store Prog Sequence

inductive ColumnCall where
  | create (workspaceId boardId actorId : Id) (dto : CreateColumnDto)
  | createDefaults (workspaceId boardId actorId : Id) (negotiated : Option Locale)
  | move (workspaceId columnId actorId : Id) (dto : MoveColumnDto)
  | remove (workspaceId columnId actorId : Id)

/-- A column by what the default set says about it. -/
def Column.asDefault (column : Column) : DefaultColumn :=
  ⟨column.name, column.position, column.category⟩

/-- The columns of one board are what is watched, and a row of its own locks it. -/
abbrev boardOrder (boardId : Id) (rows : List Row) : Lane Id ℚ := columnPositions.order boardId rows

namespace ColumnCall

def service : ColumnCall → Service Unit
  | .create workspaceId boardId actorId dto => do
      let _ ← ColumnService.create workspaceId boardId actorId dto
  | .createDefaults workspaceId boardId actorId negotiated => do
      let _ ← ColumnService.createDefaults workspaceId boardId actorId negotiated
  | .move workspaceId columnId actorId dto => do
      let _ ← ColumnService.move workspaceId columnId actorId dto
  | .remove workspaceId columnId actorId => ColumnService.remove workspaceId columnId actorId

def Moves (id : Id) : ColumnCall → Prop
  | .move _ columnId _ _ => id = columnId
  | _ => False

/-- The call is about this board: it names it, or a column that is on no other one. -/
def On (boardId : Id) (rows : List Row) : ColumnCall → Prop
  | .create _ named _ _ | .createDefaults _ named _ _ => named = boardId
  | .move _ columnId _ _ | .remove _ columnId _ =>
      ∀ column ∈ (table rows : List Column), column.id = columnId → column.boardId = boardId

/-- What a commit of the call did to the board's columns. A create commits twice,
the second time its audit row. -/
def Kept (boardId : Id) : ColumnCall → Local Row Key → List Row → List Row → Prop
  | .create _ _ _ dto, l, before, after =>
      (∀ write ∈ l.pending, columnPositions.lanes.Silent write) ∨
        ∃ own, (∀ row ∈ before, key row ≠ Key.column own) ∧
          columnPositions.PlacedInOrder boardId own
            (fun siblings => resolveCreateNeighbors siblings dto.afterColumnId "Column not found")
            l.seen before after
  | .createDefaults .., _, before, after => (∀ i p, ¬ boardOrder boardId before i p) ∧
      ∃ (locale : Locale) (columns : List Column),
        columns.map Column.asDefault = defaultColumnsFor locale ∧
        ∀ column, column ∈ (table after : List Column) ∧ column.boardId = boardId ↔ column ∈ columns
  | .move _ columnId _ dto, l, before, after =>
      columnPositions.PlacedInOrder boardId columnId
        (fun siblings => resolveMoveNeighbors (siblings.filter fun item => item.id ≠ columnId)
          dto.beforeColumnId dto.afterColumnId)
        l.seen before after
  | .remove .., _, before, after => ∀ {i p}, boardOrder boardId after i p → boardOrder boardId before i p

def promise (call : ColumnCall) (boardId : Id) : Promise Row Key where
  commit l rows := call.Kept boardId l rows (l.view rows)

end ColumnCall

/-- The board is there, and the columns that are moved are on no other board. -/
def OnBoard (boardId : Id) (moved : Id → Prop) (rows : List Row) : Prop :=
  (∃ row ∈ rows, key row = Key.board boardId) ∧
    ∀ column ∈ (table rows : List Column), moved column.id → column.boardId = boardId

def columnProtocol (boardId : Id) (moved : Id → Prop) : Protocol Row Key :=
  columnPositions.lanes.protocol (· = boardId) (OnBoard boardId moved)

section Board

variable {boardId : Id} {ids : Id → Prop} {rows : List Row} {W : List (Write Row Key)}

theorem OnBoard.kept (on : OnBoard boardId ids rows)
    (frame : Frame columnPositions.lanes.LockRow rows (applyAll rows W))
    (written : ∀ column : Column, .put (toRow column) ∈ W → column.boardId = boardId) :
    OnBoard boardId ids (applyAll rows W) := by
  obtain ⟨⟨row, member, same⟩, columns⟩ := on
  refine ⟨⟨row, (frame row ⟨boardId, same⟩).mp member, same⟩, fun column there moves => ?_⟩
  obtain stored | ⟨old, _⟩ := mem_applyAll_cases (mem_table.mp there)
  · exact written column stored
  · exact columns column (mem_table.mpr old) moves

theorem OnBoard.placed {L : List Sibling} {own : Option Id} {position : ℚ} {moved : Nat → ℚ}
    (on : OnBoard boardId ids rows) (puts : columnPositions.Puts L boardId own position moved W) :
    OnBoard boardId ids (applyAll rows W) := by
  refine on.kept (Lanes.Places.frame puts) fun column stored => ?_
  obtain ⟨row, same, ⟨absent, _⟩ | ⟨i, p, entered, _⟩⟩ := puts _ stored
  · cases same
    rw [Positioning.entry_toRow] at absent
    contradiction
  · cases same
    rw [Positioning.entry_toRow] at entered
    cases entered
    rfl

/-- An audit row stands on no board and locks none. -/
theorem quiet_activity (activity : Activity) :
    columnPositions.lanes.Silent (.put (.activity activity)) :=
  ⟨rfl, fun ⟨_, same⟩ => by cases same⟩

theorem not_silent_column (column : Column) :
    ¬ columnPositions.lanes.Silent (.put (toRow column : Row)) := by
  rintro ⟨absent, _⟩
  rw [Positioning.entry_toRow] at absent
  contradiction

/-- The deletion of columns takes no board along. -/
theorem silent_columns {columns : List Column} {write : Write Row Key}
    (member : write ∈ deletion rows (cascade rows (columns.map fun column => key (toRow column : Row)))) :
    columnPositions.lanes.Silent write := by
  have start : ∀ k ∈ columns.map fun column => key (toRow column : Row), 2 ≤ k.depth := by
    intro k listed
    obtain ⟨column, _, rfl⟩ := List.mem_map.mp listed
    exact le_rfl
  exact Positioning.silent_deletion (fun _ => Nat.lt_succ_self 1) quiet_activity
    (fun _ => ⟨rfl, fun ⟨_, same⟩ => by cases same⟩) start member

theorem OnBoard.silent (on : OnBoard boardId ids rows)
    (silent : ∀ write ∈ W, columnPositions.lanes.Silent write) :
    OnBoard boardId ids (applyAll rows W) :=
  on.kept (Lanes.frame_silent silent boardId) fun column stored =>
    absurd (silent _ stored) (not_silent_column column)

end Board

section Calls

variable {boardId : Id} {ids : Id → Prop} {rows : List Row} {allow : Assertion Row}
  {promise : Promise Row Key} {l : Local Row Key} {A : Assertion Row}

theorem verified_lockBoard {post : Unit → Local Row Key → Assertion Row → Prop}
    (quiet : ∀ l, promise.statement l) (clean : l.pending = [])
    (rest : ∀ l', l.Grown l' [] → (Key.board boardId, .update) ∈ l'.held →
      post () l' fun _ => True) :
    Verified (columnProtocol boardId ids) allow promise
      (query (.lockForUpdate (.board boardId)) : Service Unit) l (fun _ => True) post :=
  Positioning.verified_lock (P := columnPositions) quiet (Stable.const _ _ True) clean
    (fun _ inv _ => inv.2.2.1) rest

theorem created_column {column : Column} {view : List Row} {o : Outcome Row Key ColumnDto}
    (ran : including (.create column) ColumnService.toDto view = (.ok o : Except Error _)) :
    o.writes = [.put (toRow column)] ∧ ∀ row ∈ view, key row ≠ key (toRow column : Row) := by
  obtain ⟨o', created, _, written, _⟩ := including_ok ran
  obtain ⟨_, stored, new⟩ := Statement.create_ok created
  exact ⟨written.trans stored, new⟩

theorem verified_createColumn {workspaceId actorId : Id} {dto : CreateColumnDto} :
    Verified (columnProtocol boardId ids) allow
      ((ColumnCall.create workspaceId boardId actorId dto).promise boardId)
      (ColumnService.create workspaceId boardId actorId dto) {} (fun _ => True) fun _ _ _ => True := by
  have quiet : ∀ l, ((ColumnCall.create workspaceId boardId actorId dto).promise boardId).statement l :=
    fun _ => trivial
  unfold ColumnService.create
  refine Verified.bind (verified_assertBoard quiet (Stable.const _ _ True) fun _ l₁ grown₁ => ?_)
  refine Verified.bind (Verified.transaction ?_)
  have clean₁ := grown₁.clean rfl
  refine Verified.bind (verified_lockBoard quiet clean₁ fun l₂ grown₂ locked₂ => ?_)
  have clean₂ := grown₂.clean clean₁
  refine Verified.bind (Positioning.verified_siblings (P := columnPositions) quiet
    (Stable.const _ _ True) clean₂ locked₂ fun view l₃ grown₃ shown keys ordered stable => ?_)
  refine Verified.bind (Verified.ofExcept fun slot resolved => ?_)
  obtain ⟨k, fits, rfl⟩ := resolveCreateNeighbors_slot resolved
  have clean₃ := grown₃.clean clean₂
  refine Verified.bind (Positioning.verified_createPosition quiet keys ordered fits clean₃
    (grown₃.held locked₂) stable (fun _ fact => fact.2.keeps)
    fun position moved l₄ A₄ grown₄ puts spread stable₄ kept₄ => ?_)
  refine Verified.bind fun given => ?_
  refine Positioning.verified_insert quiet created_column rfl rfl
    ((grown₃.trans grown₄).held locked₂) (grown₄.owned (by simp [clean₃, touched])) puts kept₄
    fun created l₅ A₅ grown₅ puts₅ target stable₅ keeps₅ => ?_
  intro rows inv fact _ _
  obtain ⟨kept, absent⟩ := keeps₅ rows fact
  have later := (grown₃.trans grown₄).trans grown₅
  obtain ⟨invAfter, guar, placed⟩ := Positioning.commits
    (fun siblings => resolveCreateNeighbors siblings dto.afterColumnId "Column not found")
    inv puts₅ kept keys (fun looked => ⟨ordered looked, spread looked⟩) target (inv.2.2.placed puts₅)
    (later.held locked₂) ((grown₄.trans grown₅).seen shown) resolved (List.Subset.refl _)
  refine ⟨invAfter, guar, Or.inr ⟨_, absent, placed rfl⟩, _, trivial, Stable.const _ _ True, ?_⟩
  refine Verified.bind (Verified.transaction (verified_record (quiet _) (Stable.const _ _ True)
    fun activity l₆ _ grown₆ _ => ?_))
  intro rows inv _ _ _
  have silent : ∀ write ∈ l₆.pending, columnPositions.lanes.Silent write := by
    intro write member
    rw [grown₆.pending] at member
    cases List.mem_singleton.mp member
    exact quiet_activity activity
  obtain ⟨invAfter, guar⟩ := Lanes.commit_silent silent boardId inv (inv.2.2.silent silent)
  exact ⟨invAfter, guar, Or.inl silent, _, trivial, Stable.const _ _ True, trivial⟩

theorem verified_removeColumn {workspaceId columnId actorId : Id} :
    Verified (columnProtocol boardId ids) allow
      ((ColumnCall.remove workspaceId columnId actorId).promise boardId)
      (ColumnService.remove workspaceId columnId actorId) {} (fun _ => True) fun _ _ _ => True := by
  have quiet : ∀ l, ((ColumnCall.remove workspaceId columnId actorId).promise boardId).statement l :=
    fun _ => trivial
  unfold ColumnService.remove
  refine Verified.bind (Verified.transaction ?_)
  refine Verified.bind (Verified.found trivial fun rows column _ _ _ =>
    ⟨fun _ => True, trivial, Stable.const _ _ True, ?_⟩)
  refine Verified.bind (Verified.read trivial (Stable.const _ _ True) fun rows' _ _ => ?_)
  refine Verified.bind (Verified.require fun _ => ?_)
  refine Verified.bind (verified_record (quiet _) (Stable.const _ _ True) fun activity l₃ _ grown₃ _ => ?_)
  refine Verified.bind (Verified.keep trivial (Stable.const _ _ True) fun rows _ _ o ran => ?_)
  refine Verified.bind (Verified.require fun _ => ?_)
  obtain ⟨_, written⟩ := Statement.deleteMany_ok ran
  intro rows' inv _ _ _
  have silent : ∀ write ∈ (l₃.ran rows o).pending, columnPositions.lanes.Silent write := by
    intro write member
    simp only [Local.ran, grown₃.pending, List.nil_append, List.singleton_append, List.mem_cons] at member
    obtain rfl | deleted := member
    · exact quiet_activity activity
    · exact silent_columns (written ▸ deleted)
  obtain ⟨invAfter, guar⟩ := Lanes.commit_silent silent boardId inv (inv.2.2.silent silent)
  exact ⟨invAfter, guar, Lanes.departs silent, _, trivial, Stable.const _ _ True, trivial⟩

/-- The update of a move writes the column on its board at its position. -/
theorem moved_column {workspaceId columnId : Id} {position : ℚ} {change : Column → Column}
    {view : List Row} {o : Outcome Row Key Column} (named : ids columnId)
    (on : OnBoard boardId ids view)
    (ran : (Statement.update (scopedColumn workspaceId columnId) change view : Except Error _) = .ok o)
    (moves : ∀ column, (change column).id = column.id ∧ (change column).boardId = column.boardId ∧
      (change column).position = position) :
    ∃ column : Column, column.id = columnId ∧ column.boardId = boardId ∧
      column.position = position ∧ o.writes = [.put (toRow column)] := by
  obtain ⟨row, member, chosen, _, written⟩ := Statement.update_ok ran
  obtain ⟨same, _⟩ : row.id = columnId ∧ _ := by simpa [scopedColumn] using chosen
  obtain ⟨sameId, sameBoard, stands⟩ := moves row
  have here : row.boardId = boardId := on.2 row member (same ▸ named)
  exact ⟨change row, sameId.trans same, sameBoard.trans here, stands, written⟩

/-- The moved column's own write, and its siblings' where they have to be moved apart. -/
theorem verified_placeColumn {workspaceId : Id} {column : Column} {L : List Sibling} {k : Nat}
    {post : ColumnDto → Local Row Key → Assertion Row → Prop} (quiet : ∀ l, promise.statement l)
    (named : ids column.id) (here : column.boardId = boardId)
    (keys : (L.map Sibling.id).Nodup) (ordered : Ordered Sibling.id Sibling.position L)
    (fits : k ≤ L.length) (absent : ∀ sibling ∈ L, sibling.id ≠ column.id) (clean : l.pending = [])
    (locked : (Key.board boardId, .update) ∈ l.held)
    (keeps : ∀ rows, A rows →
      columnPositions.Keeps L boardId (some column.id) (Positioning.still L) [] rows)
    (rest : ∀ result position moved l' A', l.Grown l' l'.pending →
      columnPositions.Puts L boardId (some column.id) position moved l'.pending →
      Spread L.length k position moved → Key.column column.id ∈ touched l'.pending →
      (∀ rows, A' rows →
        columnPositions.Keeps L boardId (some column.id) moved l'.pending rows) →
      post result l' A') :
    Verified (columnProtocol boardId ids) allow promise
      (ColumnService.place workspaceId column L (sliceSlot L k)) l A post := by
  unfold ColumnService.place
  dsimp only
  split
  · refine Verified.bind (Positioning.verified_own (P := columnPositions) quiet
      (fun inv ran => moved_column named inv.2.2 ran fun _ => ⟨rfl, rfl, rfl⟩) clean locked keeps
      fun _ l' A' grown target puts stable' kept => ?_)
    rw [show (sliceSlot L k).insertionIndex = k from rfl, reorderedUpdates_eq fits absent, here]
    refine Verified.bind (Positioning.verified_batch (P := columnPositions) quiet keys stable'
      (grown.held locked) (grown.owned (by simp [clean, touched])) kept ?_ ?_
      fun B l'' A'' grown' batch stable'' kept' => ?_)
    · intro key member
      exact ⟨_, rfl, by simpa [target] using member⟩
    · rintro x same sibling member rfl
      exact absent sibling member (Option.some.inj same).symm
    · refine Verified.found (quiet _) fun rows result _ fact _ => ⟨A'', fact, stable'', ?_⟩
      have later := (grown.trans grown').trans (l''.grown_read rows)
      refine rest _ _ _ _ A'' (later.whole clean) ?_ (rebalance_spread _ fits) ?_ kept'
      · have placed := (puts (Positioning.apart k)).append (batch _)
        rwa [← grown'.pending] at placed
      · simp [grown'.pending, target, columnPositions]
  · refine Positioning.verified_own (P := columnPositions) quiet (fun inv ran => ?_) clean locked keeps
      fun _ l' A' grown target puts stable' kept =>
        rest _ _ _ l' A' grown (puts _) (midpoint_spread ordered fits)
          (by simp [target, columnPositions]) kept
    obtain ⟨o', updated, _, written, _⟩ := including_ok ran
    rw [written]
    exact moved_column named inv.2.2 updated fun _ => ⟨rfl, rfl, rfl⟩

theorem verified_moveColumn {workspaceId columnId actorId : Id} {dto : MoveColumnDto}
    (named : ids columnId) :
    Verified (columnProtocol boardId ids) allow
      ((ColumnCall.move workspaceId columnId actorId dto).promise boardId)
      (ColumnService.move workspaceId columnId actorId dto) {} (fun _ => True) fun _ _ _ => True := by
  have quiet : ∀ l, ((ColumnCall.move workspaceId columnId actorId dto).promise boardId).statement l :=
    fun _ => trivial
  unfold ColumnService.move
  refine Verified.bind (Verified.transaction ?_)
  refine Verified.bind (Verified.found trivial fun rows column inv _ hit =>
    ⟨fun _ => True, trivial, Stable.const _ _ True, ?_⟩)
  obtain ⟨own, _⟩ : column.id = columnId ∧ _ := by simpa [scopedColumn] using List.find?_some hit
  have here : column.boardId = boardId :=
    inv.2.2.2 column (List.mem_of_find?_eq_some hit) (own ▸ named)
  refine Verified.bind (Verified.require fun _ => ?_)
  rw [here]
  refine Verified.bind (verified_lockBoard quiet rfl fun l₂ grown₂ locked₂ => ?_)
  have clean₂ := grown₂.clean rfl
  refine Verified.bind (Positioning.verified_siblings (P := columnPositions) quiet
    (Stable.const _ _ True) clean₂ locked₂ fun view l₃ grown₃ shown keys ordered stable => ?_)
  refine Verified.bind (Verified.ofExcept fun slot resolved => ?_)
  obtain ⟨k, fits, rfl⟩ := resolveMoveNeighbors_slot resolved
  have remaining := Positioning.ordered_remaining columnId (ordered rfl)
  have keysLeft := Positioning.nodup_remaining columnId keys
  have others : ∀ sibling ∈ (columnPositions.siblings boardId view).filter (fun item => item.id ≠ columnId),
      sibling.id ≠ column.id := by
    intro sibling member
    simpa [own] using (List.mem_filter.mp member).2
  refine verified_placeColumn quiet (own ▸ named) here keysLeft remaining fits others
    (grown₃.clean clean₂) (grown₃.held locked₂) (fun _ fact => own ▸ fact.2.keeps_remaining columnId)
    fun result position moved l₄ A₄ grown₄ puts spread target keeps => ?_
  intro rows inv fact _ _
  obtain ⟨invAfter, guar, placed⟩ := Positioning.commits
    (fun siblings => resolveMoveNeighbors (siblings.filter fun item => item.id ≠ columnId)
      dto.beforeColumnId dto.afterColumnId)
    inv puts (keeps rows fact) keysLeft (fun _ => ⟨remaining, spread⟩) target (inv.2.2.placed puts)
    ((grown₃.trans grown₄).held locked₂) (grown₄.seen shown) resolved (List.filter_subset_self _)
  rw [own] at placed
  exact ⟨invAfter, guar, placed rfl, _, trivial, Stable.const _ _ True, trivial⟩

theorem verified_resolve {userId : Id} {negotiated : Option Locale}
    {post : Locale → Local Row Key → Assertion Row → Prop} (quiet : ∀ l, promise.statement l)
    (stable : Stable (columnProtocol boardId ids) l.held A)
    (rest : ∀ locale l', l.Grown l' [] → post locale l' A) :
    Verified (columnProtocol boardId ids) allow promise (LocaleService.resolve userId negotiated)
      l A post :=
  Verified.bind (Verified.caught (quiet _) stable
    (fun _ => rest _ _ (Local.Grown.refl l)) fun rows _ _ => rest _ _ (l.grown_read rows))

/-- New rows for the default columns. -/
theorem verified_seeds {columns : List DefaultColumn} :
    Verified (columnProtocol boardId ids) allow promise
      (collect columns (ColumnService.seed boardId)) l A fun data l' A' =>
        List.Forall₂ (fun column row => row.boardId = boardId ∧ row.asDefault = column) columns data ∧
          l = l' ∧ A = A' :=
  Verified.collect (I := fun l' A' => l = l' ∧ A = A') ⟨rfl, rfl⟩
    fun _ _ _ _ same _ => ⟨⟨rfl, rfl⟩, same⟩

theorem defaultColumns_positions (locale : Locale) :
    ((defaultColumnsFor locale).map DefaultColumn.position).Nodup := by
  cases locale <;> decide +kernel

/-- The default columns as rows: all on the board, at distinct positions. -/
structure Seeds (boardId : Id) (locale : Locale) (data : List Column) : Prop where
  here : ∀ column ∈ data, column.boardId = boardId
  defaults : data.map Column.asDefault = defaultColumnsFor locale
  keys : (data.map fun column => key (toRow column : Row)).Nodup

namespace Seeds

variable {locale : Locale} {data : List Column}

theorem of_collected {columns : List DefaultColumn} (collected : List.Forall₂
      (fun column (row : Column) => row.boardId = boardId ∧ row.asDefault = column) columns data) :
    (∀ column ∈ data, column.boardId = boardId) ∧ data.map Column.asDefault = columns := by
  induction collected with
  | nil => exact ⟨by simp, rfl⟩
  | cons first _ ih =>
      obtain ⟨here, same⟩ := first
      exact ⟨by simpa [here] using ih.1, by rw [List.map_cons, same, ih.2]⟩

theorem apart (seeds : Seeds boardId locale data) :
    ∀ x ∈ data.map (fun column => (column.id, column.position)),
      ∀ y ∈ data.map (fun column => (column.id, column.position)), x.2 = y.2 → x.1 = y.1 := by
  have positions : (data.map Column.position).Nodup := by
    have listed := defaultColumns_positions locale
    rw [← seeds.defaults, List.map_map] at listed
    exact listed
  intro x left y right same
  obtain ⟨a, memberA, rfl⟩ := List.mem_map.mp left
  obtain ⟨b, memberB, rfl⟩ := List.mem_map.mp right
  rw [List.inj_on_of_nodup_map positions memberA memberB same]

/-- The writes of a seeding: the rows of the default columns and their audit rows. -/
def written (data : List Column) (audits : List (Write Row Key)) : List (Write Row Key) :=
  data.map (fun column => .put (toRow column)) ++ audits

variable {audits : List (Write Row Key)}
  (recorded : ∀ write ∈ audits, ∃ activity, write = .put (.activity activity))

include recorded

theorem fills (seeds : Seeds boardId locale data) :
    columnPositions.lanes.Fills boardId (data.map fun column => (column.id, column.position))
      (written data audits) := by
  intro write member
  obtain seeded | audited := List.mem_append.mp member
  · obtain ⟨column, listed, rfl⟩ := List.mem_map.mp seeded
    refine Or.inr ⟨_, column.id, column.position, rfl, ?_, List.mem_map_of_mem listed⟩
    rw [Positioning.entry_toRow, ← seeds.here column listed]
    rfl
  · obtain ⟨activity, rfl⟩ := recorded write audited
    exact Or.inl (quiet_activity activity)

theorem column_written {column : Column} (stored : .put (toRow column) ∈ written data audits) :
    column ∈ data := by
  obtain seeded | audited := List.mem_append.mp stored
  · obtain ⟨column', listed, same⟩ := List.mem_map.mp seeded
    cases same
    exact listed
  · obtain ⟨activity, same⟩ := recorded _ audited
    cases same

/-- In a board without columns they are the columns afterwards. -/
theorem columns_after (seeds : Seeds boardId locale data) {rows : List Row}
    (empty : ∀ i p, ¬ boardOrder boardId rows i p) (column : Column) :
    column ∈ (table (applyAll rows (written data audits)) : List Column) ∧ column.boardId = boardId ↔
      column ∈ data := by
  constructor
  · rintro ⟨there, here⟩
    obtain stored | ⟨old, _⟩ := mem_applyAll_cases (mem_table.mp there)
    · exact column_written recorded stored
    · exact absurd (Positioning.order_iff.mpr ⟨column, mem_table.mpr old, here, rfl, rfl⟩) (empty _ _)
  · intro listed
    have stored : Write.put (toRow column) ∈ written data audits :=
      List.mem_append_left _ (List.mem_map_of_mem listed)
    obtain ⟨row, member, _, same⟩ := exists_mem_applyAll rows
      (Q := fun row => row = toRow column) (List.mem_map.mpr ⟨_, stored, rfl⟩) (by
        intro write member target
        obtain seeded | audited := List.mem_append.mp member
        · obtain ⟨other, listed', rfl⟩ := List.mem_map.mp seeded
          have same : other = column := List.inj_on_of_nodup_map seeds.keys listed' listed target
          exact ⟨_, rfl, by rw [same]⟩
        · obtain ⟨activity, rfl⟩ := recorded _ audited
          cases target)
    exact ⟨mem_table.mpr (same ▸ member), seeds.here column listed⟩

end Seeds

theorem verified_recordSeeded {workspaceId actorId : Id} {start : Local Row Key}
    (quiet : ∀ l, promise.statement l) {E : Assertion Row}
    (stable : Stable (columnProtocol boardId ids) start.held E) (columns : List Column) :
    Verified (columnProtocol boardId ids) allow promise
      (forEach columns (ColumnService.recordSeeded workspaceId boardId actorId)) start E
      fun _ l A => ∃ audits, start.Grown l audits ∧
        (∀ write ∈ audits, ∃ activity, write = .put (.activity activity)) ∧ E = A := by
  refine Verified.forEach ⟨[], Local.Grown.refl start, by simp, rfl⟩ ?_
  rintro column _ l _ ⟨audits, grown, recorded, rfl⟩
  refine Verified.bind (verified_record (quiet _) (stable.more grown.held) fun activity l' _ grown' _ => ?_)
  refine ⟨_, grown.trans grown', ?_, rfl⟩
  intro write member
  obtain early | last := List.mem_append.mp member
  · exact recorded write early
  · exact ⟨activity, List.mem_singleton.mp last⟩

theorem verified_createDefaults {workspaceId actorId : Id} {negotiated : Option Locale} :
    Verified (columnProtocol boardId ids) allow
      ((ColumnCall.createDefaults workspaceId boardId actorId negotiated).promise boardId)
      (ColumnService.createDefaults workspaceId boardId actorId negotiated) {} (fun _ => True)
      fun _ _ _ => True := by
  have quiet : ∀ l, ((ColumnCall.createDefaults workspaceId boardId actorId negotiated).promise
    boardId).statement l := fun _ => trivial
  unfold ColumnService.createDefaults
  refine Verified.bind (verified_assertBoard quiet (Stable.const _ _ True) fun _ l₁ grown₁ => ?_)
  refine Verified.bind (verified_resolve quiet (Stable.const _ _ True) fun locale l₂ grown₂ => ?_)
  refine Verified.bind (Verified.transaction ?_)
  have clean₂ := grown₂.clean (grown₁.clean rfl)
  refine Verified.bind (verified_lockBoard quiet clean₂ fun l₃ grown₃ locked₃ => ?_)
  have clean₃ := grown₃.clean clean₂
  refine Verified.bind (Positioning.verified_look (P := columnPositions) quiet
    (Stable.const _ _ True) clean₃ locked₃ fun view l₄ grown₄ _ inv stable => ?_)
  refine Verified.bind (Verified.require fun counted => ?_)
  have empty : ∀ rows, True ∧ columnPositions.Reads boardId view rows →
      ∀ i p, ¬ boardOrder boardId rows i p := by
    rintro rows ⟨_, reads⟩ i p stands
    obtain ⟨column, member, here, _⟩ := Positioning.order_iff.mp (reads stands)
    have none : ∀ column ∈ (table view : List Column), ¬ column.boardId = boardId := by
      simpa [List.countP_eq_zero] using counted
    exact none column member here
  refine verified_seeds.andThen fun data _ _ ⟨collected, sameLocal, sameRows⟩ => ?_
  subst sameLocal
  subst sameRows
  obtain ⟨here, defaults⟩ := Seeds.of_collected collected
  refine Verified.bind (Verified.keep trivial stable fun rows _ _ o ran => ?_)
  obtain ⟨stored, _, all, written, keys, _⟩ := Statement.createMany_ok ran
  have stores := all rfl
  subst stores
  have seeds : Seeds boardId locale stored := ⟨here, defaults, keys⟩
  have grown₅ := l₄.grown_ran rows o
  refine Verified.bind (Verified.read trivial (stable.more grown₅.held) fun rows' _ _ => ?_)
  have grown₆ := (l₄.ran rows o).grown_read rows'
  refine (verified_recordSeeded quiet (stable.more (grown₅.trans grown₆).held) _).andThen
    fun _ l₇ _ ⟨audits, grown₇, recorded, same⟩ => ?_
  subst same
  intro rows'' inv fact _ _
  have pending : l₇.pending = Seeds.written stored audits := by
    rw [grown₇.pending, grown₆.pending, grown₅.pending, grown₄.clean clean₃, written]
    simp [Seeds.written]
  have filled := seeds.fills recorded
  have locked₇ := (((grown₄.trans grown₅).trans grown₆).trans grown₇).held locked₃
  have none := empty rows'' fact
  obtain ⟨invAfter, guar⟩ := filled.commit seeds.apart none inv (inv.2.2.kept filled.frame
    fun column put => here column (Seeds.column_written recorded put)) locked₇
  rw [← pending] at invAfter guar
  refine ⟨invAfter, guar, ⟨none, locale, stored, defaults, fun column => ?_⟩, _, trivial,
    Stable.const _ _ True, ?_⟩
  · have after := seeds.columns_after recorded none column
    rwa [← pending] at after
  · exact Verified.andThen (Verified.forEach (I := fun _ _ => True) trivial
      fun _ _ _ _ _ => trivial) fun _ _ _ _ => trivial

theorem ColumnCall.verified (call : ColumnCall) (on : call.On boardId rows)
    (named : ∀ id, call.Moves id → ids id) :
    Verified (columnProtocol boardId ids) allow (call.promise boardId) call.service {}
      (fun _ => True) fun _ _ _ => True := by
  cases call with
  | create workspaceId given actorId dto =>
      obtain rfl : given = boardId := on
      exact Verified.bind verified_createColumn
  | createDefaults workspaceId given actorId negotiated =>
      obtain rfl : given = boardId := on
      exact Verified.bind verified_createDefaults
  | move workspaceId columnId actorId dto =>
      exact Verified.bind (verified_moveColumn (named columnId rfl))
  | remove workspaceId columnId actorId => exact verified_removeColumn

end Calls

/-- Whatever creates, seedings, moves and removals run together on a board, in every
state they reach its columns stand at distinct positions; a create or move keeps the
order of the others, and the default set only goes into a board without columns. -/
theorem columns_keep_order {ι : Type} [DecidableEq ι] (calls : ι → ColumnCall) {boardId : Id}
    {rows : List Row} (unique : UniqueKeys rows) (there : ∃ row ∈ rows, key row = Key.board boardId)
    (distinct : (columnPositions.order boardId rows).Distinct)
    (on : ∀ i, (calls i).On boardId rows) {s : System ι Row Key Event Input Error Unit}
    (run : System.Reaches (fun _ _ => True)
      { rows, threads := fun i => { prog := (calls i).service } } s) :
    (columnPositions.order boardId s.rows).Distinct ∧
      ∀ i next, (s.threads i).prog = .commit next →
        (calls i).Kept boardId (s.local i) s.rows ((s.local i).view s.rows) := by
  let ids : Id → Prop := fun id => ∃ i, (calls i).Moves id
  have columns : ∀ column ∈ (table rows : List Column), ids column.id → column.boardId = boardId := by
    rintro column member ⟨i, moves⟩
    have here := on i
    cases call : calls i with
    | move workspaceId columnId actorId dto =>
        rw [call] at moves here
        exact here column member moves
    | _ => rw [call] at moves; exact moves.elim
  have start : Sound (columnProtocol boardId ids) (fun _ _ => True)
      (fun i => (calls i).promise boardId)
      ({ rows, threads := fun i => { prog := (calls i).service } } :
        System ι Row Key Event Input Error Unit) :=
    Sound.initial ⟨unique, fun g same => same ▸ distinct, there, columns⟩ fun i =>
      (calls i).verified (on i) fun id moves => ⟨i, moves⟩
  have sound := start.reaches (fun _ _ => trivial) run
  exact ⟨sound.inv.2.1 boardId rfl, fun i next here => (sound.commit i here trivial).1⟩

/-- Two people seed the board at once, and one takes the first set away again while the
other one waits for the board. -/
def seedings : Fin 5 → ColumnCall
  | 0 => .createDefaults "w" "b" "ann" none
  | 1 => .createDefaults "w" "b" "bob" none
  | 2 => .remove "w" "6" "ann"
  | 3 => .remove "w" "7" "ann"
  | 4 => .remove "w" "8" "ann"

def seedingsStart : System (Fin 5) Row Key Event Input Error Unit :=
  { rows := sampleWorkspace, threads := fun i => { prog := (seedings i).service } }

def seedingsOrder : List (Fin 5) :=
  [1, 1] ++ List.replicate 19 0 ++ [1] ++ List.replicate 7 2 ++ List.replicate 7 3 ++
    List.replicate 7 4 ++ List.replicate 16 1

/-- Then both insert: the second finds a board that is empty again. -/
theorem seedings_both_insert :
    ((seedingsStart.runs (turns seedingsOrder)).map fun s =>
      ((s.threads 0).prog.succeeded, (s.threads 1).prog.succeeded,
        ((table s.rows : List Activity).filter (·.type = .ColumnCreated)).map Activity.userId)) =
      some (true, true, ["ann", "ann", "ann", "bob", "bob", "bob"]) := by
  decide +kernel

def seedingsEnd : System (Fin 5) Row Key Event Input Error Unit :=
  (seedingsStart.runs (turns seedingsOrder)).get (by decide +kernel)

theorem columns_keep_order_seedings :
    (columnPositions.order "b" seedingsEnd.rows).Distinct ∧
      ∀ i next, (seedingsEnd.threads i).prog = .commit next →
        (seedings i).Kept "b" (seedingsEnd.local i) seedingsEnd.rows
          ((seedingsEnd.local i).view seedingsEnd.rows) :=
  columns_keep_order seedings (by decide +kernel) (by decide +kernel)
    (Positioning.distinct_iff.mpr (by decide +kernel))
    (fun
      | 0 | 1 => rfl
      | 2 | 3 | 4 => by
          have none : (table sampleWorkspace : List Column) = [] := by decide +kernel
          intro column member
          simp [none] at member)
    (System.Reaches.get _ _)

end Kurul
