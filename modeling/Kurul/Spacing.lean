import Kurul.Ordering
import Kurul.Sequence.Spacing
import Kurul.Store.Sequential
import Kurul.Task.ChecklistService

/-! The distance between siblings, and the steps of creates and moves that keep it: a
midpoint where the gap is wide enough, and a rebalance. -/
namespace Kurul

open Store Prog Sequence

/-- Half of what a move may find without spreading the list. -/
def LEAST_GAP : ℚ := MIN_GAP / 2

theorem LEAST_GAP_pos : 0 < LEAST_GAP := by norm_num [LEAST_GAP, MIN_GAP]

theorem LEAST_GAP_le : LEAST_GAP ≤ POSITION_GAP := by
  norm_num [LEAST_GAP, MIN_GAP, POSITION_GAP]

/-- Any two siblings of a list are apart. -/
def Positioning.Spaced [Entity Row α] (P : Positioning α) (rows : List Row) : Prop :=
  ∀ g, (P.order g rows).Spaced LEAST_GAP

/-- The same for the lists of all four services. -/
structure Spaced (rows : List Row) : Prop where
  tasks : taskPositions.Spaced rows
  columns : columnPositions.Spaced rows
  checklists : checklistPositions.Spaced rows
  items : checklistItemPositions.Spaced rows

section Slots

variable {L : List Sibling} {k : Nat}

theorem midpoint_gapped (ordered : Ordered Sibling.id Sibling.position L) (fits : k ≤ L.length)
    (spaced : ∀ a ∈ L, ∀ b ∈ L, a.id ≠ b.id →
      a.position + LEAST_GAP ≤ b.position ∨ b.position + LEAST_GAP ≤ a.position)
    (roomy : needsRebalance ((sliceSlot L k).prev.map Sibling.position)
      ((sliceSlot L k).next.map Sibling.position) = false) :
    Gapped LEAST_GAP L.length k (midpoint ((sliceSlot L k).prev.map Sibling.position)
      ((sliceSlot L k).next.map Sibling.position)) (Positioning.still L) := by
  have small := LEAST_GAP_le
  apply ordered.gapped fits LEAST_GAP_pos.le spaced
  · intro inside positive
    have prev : (sliceSlot L k).prev = some L[k - 1] := by
      simp [sliceSlot, inside, Nat.pos_iff_ne_zero.mp positive]
    by_cases more : k < L.length
    · have next : (sliceSlot L k).next = some L[k] := by simp [sliceSlot, more]
      simp only [prev, next, Option.map_some, needsRebalance, midpoint, decide_eq_false_iff_not,
        not_lt] at roomy ⊢
      unfold LEAST_GAP
      linarith
    · have next : (sliceSlot L k).next = none := by simp [sliceSlot, Nat.le_of_not_lt more]
      simp only [prev, next, Option.map_some, Option.map_none, midpoint]
      linarith
  · intro inside
    have next : (sliceSlot L k).next = some L[k] := by simp [sliceSlot, inside]
    by_cases positive : k = 0
    · have prev : (sliceSlot L k).prev = none := by simp [sliceSlot, positive]
      simp only [prev, next, Option.map_some, Option.map_none, midpoint]
      linarith
    · have before : k - 1 < L.length := by omega
      have prev : (sliceSlot L k).prev = some L[k - 1] := by simp [sliceSlot, before, positive]
      simp only [prev, next, Option.map_some, needsRebalance, midpoint, decide_eq_false_iff_not,
        not_lt] at roomy ⊢
      unfold LEAST_GAP
      linarith

theorem rebalance_gapped (n : Nat) (fits : k ≤ n) :
    Gapped LEAST_GAP n k ((rebalancePositions (n + 1)).getD k 0) (Positioning.apart k) := by
  have small := LEAST_GAP_le
  have increasing : ∀ {a b : Nat}, a < b →
      ((a : ℚ) + 1) * POSITION_GAP + LEAST_GAP ≤ (b + 1) * POSITION_GAP := by
    intro a b less
    have cast : (a : ℚ) + 1 ≤ b := by exact_mod_cast less
    have wide : ((a : ℚ) + 1) * POSITION_GAP + POSITION_GAP ≤ (b + 1) * POSITION_GAP := by
      unfold POSITION_GAP
      linarith
    linarith
  rw [rebalancePositions_getD (by omega)]
  unfold Positioning.apart
  constructor
  · intro i j less inside
    apply increasing
    split <;> split <;> omega
  · intro i less inside
    apply increasing
    simp [less]
  · intro i later inside
    apply increasing
    simp only [Nat.not_lt.mpr later, if_false]
    omega

end Slots

namespace Positioning

variable [Entity Row α] {P : Positioning α} {g : Id} {rows : List Row} {L : List Sibling}
  {own : Option Id} {position : ℚ} {moved : Nat → ℚ} {W : List (Write Row Key)} {k : Nat}

/-- Siblings as they stand are apart. -/
theorem Spaced.listed (spaced : P.Spaced rows) (sub : ∀ a ∈ L, P.order g rows a.id a.position) :
    ∀ a ∈ L, ∀ b ∈ L, a.id ≠ b.id →
      a.position + LEAST_GAP ≤ b.position ∨ b.position + LEAST_GAP ≤ a.position :=
  fun a left b right different => spaced g (sub a left) (sub b right) different

theorem Spaced.distinct (spaced : P.Spaced rows) (g : Id) : (P.order g rows).Distinct :=
  (spaced g).distinct LEAST_GAP_pos

end Positioning

/-- Rows of one table, beside audit rows. -/
def OnlyRows (α : Type) [Entity Row α] (W : List (Write Row Key)) : Prop :=
  ∀ write ∈ W, (∃ a : α, write = .put (toRow a)) ∨ ∃ activity, write = .put (.activity activity)

theorem OnlyRows.append {α : Type} [Entity Row α] {W B : List (Write Row Key)}
    (first : OnlyRows α W) (second : OnlyRows α B) : OnlyRows α (W ++ B) := by
  intro write member
  rcases List.mem_append.mp member with left | right
  · exact first write left
  · exact second write right

namespace Positioning

variable [Entity Row α] {P : Positioning α} {g : Id} {rows : List Row} {L : List Sibling}
  {own : Option Id} {position : ℚ} {moved : Nat → ℚ} {W : List (Write Row Key)} {k : Nat}

/-- Where a placement stands that has written `W` over these rows. -/
structure Arranged (P : Positioning α) (L : List Sibling) (g : Id) (own : Option Id) (position : ℚ)
    (moved : Nat → ℚ) (W : List (Write Row Key)) (rows : List Row) : Prop where
  puts : P.Puts L g own position moved W
  keeps : P.Keeps L g own moved W rows
  only : OnlyRows α W

theorem Arranged.start (listed : ∀ {i p}, P.order g rows i p → own ≠ some i → ⟨i, p⟩ ∈ L)
    (position : ℚ) : P.Arranged L g own position (still L) [] rows :=
  ⟨Lanes.Places.nil, keeps_start listed, by simp [OnlyRows]⟩

/-- The audit row of a call. -/
theorem Arranged.audit (arranged : P.Arranged L g own position moved W rows) (activity : Activity)
    (silent : P.lanes.Silent (.put (.activity activity))) :
    P.Arranged L g own position moved (W ++ [.put (.activity activity)]) rows := by
  obtain ⟨puts, keeps⟩ := keeps_quiet arranged.puts arranged.keeps silent
  refine ⟨puts, keeps, arranged.only.append ?_⟩
  intro write member
  exact .inr ⟨activity, List.mem_singleton.mp member⟩

/-- The new row. -/
theorem Arranged.insert (arranged : P.Arranged L g none position moved W rows) {a : α}
    (here : P.group a = g) (stands : P.position a = position)
    (new : ∀ row ∈ applyAll rows W, key row ≠ key (toRow a : Row)) :
    P.Arranged L g (some (P.id a)) position moved (W ++ [.put (toRow a)]) rows ∧
      P.entryKey (P.id a) ∈ touched (W ++ [.put (toRow a)]) := by
  obtain ⟨puts, keeps, _⟩ := keeps_insert arranged.puts arranged.keeps here stands new
  refine ⟨⟨puts, keeps, arranged.only.append ?_⟩, ?_⟩
  · intro write member
    exact .inl ⟨a, List.mem_singleton.mp member⟩
  · rw [touched_append, ← P.key_toRow]
    exact List.mem_append_right _ (List.mem_singleton_self _)

/-- The moved row's own write. -/
theorem Arranged.shift {a : α} (keeps : P.Keeps L g (some (P.id a)) moved [] rows)
    (here : P.group a = g) (stands : P.position a = position) :
    P.Arranged L g (some (P.id a)) position moved [.put (toRow a)] rows := by
  obtain ⟨puts, kept⟩ := keeps_own keeps here stands
  refine ⟨puts moved, kept, ?_⟩
  intro write member
  exact .inl ⟨a, List.mem_singleton.mp member⟩

/-- A placement with room around it keeps the rows of its table apart. -/
theorem Arranged.spaced {x : Id} (arranged : P.Arranged L g (some x) position moved W rows)
    (keys : (L.map Sibling.id).Nodup) (mine : P.entryKey x ∈ touched W)
    (gapped : Gapped LEAST_GAP L.length k position moved) (spaced : P.Spaced rows) :
    P.Spaced (applyAll rows W) :=
  arranged.puts.spaced arranged.keeps keys mine gapped spaced

/-- Rows of other tables keep these apart. -/
theorem Spaced.other {β : Type} [Entity Row β] (spaced : P.Spaced rows) (only : OnlyRows β W)
    (apart : ∀ b : β, (ofRow (toRow b : Row) : Option α) = none)
    (history : ∀ activity, (ofRow (.activity activity : Row) : Option α) = none) :
    P.Spaced (applyAll rows W) := by
  apply Lanes.spaced_quiet _ spaced
  intro row member
  have absent : (ofRow row : Option α) = none := by
    rcases only _ member with ⟨b, same⟩ | ⟨activity, same⟩
    · cases same
      exact apart b
    · cases same
      exact history activity
  change (ofRow row : Option α).map _ = _
  rw [absent]
  rfl

/-- So do deletions. -/
theorem Spaced.removed (spaced : P.Spaced rows)
    (quiet : ∀ row, .put row ∈ W → (ofRow row : Option α) = none) : P.Spaced (applyAll rows W) := by
  apply Lanes.spaced_quiet _ spaced
  intro row member
  change (ofRow row : Option α).map _ = _
  rw [quiet row member]
  rfl

end Positioning

section Commits

variable {rows : List Row} {L : List Sibling} {g x : Id} {position : ℚ} {moved : Nat → ℚ}
  {W : List (Write Row Key)} {k : Nat}

theorem Spaced.placeTask (spaced : Spaced rows)
    (arranged : taskPositions.Arranged L g (some x) position moved W rows)
    (keys : (L.map Sibling.id).Nodup) (mine : Key.task x ∈ touched W)
    (gapped : Gapped LEAST_GAP L.length k position moved) : Spaced (applyAll rows W) where
  tasks := arranged.spaced keys mine gapped spaced.tasks
  columns := spaced.columns.other arranged.only (fun _ => rfl) fun _ => rfl
  checklists := spaced.checklists.other arranged.only (fun _ => rfl) fun _ => rfl
  items := spaced.items.other arranged.only (fun _ => rfl) fun _ => rfl

theorem Spaced.placeColumn (spaced : Spaced rows)
    (arranged : columnPositions.Arranged L g (some x) position moved W rows)
    (keys : (L.map Sibling.id).Nodup) (mine : Key.column x ∈ touched W)
    (gapped : Gapped LEAST_GAP L.length k position moved) : Spaced (applyAll rows W) where
  tasks := spaced.tasks.other arranged.only (fun _ => rfl) fun _ => rfl
  columns := arranged.spaced keys mine gapped spaced.columns
  checklists := spaced.checklists.other arranged.only (fun _ => rfl) fun _ => rfl
  items := spaced.items.other arranged.only (fun _ => rfl) fun _ => rfl

theorem Spaced.placeChecklist (spaced : Spaced rows)
    (arranged : checklistPositions.Arranged L g (some x) position moved W rows)
    (keys : (L.map Sibling.id).Nodup) (mine : Key.checklist x ∈ touched W)
    (gapped : Gapped LEAST_GAP L.length k position moved) : Spaced (applyAll rows W) where
  tasks := spaced.tasks.other arranged.only (fun _ => rfl) fun _ => rfl
  columns := spaced.columns.other arranged.only (fun _ => rfl) fun _ => rfl
  checklists := arranged.spaced keys mine gapped spaced.checklists
  items := spaced.items.other arranged.only (fun _ => rfl) fun _ => rfl

theorem Spaced.placeItem (spaced : Spaced rows)
    (arranged : checklistItemPositions.Arranged L g (some x) position moved W rows)
    (keys : (L.map Sibling.id).Nodup) (mine : Key.checklistItem x ∈ touched W)
    (gapped : Gapped LEAST_GAP L.length k position moved) : Spaced (applyAll rows W) where
  tasks := spaced.tasks.other arranged.only (fun _ => rfl) fun _ => rfl
  columns := spaced.columns.other arranged.only (fun _ => rfl) fun _ => rfl
  checklists := spaced.checklists.other arranged.only (fun _ => rfl) fun _ => rfl
  items := arranged.spaced keys mine gapped spaced.items

/-- Writes that put no row of the four tables. -/
theorem Spaced.quiet (spaced : Spaced rows)
    (history : ∀ row, .put row ∈ W →
      (∃ activity, row = .activity activity) ∨ ∃ notification, row = .notification notification) :
    Spaced (applyAll rows W) := by
  constructor
  · apply spaced.tasks.removed
    intro row member
    rcases history row member with ⟨_, rfl⟩ | ⟨_, rfl⟩ <;> rfl
  · apply spaced.columns.removed
    intro row member
    rcases history row member with ⟨_, rfl⟩ | ⟨_, rfl⟩ <;> rfl
  · apply spaced.checklists.removed
    intro row member
    rcases history row member with ⟨_, rfl⟩ | ⟨_, rfl⟩ <;> rfl
  · apply spaced.items.removed
    intro row member
    rcases history row member with ⟨_, rfl⟩ | ⟨_, rfl⟩ <;> rfl

/-- A deletion, of whatever it starts from. -/
theorem puts_of_deletion {keys : List Key} {row : Row}
    (member : Write.put row ∈ deletion rows (cascade rows keys)) :
    (∃ activity, row = .activity activity) ∨ ∃ notification, row = .notification notification := by
  have start : ∀ k ∈ keys, 0 ≤ k.depth := fun _ _ => Nat.zero_le _
  rcases deletion_writes start member with ⟨_, same, _⟩ | ⟨activity, same⟩ | ⟨notification, same⟩
  · cases same
  · cases same
    exact .inl ⟨activity, rfl⟩
  · cases same
    exact .inr ⟨notification, rfl⟩

end Commits

/-- What a commit has to leave behind. -/
def CommitsSpaced : Occurrence Row Key Event → Prop
  | .committed before W => Spaced (applyAll before W)
  | .emitted .. => True

namespace Positioning

variable [Entity Row α] {P : Positioning α} {g : Id} {rows : List Row} {L : List Sibling}
  {own : Option Id} {W : List (Write Row Key)} {k : Nat} {fine : Occurrence Row Key Event → Prop}

/-- A rebalance around the free slot. -/
theorem holds_batch {ok : Unit → List Row → List (Write Row Key) → Prop}
    (keys : (L.map Sibling.id).Nodup) (keeps : P.Keeps L g own (still L) W rows)
    (mine : ∀ k ∈ touched W, ∃ x, own = some x ∧ k = P.entryKey x)
    (absent : ∀ x, own = some x → ∀ sibling ∈ L, sibling.id ≠ x)
    (rest : ∀ B, OnlyRows α B → (∀ position, P.Puts L g own position (apart k) B) →
      P.Keeps L g own (apart k) (W ++ B) rows → ok () rows (W ++ B)) :
    (P.batchUpdate g (rebalancedSiblings L k)).Holds fine ok (fun _ _ _ => True) rows W := by
  unfold batchUpdate
  split
  · rename_i none
    have empty : L = [] := by
      have := congrArg List.length none
      simpa [rebalancedSiblings] using this
    subst empty
    have kept := rest [] (by simp [OnlyRows]) (fun _ => Lanes.Places.nil)
      (keeps.extend (fun stands other => by
        obtain ⟨i, inside, _⟩ := keeps.listed stands other
        simp at inside) fun stored => absurd stored List.not_mem_nil)
    rw [List.append_nil] at kept
    exact kept
  · apply Holds.bind
    apply Holds.query
    intro o ran
    obtain ⟨puts, kept⟩ := keeps_batch keys keeps mine absent ran
    apply rest o.writes _ puts kept
    intro write member
    obtain ⟨_, written⟩ := Statement.updateMany_ok ran
    rw [written] at member
    obtain ⟨a, _, same⟩ := List.mem_map.mp member
    exact .inl ⟨_, same.symm⟩

/-- The position of a new row, with or without a rebalance, and what is known of it. -/
theorem holds_createPosition {ok : ℚ → List Row → List (Write Row Key) → Prop} {fit : ℚ → (Nat → ℚ) → Prop}
    (keys : (L.map Sibling.id).Nodup) (keeps : P.Keeps L g none (still L) [] rows)
    (between : needsRebalance ((sliceSlot L k).prev.map Sibling.position)
      ((sliceSlot L k).next.map Sibling.position) = false → fit (midpoint ((sliceSlot L k).prev.map Sibling.position)
        ((sliceSlot L k).next.map Sibling.position)) (still L))
    (spread : fit ((rebalancePositions (L.length + 1)).getD k 0) (apart k))
    (rest : ∀ position moved W, P.Arranged L g none position moved W rows → fit position moved → ok position rows W) :
    (P.createPosition g L (sliceSlot L k)).Holds fine ok (fun _ _ _ => True) rows [] := by
  unfold createPosition
  dsimp only
  split
  · apply Holds.bind
    apply holds_batch keys keeps
    · simp [touched]
    · simp
    intro B only puts kept
    exact rest _ _ _ ⟨puts _, kept, only⟩ spread
  · rename_i roomy
    exact rest _ _ _ ⟨Lanes.Places.nil, keeps, by simp [OnlyRows]⟩ (between (by simpa using roomy))

end Positioning

section Rules

variable {rows : List Row} {W : List (Write Row Key)} {fine : Occurrence Row Key Event → Prop}

theorem holds_record {ok : Activity → List Row → List (Write Row Key) → Prop}
    {input : ActivityService.RecordActivityInput}
    (rest : ∀ activity, ok activity rows (W ++ [.put (.activity activity)])) :
    (ActivityService.record input).Holds fine ok (fun _ _ _ => True) rows W := by
  intro given
  apply Holds.query
  intro o ran
  obtain ⟨same, written, _⟩ := Statement.create_ok ran
  rw [same, written]
  exact rest _

theorem holds_assertBoard {ok : Board → List Row → List (Write Row Key) → Prop}
    {workspaceId boardId : Id} (rest : ∀ board, ok board rows W) :
    (assertBoard workspaceId boardId).Holds fine ok (fun _ _ _ => True) rows W := by
  apply Holds.found
  intro board _
  exact rest board

theorem holds_lock {ok : Unit → List Row → List (Write Row Key) → Prop} {k : Key}
    (rest : ok () rows W) :
    (query (.lockForUpdate k) : Service Unit).Holds fine ok (fun _ _ _ => True) rows W := by
  apply Holds.query
  intro o ran
  rw [(Statement.lockForUpdate_ok ran).1, List.append_nil]
  exact rest

end Rules

end Kurul
