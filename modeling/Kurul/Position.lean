import Kurul.Sequence.Placement
import Kurul.Service

/-! Fractional positions and insertion slots, over exact rationals. The slot a row
goes into is worked out once for creates and moves; both the midpoint and the
rebalance branch spread the siblings around it. -/
namespace Kurul

open Store Prog

def POSITION_GAP : ℚ := 1000
def MIN_GAP : ℚ := 1 / 1000000

/-- `prev` is the smaller position, `next` the larger; either may be open. -/
def midpoint (prev next : Option ℚ) : ℚ :=
  match prev, next with
  | none, none => POSITION_GAP
  | none, some next => next - POSITION_GAP
  | some prev, none => prev + POSITION_GAP
  | some prev, some next => (prev + next) / 2

def needsRebalance (prev next : Option ℚ) : Bool :=
  match prev, next with
  | some prev, some next => decide (next - prev < MIN_GAP)
  | _, _ => false

def rebalancePositions (count : Nat) (gap : ℚ := POSITION_GAP) : List ℚ :=
  (List.range count).map fun (index : Nat) => ((index : ℚ) + 1) * gap

/-- The two columns that the ordering math reads, and that a rebalance writes. -/
structure Sibling where
  id : Id
  position : ℚ
  deriving DecidableEq

/-- `orderBy: [{ position: 'asc' }, { id: 'asc' }]`. -/
def Sibling.before (a b : Sibling) : Prop :=
  a.position < b.position ∨ (a.position = b.position ∧ a.id ≤ b.id)

instance : DecidableRel Sibling.before := fun _ _ => inferInstanceAs (Decidable (_ ∨ _))

def byPosition (siblings : List Sibling) : List Sibling := siblings.insertionSort Sibling.before

structure InsertionSlot where
  insertionIndex : Nat
  prev : Option Sibling
  next : Option Sibling
  deriving DecidableEq

def sliceSlot (items : List Sibling) (insertionIndex : Nat) : InsertionSlot where
  insertionIndex
  prev := if insertionIndex = 0 then none else items[insertionIndex - 1]?
  next := items[insertionIndex]?

def adjacent (prevIndex nextIndex : Option Nat) : Bool :=
  match prevIndex, nextIndex with
  | some prev, some next => decide (next = prev + 1)
  | _, _ => true

/-- Slot for a row being moved: after `prevId`, before `nextId`, which have to be adjacent. -/
def resolveMoveNeighbors (remaining : List Sibling) (prevId nextId : Option Id) :
    Except Error InsertionSlot :=
  let prevIndex := prevId.bind fun id => remaining.findIdx? (·.id = id)
  let nextIndex := nextId.bind fun id => remaining.findIdx? (·.id = id)
  if (truthy prevId && prevIndex.isNone) || (truthy nextId && nextIndex.isNone) ||
      !adjacent prevIndex nextIndex then
    .error (.notFound "Neighbor not found")
  else
    .ok (sliceSlot remaining
      (match prevIndex, nextIndex with
        | some prev, _ => prev + 1
        | none, some next => next
        | none, none => remaining.length))

/-- Slot for a newly created row: after `prevId`, or at the end. -/
def resolveCreateNeighbors (siblings : List Sibling) (prevId : Option Id)
    (notFoundMessage : String) : Except Error InsertionSlot :=
  let prevIndex :=
    if truthy prevId then siblings.findIdx? (some ·.id = prevId)
    else if siblings = [] then none else some (siblings.length - 1)
  if truthy prevId && prevIndex.isNone then
    .error (.notFound notFoundMessage)
  else
    .ok (sliceSlot siblings (match prevIndex with | some prev => prev + 1 | none => 0))

/-- Where a rebalance puts the siblings around the free slot. -/
def rebalancedSiblings (siblings : List Sibling) (insertionIndex : Nat) : List Sibling :=
  let positions := rebalancePositions (siblings.length + 1)
  siblings.mapIdx fun index sibling =>
    { id := sibling.id
      position := positions.getD (if index < insertionIndex then index else index + 1) 0 }

/-- The same as the move code computes it: the moved row spliced in, its slot skipped. -/
def reorderedUpdates (remaining : List Sibling) (insertionIndex : Nat) (moved : Sibling) :
    List Sibling :=
  let reordered := remaining.insertIdx insertionIndex moved
  let positions := rebalancePositions reordered.length
  (reordered.zipIdx.filter fun (item, _) => item.id ≠ moved.id).map fun (item, index) =>
    { id := item.id, position := positions.getD index 0 }

/-- The rows of one update, found by id. -/
def updatedPosition (updates : List Sibling) (id : Id) (position : ℚ) : ℚ :=
  ((updates.find? (·.id = id)).map Sibling.position).getD position

/-- A table whose rows stand in order within a parent row, which is locked to put
rows among them. -/
structure Positioning (α : Type) [Entity Row α] where
  group : α → Id
  id : α → Id
  position : α → ℚ
  reposition : ℚ → α → α
  entryKey : Id → Key
  lock : Id → Key
  key_toRow : ∀ a, key (toRow a : Row) = entryKey (id a)
  exists_toRow : ∀ {row : Row} {i}, key row = entryKey i → ∃ a : α, toRow a = row
  entryKey_injective : Function.Injective entryKey
  lock_ne : ∀ g i, lock g ≠ entryKey i
  group_reposition : ∀ p a, group (reposition p a) = group a
  id_reposition : ∀ p a, id (reposition p a) = id a
  position_reposition : ∀ p a, position (reposition p a) = p

namespace Positioning

variable [Entity Row α] (P : Positioning α)

/-- The rows of one parent in position order, two columns of each. -/
def siblings (groupId : Id) (rows : List Row) : List Sibling :=
  byPosition (((table rows).filter (P.group · = groupId)).map fun a =>
    { id := P.id a, position := P.position a })

/-- One `UPDATE … FROM unnest(…)` over the rows of one parent. -/
def batchUpdate (groupId : Id) (updates : List Sibling) : Service Unit :=
  if updates = [] then return ()
  else do
    let _ ← query (.updateMany
      (fun _ a => updates.any (·.id = P.id a) && P.group a = groupId)
      fun a => P.reposition (updatedPosition updates (P.id a) (P.position a)) a)

/-- The position of a new row, after its siblings were moved apart where they had to be. -/
def createPosition (groupId : Id) (siblings : List Sibling) (slot : InsertionSlot) : Service ℚ :=
  let prevPos := slot.prev.map Sibling.position
  let nextPos := slot.next.map Sibling.position
  if needsRebalance prevPos nextPos then do
    let positions := rebalancePositions (siblings.length + 1)
    P.batchUpdate groupId (rebalancedSiblings siblings slot.insertionIndex)
    return positions.getD slot.insertionIndex 0
  else
    return midpoint prevPos nextPos

end Positioning

/-- Tasks stand in order within their column. -/
def taskPositions : Positioning Task where
  group := Task.columnId
  id := Task.id
  position := Task.position
  reposition position task := { task with position }
  entryKey := .task
  lock := .column
  key_toRow _ := rfl
  exists_toRow {row} _ same := by
    cases row with
    | task task => exact ⟨task, rfl⟩
    | _ => simp [key, Row.key] at same
  entryKey_injective _ _ same := by simpa using same
  lock_ne _ _ := by simp
  group_reposition _ _ := rfl
  id_reposition _ _ := rfl
  position_reposition _ _ := rfl

/-- Columns stand in order within their board. -/
def columnPositions : Positioning Column where
  group := Column.boardId
  id := Column.id
  position := Column.position
  reposition position column := { column with position }
  entryKey := .column
  lock := .board
  key_toRow _ := rfl
  exists_toRow {row} _ same := by
    cases row with
    | column column => exact ⟨column, rfl⟩
    | _ => simp [key, Row.key] at same
  entryKey_injective _ _ same := by simpa using same
  lock_ne _ _ := by simp
  group_reposition _ _ := rfl
  id_reposition _ _ := rfl
  position_reposition _ _ := rfl

/-- Scoped by `columnId` so that a stale id cannot touch another column. -/
def batchUpdateTaskPositions (columnId : Id) (updates : List Sibling) : Service Unit :=
  taskPositions.batchUpdate columnId updates

/-- Scoped by `boardId` so that a stale id cannot touch another board. -/
def batchUpdateColumnPositions (boardId : Id) (updates : List Sibling) : Service Unit :=
  columnPositions.batchUpdate boardId updates

section Slots

theorem resolveMoveNeighbors_slot {remaining : List Sibling} {prevId nextId : Option Id}
    {slot : InsertionSlot} (resolved : resolveMoveNeighbors remaining prevId nextId = .ok slot) :
    ∃ k ≤ remaining.length, slot = sliceSlot remaining k := by
  have inside : ∀ {given : Option Id} {i : Nat},
      (given.bind fun id => remaining.findIdx? (·.id = id)) = some i → i < remaining.length := by
    intro given i found
    obtain ⟨id, _, at_⟩ := Option.bind_eq_some_iff.mp found
    exact (List.findIdx?_eq_some_iff_getElem.mp at_).1
  simp only [resolveMoveNeighbors] at resolved
  generalize before : (prevId.bind fun id => remaining.findIdx? (·.id = id)) = prevIndex at resolved
  generalize after : (nextId.bind fun id => remaining.findIdx? (·.id = id)) = nextIndex at resolved
  split at resolved
  · contradiction
  · cases resolved
    refine ⟨_, ?_, rfl⟩
    cases prevIndex with
    | some prev => exact inside before
    | none =>
        cases nextIndex with
        | some next => exact (inside after).le
        | none => exact le_rfl

theorem resolveCreateNeighbors_slot {siblings : List Sibling} {prevId : Option Id}
    {notFoundMessage : String} {slot : InsertionSlot}
    (resolved : resolveCreateNeighbors siblings prevId notFoundMessage = .ok slot) :
    ∃ k ≤ siblings.length, slot = sliceSlot siblings k := by
  simp only [resolveCreateNeighbors] at resolved
  generalize found : (if truthy prevId then siblings.findIdx? (some ·.id = prevId)
    else if siblings = [] then none else some (siblings.length - 1)) = prevIndex at resolved
  split at resolved
  · contradiction
  · cases resolved
    refine ⟨_, ?_, rfl⟩
    cases prevIndex with
    | none => exact Nat.zero_le _
    | some prev =>
        split at found
        · exact (List.findIdx?_eq_some_iff_getElem.mp found).1
        · split at found
          · contradiction
          · rename_i nonempty
            cases found
            have := List.length_pos_iff.mpr nonempty
            change siblings.length - 1 + 1 ≤ siblings.length
            omega

end Slots

section Spreads

variable {siblings : List Sibling} {k : Nat}

/-- A midpoint leaves every sibling in place. -/
theorem midpoint_spread (ordered : Sequence.Ordered Sibling.id Sibling.position siblings)
    (fits : k ≤ siblings.length) :
    Sequence.Spread siblings.length k
      (midpoint ((sliceSlot siblings k).prev.map Sibling.position)
        ((sliceSlot siblings k).next.map Sibling.position))
      fun i => (siblings[i]?.map Sibling.position).getD 0 := by
  have between : ∀ {prev next : ℚ}, prev < next → prev < (prev + next) / 2 ∧
      (prev + next) / 2 < next := fun less => ⟨by linarith, by linarith⟩
  refine ordered.spread fits (fun inside positive => ?_) (fun inside => ?_) 0
  · have prev : (sliceSlot siblings k).prev = some siblings[k - 1] := by
      simp [sliceSlot, inside, Nat.pos_iff_ne_zero.mp positive]
    by_cases more : k < siblings.length
    · have next : (sliceSlot siblings k).next = some siblings[k] := by simp [sliceSlot, more]
      have less := (ordered.lt_iff inside more).mpr (by omega)
      simpa [prev, next, midpoint] using (between less).1
    · have next : (sliceSlot siblings k).next = none := by simp [sliceSlot, Nat.le_of_not_lt more]
      simp [prev, next, midpoint, POSITION_GAP]
  · have next : (sliceSlot siblings k).next = some siblings[k] := by simp [sliceSlot, inside]
    by_cases positive : k = 0
    · have prev : (sliceSlot siblings k).prev = none := by simp [sliceSlot, positive]
      simp [prev, next, midpoint, POSITION_GAP]
    · have before : k - 1 < siblings.length := by omega
      have prev : (sliceSlot siblings k).prev = some siblings[k - 1] := by
        simp [sliceSlot, before, positive]
      have less := (ordered.lt_iff before inside).mpr (by omega)
      simpa [prev, next, midpoint] using (between less).2

theorem rebalancePositions_getD {count index : Nat} (inside : index < count) :
    (rebalancePositions count).getD index 0 = ((index : ℚ) + 1) * POSITION_GAP := by
  rw [List.getD_eq_getElem?_getD, List.getElem?_eq_getElem (by simpa [rebalancePositions] using inside),
    Option.getD_some]
  simp only [rebalancePositions, List.getElem_map, List.getElem_range]

theorem rebalancedSiblings_getElem {i : Nat} (inside : i < siblings.length)
    (within : i < (rebalancedSiblings siblings k).length) :
    (rebalancedSiblings siblings k)[i] =
      { id := siblings[i].id
        position := ((if i < k then i else i + 1 : Nat) + 1 : ℚ) * POSITION_GAP } := by
  have slot : (if i < k then i else i + 1) < siblings.length + 1 := by split <;> omega
  simp only [rebalancedSiblings, List.getElem_mapIdx, rebalancePositions_getD slot]

/-- A rebalance spreads every sibling evenly around the free slot. -/
theorem rebalance_spread (n : Nat) (fits : k ≤ n) :
    Sequence.Spread n k ((rebalancePositions (n + 1)).getD k 0)
      fun i => ((if i < k then i else i + 1 : Nat) + 1 : ℚ) * POSITION_GAP := by
  have increasing : ∀ {a b : Nat}, a < b → ((a : ℚ) + 1) * POSITION_GAP < (b + 1) * POSITION_GAP := by
    intro a b less
    have cast : (a : ℚ) < b := by exact_mod_cast less
    unfold POSITION_GAP
    linarith
  rw [rebalancePositions_getD (by omega)]
  refine ⟨fun {i j} less inside => increasing ?_, fun less inside => increasing ?_,
    fun later inside => increasing ?_⟩
  · split <;> split <;> omega
  · simp [less]
  · simp only [Nat.not_lt.mpr later, if_false]
    omega

theorem zipIdx_insertIdx_filter {moved : Sibling} (start : Nat) (fits : k ≤ siblings.length)
    (others : ∀ sibling ∈ siblings, sibling.id ≠ moved.id) :
    ((siblings.insertIdx k moved).zipIdx start).filter (fun (item, _) => item.id ≠ moved.id) =
      (siblings.zipIdx start).map fun (item, i) => (item, if i < start + k then i else i + 1) := by
  induction siblings generalizing k start with
  | nil =>
      obtain rfl : k = 0 := Nat.le_zero.mp fits
      simp
  | cons first rest ih =>
      have kept := others first List.mem_cons_self
      cases k with
      | zero =>
          have untouched := ih (k := 0) (start + 1) (Nat.zero_le _) fun sibling member =>
            others sibling (List.mem_cons_of_mem _ member)
          simp only [List.insertIdx_zero, List.zipIdx_cons, List.filter_cons, ne_eq,
            not_true_eq_false, decide_false, Bool.false_eq_true, if_false, kept,
            not_false_eq_true, decide_true, if_true, List.map_cons, Nat.add_zero,
            Nat.lt_irrefl] at untouched ⊢
          rw [List.zipIdx_succ, List.filter_eq_self.mpr]
          · refine congrArg (List.cons _) (List.map_congr_left ?_)
            rintro ⟨item, i⟩ member
            have later : ¬ i < start := by have := (List.mem_zipIdx member).1; omega
            simp only [later, if_false]
          · rintro ⟨item, i⟩ member
            obtain ⟨⟨item', i'⟩, stays, same⟩ := List.mem_map.mp member
            cases same
            simpa using others item (List.mem_cons_of_mem _ (List.fst_mem_of_mem_zipIdx stays))
      | succ k =>
          have shifted := ih (k := k) (start + 1) (Nat.le_of_succ_le_succ fits)
            fun sibling member => others sibling (List.mem_cons_of_mem _ member)
          simp only [List.insertIdx_succ_cons, List.zipIdx_cons, List.filter_cons, kept, ne_eq,
            not_false_eq_true, decide_true, if_true, shifted, List.map_cons]
          have first : start < start + (k + 1) := by omega
          simp only [first, if_true, Nat.add_assoc, Nat.add_comm 1 k]

/-- The moved row left out, the two computations of a rebalance agree. -/
theorem reorderedUpdates_eq {moved : Sibling} (fits : k ≤ siblings.length)
    (others : ∀ sibling ∈ siblings, sibling.id ≠ moved.id) :
    reorderedUpdates siblings k moved = rebalancedSiblings siblings k := by
  have length : (siblings.insertIdx k moved).length = siblings.length + 1 :=
    List.length_insertIdx_of_le_length fits _
  simp only [reorderedUpdates, rebalancedSiblings, length,
    zipIdx_insertIdx_filter 0 fits others, List.mapIdx_eq_zipIdx_map, List.map_map,
    Nat.zero_add, Function.comp_def]

theorem updatedPosition_getElem {updates : List Sibling} (keys : (updates.map Sibling.id).Nodup)
    {i : Nat} (inside : i < updates.length) (position : ℚ) :
    updatedPosition updates updates[i].id position = updates[i].position := by
  have found : updates.find? (·.id = updates[i].id) = some updates[i] := by
    rw [List.find?_eq_some_iff_getElem]
    refine ⟨by simp, i, inside, rfl, fun j before => ?_⟩
    have different : j ≠ i := before.ne
    have earlier : j < updates.length := Nat.lt_trans before inside
    simpa using fun same => different (Sequence.index_eq keys earlier inside same)
  simp [updatedPosition, found]

end Spreads

section Sorting

theorem mem_byPosition {siblings : List Sibling} {sibling : Sibling} :
    sibling ∈ byPosition siblings ↔ sibling ∈ siblings :=
  (List.perm_insertionSort _ _).mem_iff

instance : Std.Total Sibling.before where
  total a b := by
    unfold Sibling.before
    rcases lt_trichotomy a.position b.position with less | same | more
    · exact Or.inl (Or.inl less)
    · rcases le_total a.id b.id with less | more
      · exact Or.inl (Or.inr ⟨same, less⟩)
      · exact Or.inr (Or.inr ⟨same.symm, more⟩)
    · exact Or.inr (Or.inl more)

instance : IsTrans Sibling Sibling.before where
  trans a b c first second := by
    unfold Sibling.before at *
    rcases first with less | ⟨same, le⟩
    · rcases second with less' | ⟨same', _⟩
      · exact Or.inl (less.trans less')
      · exact Or.inl (same' ▸ less)
    · rcases second with less' | ⟨same', le'⟩
      · exact Or.inl (same ▸ less')
      · exact Or.inr ⟨same.trans same', le.trans le'⟩

theorem nodup_byPosition {siblings : List Sibling} (keys : (siblings.map Sibling.id).Nodup) :
    ((byPosition siblings).map Sibling.id).Nodup :=
  ((List.perm_insertionSort _ _).map _).nodup_iff.mpr keys

/-- Siblings read in position order stand strictly increasing once their positions are distinct. -/
theorem ordered_byPosition {siblings : List Sibling} (keys : (siblings.map Sibling.id).Nodup)
    (distinct : ∀ a ∈ siblings, ∀ b ∈ siblings, a.position = b.position → a.id = b.id) :
    Sequence.Ordered Sibling.id Sibling.position (byPosition siblings) where
  keys := nodup_byPosition keys
  increasing := by
    have keysSorted : (byPosition siblings).Pairwise fun a b => a.id ≠ b.id :=
      List.pairwise_map.mp (nodup_byPosition keys)
    rw [List.pairwise_map]
    refine (List.Pairwise.and_mem.mp
      ((List.pairwise_insertionSort Sibling.before siblings).and keysSorted)).imp ?_
    rintro a b ⟨left, right, ordered, different⟩
    rcases ordered with less | ⟨same, _⟩
    · exact less
    · exact absurd (distinct a (mem_byPosition.mp left) b (mem_byPosition.mp right) same) different

end Sorting
end Kurul
