import Kurul.Board.ListRuns
import Kurul.Store.Tables

/-! Inserting by position is inserting into the list: where a create or move runs alone, its
parent's rows, sorted by position and then by id, are the old ones with the row put in at the
slot that was resolved. Positions may be equal beforehand. -/
namespace Kurul

open Store Prog Sequence

section Lists

variable {α : Type} {R : α → α → Prop} {L : List α} {x : α} {k : Nat}

theorem pairwise_insertIdx (ordered : L.Pairwise R) (fits : k ≤ L.length)
    (below : ∀ i, ∀ inside : i < L.length, i < k → R L[i] x)
    (above : ∀ i, ∀ inside : i < L.length, k ≤ i → R x L[i]) : (L.insertIdx k x).Pairwise R := by
  induction L generalizing k with
  | nil =>
      obtain rfl : k = 0 := Nat.le_zero.mp fits
      exact List.pairwise_singleton _ _
  | cons first rest ih =>
      obtain ⟨least, ordered'⟩ := List.pairwise_cons.mp ordered
      cases k with
      | zero =>
          refine List.pairwise_cons.mpr ⟨?_, ordered⟩
          intro a member
          obtain ⟨i, inside, rfl⟩ := List.getElem_of_mem member
          exact above i inside (Nat.zero_le i)
      | succ k =>
          rw [List.insertIdx_succ_cons]
          refine List.pairwise_cons.mpr ⟨?_, ih ordered' (Nat.le_of_succ_le_succ fits) ?_ ?_⟩
          · intro a member
            rcases List.eq_or_mem_of_mem_insertIdx member with rfl | old
            · exact below 0 (Nat.succ_pos _) (Nat.succ_pos _)
            · exact least a old
          · intro i inside before
            exact below (i + 1) (Nat.succ_lt_succ inside) (Nat.succ_lt_succ before)
          · intro i inside after
            exact above (i + 1) (Nat.succ_lt_succ inside) (Nat.succ_le_succ after)

theorem insertIdx_append (front rest : List α) (n : Nat) :
    (front ++ rest).insertIdx (front.length + n) x = front ++ rest.insertIdx n x := by
  induction front with
  | nil => simp
  | cons first front ih =>
      rw [List.cons_append, List.length_cons, Nat.add_right_comm, List.insertIdx_succ_cons, ih, List.cons_append]

end Lists

section Splices

variable {L : List Sibling} {k : Nat} {x : Id} {position : ℚ} {moved : Nat → ℚ}

theorem sibling_ext {a b : Sibling} (id : a.id = b.id) (position : a.position = b.position) : a = b := by
  cases a
  cases b
  exact congrArg₂ Sibling.mk id position

/-- The siblings where they are moved to, with the row put in at the slot. -/
def spliced (L : List Sibling) (k : Nat) (x : Id) (position : ℚ) (moved : Nat → ℚ) : List Sibling :=
  (L.mapIdx fun i sibling => ⟨sibling.id, moved i⟩).insertIdx k ⟨x, position⟩

theorem map_id_spliced : (spliced L k x position moved).map Sibling.id = (L.map Sibling.id).insertIdx k x := by
  have ids : (L.mapIdx fun i sibling => (⟨sibling.id, moved i⟩ : Sibling)).map Sibling.id = L.map Sibling.id :=
    List.ext_getElem (by simp) fun i _ _ => by simp
  rw [spliced, List.map_insertIdx, ids]

/-- Between two neighbours that are apart there is room for a midpoint. -/
theorem spliced_midpoint (sorted : L.Pairwise Sibling.before) (fits : k ≤ L.length) (x : Id)
    (roomy : needsRebalance ((sliceSlot L k).prev.map Sibling.position)
      ((sliceSlot L k).next.map Sibling.position) = false) :
    (spliced L k x (midpoint ((sliceSlot L k).prev.map Sibling.position)
      ((sliceSlot L k).next.map Sibling.position)) (Positioning.still L)).Pairwise Sibling.before := by
  have le : ∀ i j, ∀ first : i < L.length, ∀ second : j < L.length, i ≤ j → L[i].position ≤ L[j].position := by
    intro i j first second before
    rcases Nat.eq_or_lt_of_le before with rfl | less
    · exact le_rfl
    · rcases List.pairwise_iff_getElem.mp sorted i j first second less with lower | ⟨same, _⟩
      · exact lower.le
      · exact same.le
  have still : L.mapIdx (fun i sibling => (⟨sibling.id, Positioning.still L i⟩ : Sibling)) = L :=
    List.ext_getElem (by simp) fun i _ inside => by simp [Positioning.still, inside]
  rw [spliced, still]
  generalize placed : midpoint ((sliceSlot L k).prev.map Sibling.position)
    ((sliceSlot L k).next.map Sibling.position) = position
  have lower : ∀ inside : k - 1 < L.length, k ≠ 0 → L[k - 1].position < position := by
    intro inside positive
    have prev : (sliceSlot L k).prev = some L[k - 1] := by simp [sliceSlot, inside, positive]
    by_cases more : k < L.length
    · have next : (sliceSlot L k).next = some L[k] := by simp [sliceSlot, more]
      simp only [prev, next, Option.map_some, needsRebalance, midpoint, decide_eq_false_iff_not, not_lt] at roomy placed
      unfold MIN_GAP at roomy
      linarith
    · have next : (sliceSlot L k).next = none := by simp [sliceSlot, Nat.le_of_not_lt more]
      simp only [prev, next, Option.map_some, Option.map_none, midpoint, POSITION_GAP] at placed
      linarith
  have upper : ∀ inside : k < L.length, position < L[k].position := by
    intro inside
    have next : (sliceSlot L k).next = some L[k] := by simp [sliceSlot, inside]
    by_cases zero : k = 0
    · have prev : (sliceSlot L k).prev = none := by simp [sliceSlot, zero]
      simp only [prev, next, Option.map_some, Option.map_none, midpoint, POSITION_GAP] at placed
      linarith
    · have before : k - 1 < L.length := by omega
      have prev : (sliceSlot L k).prev = some L[k - 1] := by simp [sliceSlot, before, zero]
      simp only [prev, next, Option.map_some, needsRebalance, midpoint, decide_eq_false_iff_not, not_lt] at roomy placed
      unfold MIN_GAP at roomy
      linarith
  refine pairwise_insertIdx sorted fits ?_ ?_
  · intro i inside before
    have last : k - 1 < L.length := by omega
    exact Or.inl ((le i (k - 1) inside last (by omega)).trans_lt (lower last (by omega)))
  · intro i inside after
    have first : k < L.length := by omega
    exact Or.inl ((upper first).trans_le (le k i first inside after))

/-- Spread positions rise along the list. -/
theorem spliced_spread (spread : Spread L.length k position moved) (fits : k ≤ L.length) (x : Id) :
    (spliced L k x position moved).Pairwise Sibling.before := by
  refine pairwise_insertIdx ?_ (by simpa using fits) ?_ ?_
  · rw [List.pairwise_iff_getElem]
    intro i j first second before
    rw [List.getElem_mapIdx, List.getElem_mapIdx]
    exact Or.inl (spread.mono before (by simpa using second))
  · intro i inside before
    rw [List.getElem_mapIdx]
    exact Or.inl (spread.below before (by simpa using inside))
  · intro i inside after
    rw [List.getElem_mapIdx]
    exact Or.inl (spread.above after (by simpa using inside))

end Splices

namespace Positioning

variable [Entity Row α] {P : Positioning α} {g : Id} {rows : List Row} {L : List Sibling} {x : Id}
  {position : ℚ} {moved : Nat → ℚ} {W : List (Write Row Key)} {k : Nat}

theorem sorted_siblings (g : Id) (rows : List Row) : (P.siblings g rows).Pairwise Sibling.before :=
  List.pairwise_insertionSort _ _

/-- The siblings after a placement around all of them. -/
theorem Arranged.siblings (arranged : P.Arranged L g (some x) position moved W rows) (unique : UniqueKeys rows)
    (keys : (L.map Sibling.id).Nodup) (absent : ∀ sibling ∈ L, sibling.id ≠ x) (fits : k ≤ L.length)
    (there : ∀ sibling ∈ L, P.order g rows sibling.id sibling.position)
    (mine : P.entryKey x ∈ touched W) (sorted : (spliced L k x position moved).Pairwise Sibling.before) :
    P.siblings g (applyAll rows W) = spliced L k x position moved := by
  have placed := arranged.puts.placed arranged.keeps keys mine
  obtain ⟨own, standing⟩ := arranged.puts.stored rows mine
  have self : P.order g (applyAll rows W) x position := placed.self standing ▸ standing
  have functional := P.lanes.lane_functional (g := g) (unique.applyAll W)
  have nodup : ((spliced L k x position moved).map Sibling.id).Nodup := by
    rw [map_id_spliced]
    refine (List.perm_insertIdx x (L.map Sibling.id) (by simpa using fits)).nodup_iff.mpr (List.nodup_cons.mpr ⟨?_, keys⟩)
    intro member
    obtain ⟨sibling, listed, same⟩ := List.mem_map.mp member
    exact absent sibling listed same
  have perm : (P.siblings g (applyAll rows W)).Perm (spliced L k x position moved) := by
    refine (List.perm_ext_iff_of_nodup (List.Nodup.of_map _ (nodup_siblings (unique.applyAll W)))
      (List.Nodup.of_map _ nodup)).mpr ?_
    intro sibling
    rw [mem_siblings, spliced, List.mem_insertIdx (by simpa using fits), List.mem_mapIdx]
    constructor
    · intro stands
      by_cases same : sibling.id = x
      · left
        have here := placed.self (same ▸ stands)
        exact sibling_ext same here
      · right
        obtain ⟨i, inside, id, _, stood⟩ := placed.others same stands
        exact ⟨i, inside, sibling_ext id stood.symm⟩
    · rintro (rfl | ⟨i, inside, rfl⟩)
      · exact self
      · have other := absent L[i] (List.getElem_mem inside)
        obtain ⟨q, stands⟩ := placed.stays other (there L[i] (List.getElem_mem inside))
        obtain ⟨j, inside', id, _, stood⟩ := placed.others other stands
        obtain rfl := index_eq keys inside' inside id
        exact stood ▸ stands
  refine List.Perm.eq_of_pairwise ?_ (sorted_siblings g _) sorted perm
  intro a b _ _ first second
  rcases first with lower | ⟨same, le⟩
  · rcases second with lower' | ⟨same', _⟩
    · exact absurd lower (lt_asymm lower')
    · exact absurd same'.symm lower.ne
  · rcases second with lower' | ⟨_, le'⟩
    · exact absurd same.symm lower'.ne
    · exact sibling_ext (le_antisymm le le') same

end Positioning

section Calls

variable {rows : List Row}

/-- The rows of a parent, in order. -/
def Positioning.ids [Entity Row α] (P : Positioning α) (g : Id) (rows : List Row) : List Id :=
  (P.siblings g rows).map Sibling.id

/-- The old list without the row, with the row put in at the slot between the neighbours. -/
def Positioning.Moves [Entity Row α] (P : Positioning α) (g x : Id) (prevId nextId : Option Id)
    (before after : List Row) : Prop :=
  ∃ slot, resolveMoveNeighbors ((P.siblings g before).filter fun item => item.id ≠ x) prevId nextId = .ok slot ∧
    P.ids g after = ((P.ids g before).filter (· ≠ x)).insertIdx slot.insertionIndex x

/-- The old list with a new row directly after another, or at the end: in the slot of a move
to there. -/
structure Positioning.Creates [Entity Row α] (P : Positioning α) (g x : Id) (afterId : Option Id)
    (before after : List Row) : Prop where
  new : x ∉ P.ids g before
  slot : ∃ slot, resolveMoveNeighbors (P.siblings g before) (afterId.filter (· ≠ "")) none = .ok slot ∧
    P.ids g after = (P.ids g before).insertIdx slot.insertionIndex x
  behind : ∀ a, afterId = some a → a ≠ "" → ∃ front rest, P.ids g before = front ++ a :: rest ∧
    P.ids g after = front ++ a :: x :: rest
  last : truthy afterId = false → P.ids g after = P.ids g before ++ [x]

theorem ids_filter [Entity Row α] {P : Positioning α} (g x : Id) (rows : List Row) :
    ((P.siblings g rows).filter fun item => item.id ≠ x).map Sibling.id = (P.ids g rows).filter (· ≠ x) := by
  rw [Positioning.ids, List.filter_map]
  rfl

/-- A move behind a row resolves the slot of a create behind it. -/
theorem resolveMove_of_create {siblings : List Sibling} {afterId : Option Id} {message : String} {slot : InsertionSlot}
    (resolved : resolveCreateNeighbors siblings afterId message = .ok slot) :
    resolveMoveNeighbors siblings (afterId.filter (· ≠ "")) none = .ok slot := by
  cases afterId with
  | none =>
      cases siblings with
      | nil => simpa [resolveCreateNeighbors, resolveMoveNeighbors, truthy, adjacent] using resolved
      | cons _ _ => simpa [resolveCreateNeighbors, resolveMoveNeighbors, truthy, adjacent] using resolved
  | some a =>
      by_cases empty : a = ""
      · subst empty
        have dropped : (some "").filter (fun x => decide (x ≠ "")) = none := by simp [Option.filter]
        rw [dropped]
        cases siblings with
        | nil => simpa [resolveCreateNeighbors, resolveMoveNeighbors, truthy, adjacent] using resolved
        | cons _ _ => simpa [resolveCreateNeighbors, resolveMoveNeighbors, truthy, adjacent] using resolved
      · cases found : siblings.findIdx? (fun sibling => decide (sibling.id = a)) with
        | none => simp [resolveCreateNeighbors, truthy, empty, found] at resolved
        | some i =>
            have kept : (some a).filter (fun x => decide (x ≠ "")) = some a := by simp [Option.filter, empty]
            rw [kept]
            simpa [resolveCreateNeighbors, resolveMoveNeighbors, truthy, adjacent, empty, found] using resolved

/-- The slot behind a row is at the next index, the one without a row to be behind at the end. -/
theorem resolveCreate_index {siblings : List Sibling} {afterId : Option Id} {message : String} {slot : InsertionSlot}
    (resolved : resolveCreateNeighbors siblings afterId message = .ok slot) :
    (∀ a, afterId = some a → a ≠ "" → ∃ i, ∃ inside : i < siblings.length, siblings[i].id = a ∧
      slot.insertionIndex = i + 1) ∧
    (truthy afterId = false → slot.insertionIndex = siblings.length) := by
  constructor
  · rintro a rfl named
    cases found : siblings.findIdx? (fun sibling => decide (sibling.id = a)) with
    | none => simp [resolveCreateNeighbors, truthy, named, found] at resolved
    | some i =>
        obtain ⟨inside, same, _⟩ := List.findIdx?_eq_some_iff_getElem.mp found
        have slice : sliceSlot siblings (i + 1) = slot := by
          simpa [resolveCreateNeighbors, truthy, named, found] using resolved
        exact ⟨i, inside, by simpa using same, by rw [← slice]; rfl⟩
  · intro absent
    cases siblings with
    | nil =>
        have slice : sliceSlot [] 0 = slot := by simpa [resolveCreateNeighbors, absent] using resolved
        rw [← slice]
        rfl
    | cons first rest =>
        have slice : sliceSlot (first :: rest) (rest.length + 1) = slot := by
          simpa [resolveCreateNeighbors, absent] using resolved
        rw [← slice]
        rfl

/-- A row put in at the slot of a create. -/
theorem Positioning.creates [Entity Row α] {P : Positioning α} {g x : Id} {afterId : Option Id} {message : String}
    {before after : List Row} {slot : InsertionSlot} (new : x ∉ P.ids g before)
    (resolved : resolveCreateNeighbors (P.siblings g before) afterId message = .ok slot)
    (inserted : P.ids g after = (P.ids g before).insertIdx slot.insertionIndex x) :
    P.Creates g x afterId before after := by
  obtain ⟨behind, last⟩ := resolveCreate_index resolved
  refine ⟨new, ⟨slot, resolveMove_of_create resolved, inserted⟩, ?_, ?_⟩
  · intro a after_ named
    obtain ⟨i, inside, same, index⟩ := behind a after_ named
    have within : i < (P.ids g before).length := by simpa [Positioning.ids] using inside
    have here : (P.ids g before)[i] = a := by simpa [Positioning.ids] using same
    have split_ := List.take_append_drop i (P.ids g before)
    rw [List.drop_eq_getElem_cons within, here] at split_
    refine ⟨(P.ids g before).take i, (P.ids g before).drop (i + 1), split_.symm, ?_⟩
    have length : ((P.ids g before).take i).length = i := by
      rw [List.length_take]
      omega
    have moved := insertIdx_append (x := x) ((P.ids g before).take i) (a :: (P.ids g before).drop (i + 1)) 1
    rw [split_, length, List.insertIdx_succ_cons, List.insertIdx_zero] at moved
    rw [inserted, index, moved]
  · intro absent
    have length : slot.insertionIndex = (P.ids g before).length := by simpa [Positioning.ids] using last absent
    rw [inserted, length, List.insertIdx_length_self]

section Placements

variable [Entity Row α] {P : Positioning α} {g x : Id} {L : List Sibling} {k : Nat} {position : ℚ}
  {moved : Nat → ℚ} {W : List (Write Row Key)}

theorem Positioning.Arranged.moves {prevId nextId : Option Id} (unique : UniqueKeys rows)
    (resolved : resolveMoveNeighbors ((P.siblings g rows).filter fun item => item.id ≠ x) prevId nextId =
      .ok (sliceSlot ((P.siblings g rows).filter fun item => item.id ≠ x) k))
    (fits : k ≤ ((P.siblings g rows).filter fun item => item.id ≠ x).length)
    (arranged : P.Arranged ((P.siblings g rows).filter fun item => item.id ≠ x) g (some x) position moved W rows)
    (mine : P.entryKey x ∈ touched W)
    (sorted : (spliced ((P.siblings g rows).filter fun item => item.id ≠ x) k x position moved).Pairwise
      Sibling.before) : P.Moves g x prevId nextId rows (applyAll rows W) := by
  refine ⟨_, resolved, ?_⟩
  have sub : ((P.siblings g rows).filter fun item => item.id ≠ x).Sublist (P.siblings g rows) :=
    List.filter_sublist
  have placed := arranged.siblings unique ((sub.map Sibling.id).nodup (Positioning.nodup_siblings unique))
    (fun sibling member => by simpa using (List.mem_filter.mp member).2) fits
    (fun sibling member => Positioning.mem_siblings.mp (List.mem_of_mem_filter member)) mine sorted
  rw [Positioning.ids, placed, map_id_spliced, ids_filter]
  rfl

theorem Positioning.Arranged.creates {a : α} {afterId : Option Id} {message : String} (unique : UniqueKeys rows)
    (resolved : resolveCreateNeighbors (P.siblings g rows) afterId message = .ok (sliceSlot (P.siblings g rows) k))
    (fits : k ≤ (P.siblings g rows).length)
    (arranged : P.Arranged (P.siblings g rows) g none position moved W rows) (here : P.group a = g)
    (stands : P.position a = position) (new : ∀ row ∈ applyAll rows W, key row ≠ key (toRow a : Row))
    (sorted : (spliced (P.siblings g rows) k (P.id a) position moved).Pairwise Sibling.before) :
    P.Creates g (P.id a) afterId rows (applyAll rows (W ++ [.put (toRow a)])) := by
  obtain ⟨placed, mine⟩ := arranged.insert here stands new
  obtain ⟨_, _, fresh⟩ := Positioning.keeps_insert arranged.puts arranged.keeps here stands new
  have absent : ∀ sibling ∈ P.siblings g rows, sibling.id ≠ P.id a := by
    intro sibling member same
    obtain ⟨row, there, entered⟩ := Positioning.mem_siblings.mp member
    apply fresh row there
    rw [P.lanes.key_entry entered, P.key_toRow, same]
    rfl
  refine Positioning.creates ?_ resolved ?_
  · intro member
    obtain ⟨sibling, listed, same⟩ := List.mem_map.mp member
    exact absent sibling listed same
  · have stored := placed.siblings unique (Positioning.nodup_siblings unique) absent fits
      (fun sibling member => Positioning.mem_siblings.mp member) mine sorted
    rw [Positioning.ids, stored, map_id_spliced]
    rfl

end Placements

/-- An audit row is no sibling. -/
theorem Positioning.ids_audit [Entity Row α] {P : Positioning α} {g : Id} {W : List (Write Row Key)} {activity : Activity}
    (elsewhere : (Write.put (.activity activity) : Write Row Key).Elsewhere α) :
    P.ids g (applyAll rows (W ++ [.put (.activity activity)])) = P.ids g (applyAll rows W) := by
  have same : (table (applyAll rows (W ++ [.put (.activity activity)])) : List α) = table (applyAll rows W) := by
    rw [applyAll_append]
    exact table_applyAll_elsewhere (by simpa using elsewhere) _
  simp only [Positioning.ids, Positioning.siblings, same]

theorem Positioning.Moves.congr [Entity Row α] {P : Positioning α} {g x : Id} {prevId nextId : Option Id}
    {before after after' : List Row} (moves : P.Moves g x prevId nextId before after)
    (same : P.ids g after' = P.ids g after) : P.Moves g x prevId nextId before after' := by
  obtain ⟨slot, resolved, inserted⟩ := moves
  exact ⟨slot, resolved, same.trans inserted⟩

theorem Positioning.Creates.congr [Entity Row α] {P : Positioning α} {g x : Id} {afterId : Option Id}
    {before after after' : List Row} (creates : P.Creates g x afterId before after)
    (same : P.ids g after' = P.ids g after) : P.Creates g x afterId before after' := by
  obtain ⟨new, slot, behind, last⟩ := creates
  rw [← same] at slot last
  simp only [← same] at behind
  exact ⟨new, slot, behind, last⟩

/-- Positions at which any row can be put into the slot. -/
def Splices (L : List Sibling) (k : Nat) (position : ℚ) (moved : Nat → ℚ) : Prop :=
  ∀ x, (spliced L k x position moved).Pairwise Sibling.before

theorem splices_midpoint {L : List Sibling} {k : Nat} (sorted : L.Pairwise Sibling.before) (fits : k ≤ L.length)
    (roomy : needsRebalance ((sliceSlot L k).prev.map Sibling.position)
      ((sliceSlot L k).next.map Sibling.position) = false) :
    Splices L k (midpoint ((sliceSlot L k).prev.map Sibling.position)
      ((sliceSlot L k).next.map Sibling.position)) (Positioning.still L) :=
  fun x => spliced_midpoint sorted fits x roomy

theorem splices_rebalance {L : List Sibling} {k : Nat} (fits : k ≤ L.length) :
    Splices L k ((rebalancePositions (L.length + 1)).getD k 0) (Positioning.apart k) :=
  fun x => spliced_spread (rebalance_spread _ fits) fits x

/-- Nothing is asked of a call on the way. -/
def Unwatched : Occurrence Row Key Event → Prop := fun _ => True

theorem inserts_createTask (unique : UniqueKeys rows) {workspaceId boardId userId : Id} {dto : CreateTaskDto} :
    (TaskService.create workspaceId boardId userId dto).Holds Unwatched (fun result after W => W = [] ∧
      taskPositions.Creates dto.columnId result.id dto.afterTaskId rows after) (fun _ _ _ => True) rows [] := by
  unfold TaskService.create TaskService.findColumnOnBoard
  apply Holds.bind
  apply holds_assertBoard
  intro _
  apply Holds.bind
  apply Holds.found
  intro column hit
  have named : column.id = dto.columnId := by
    have chosen := List.find?_some hit
    simp only [Bool.and_eq_true, decide_eq_true_eq] at chosen
    exact chosen.1.1
  apply Holds.bind
  apply Holds.ofExcept
  intro attributes _
  apply Holds.bind
  apply Holds.transaction
  apply Holds.bind
  apply holds_lock
  apply Holds.bind
  apply Holds.read
  apply Holds.bind
  apply Holds.ofExcept
  intro slot resolved
  obtain ⟨k, fits, rfl⟩ := resolveCreateNeighbors_slot resolved
  apply Holds.bind
  apply Positioning.holds_createPosition (Positioning.nodup_siblings unique)
    (Positioning.keeps_start fun stands _ => Positioning.mem_siblings.mpr stands)
    (fun roomy => splices_midpoint (Positioning.sorted_siblings _ _) fits roomy) (splices_rebalance fits)
  intro position moved W arranged sorted
  refine Holds.bind fun given => Holds.bind ?_
  apply Holds.query
  intro o created
  obtain ⟨same, written, new⟩ := Statement.create_ok created
  have creates := arranged.creates unique resolved fits rfl rfl new (sorted _)
  rw [← written, named] at creates
  apply Holds.bind
  apply holds_record
  intro activity
  refine ⟨trivial, trivial, rfl, ?_⟩
  rw [show (toTaskDetailDto (emptyTaskRelations o.result)).id = o.result.id from rfl, same]
  exact creates.congr (Positioning.ids_audit fun task key => by cases key)

theorem inserts_moveTask (unique : UniqueKeys rows) {workspaceId taskId userId : Id} {dto : MoveTaskDto} :
    (TaskService.move workspaceId taskId userId dto).Holds Unwatched (fun _ after W => W = [] ∧
      taskPositions.Moves dto.columnId taskId dto.beforeTaskId dto.afterTaskId rows after) (fun _ _ _ => True)
      rows [] := by
  unfold TaskService.move
  apply Holds.bind
  apply Holds.transaction
  apply Holds.bind
  apply Holds.found
  intro task hit
  obtain ⟨row, chosen, rfl⟩ := Option.map_eq_some_iff.mp hit
  obtain ⟨own, _⟩ : row.id = taskId ∧ _ := by simpa [scopedTask] using List.find?_some chosen
  apply Holds.bind
  apply Holds.require
  intro _
  apply Holds.bind
  apply Holds.found
  intro column picked
  obtain ⟨named, _⟩ : column.id = dto.columnId ∧ _ := by simpa [scopedColumn] using List.find?_some picked
  apply Holds.bind
  apply Holds.require
  intro _
  apply Holds.bind
  have reads : ∀ {ok : String → List Row → List (Write Row Key) → Prop}, (∀ name, ok name rows []) →
      (TaskService.fromColumnName row.columnId column).Holds Unwatched ok (fun _ _ _ => True) rows [] := by
    intro ok rest
    unfold TaskService.fromColumnName
    split
    · exact rest _
    · apply Holds.bind
      apply Holds.read
      exact rest _
  apply reads
  intro name
  apply Holds.bind
  apply holds_lock
  apply Holds.bind
  apply Holds.read
  apply Holds.bind
  apply Holds.ofExcept
  intro slot resolved
  obtain ⟨k, fits, rfl⟩ := resolveMoveNeighbors_slot resolved
  have sorted := (Positioning.sorted_siblings (P := taskPositions) column.id rows).sublist
    (List.filter_sublist (p := fun item => decide (item.id ≠ taskId)))
  have keys := ((List.filter_sublist (p := fun item => decide (item.id ≠ taskId))).map Sibling.id).nodup
    (Positioning.nodup_siblings (P := taskPositions) (g := column.id) unique)
  apply Holds.bind
  apply Holds.read
  apply Holds.bind
  apply holds_placeTask keys (fun roomy => splices_midpoint sorted fits roomy) (splices_rebalance fits) fits
  · intro sibling member
    change sibling.id ≠ row.id
    simpa [own] using (List.mem_filter.mp member).2
  · apply Positioning.keeps_start
    intro i p stands other
    exact List.mem_filter.mpr ⟨Positioning.mem_siblings.mpr stands, by
      simpa using fun same : i = taskId => other (congrArg some (own.trans same.symm))⟩
  intro result position moved W arranged mine splices
  rw [show (taskDetailInclude (applyAll rows []) row).task.id = taskId from own] at arranged mine
  have moves := arranged.moves unique resolved fits mine (splices taskId)
  rw [named] at moves
  apply Holds.bind
  apply holds_record
  intro activity
  exact ⟨trivial, trivial, rfl, moves.congr (Positioning.ids_audit fun task key => by cases key)⟩

theorem inserts_createColumn (unique : UniqueKeys rows) {workspaceId boardId actorId : Id} {dto : CreateColumnDto} :
    (ColumnService.create workspaceId boardId actorId dto).Holds Unwatched (fun result after W => W = [] ∧
      columnPositions.Creates boardId result.id dto.afterColumnId rows after) (fun _ _ _ => True) rows [] := by
  unfold ColumnService.create
  apply Holds.bind
  apply holds_assertBoard
  intro _
  apply Holds.bind
  apply Holds.transaction
  apply Holds.bind
  apply holds_lock
  apply Holds.bind
  apply Holds.read
  apply Holds.bind
  apply Holds.ofExcept
  intro slot resolved
  obtain ⟨k, fits, rfl⟩ := resolveCreateNeighbors_slot resolved
  apply Holds.bind
  apply Positioning.holds_createPosition (Positioning.nodup_siblings unique)
    (Positioning.keeps_start fun stands _ => Positioning.mem_siblings.mpr stands)
    (fun roomy => splices_midpoint (Positioning.sorted_siblings _ _) fits roomy) (splices_rebalance fits)
  intro position moved W arranged splices
  refine Holds.bind fun given => ?_
  apply Holds.query
  intro o created
  obtain ⟨written, new⟩ := created_column created
  have creates := arranged.creates unique resolved fits rfl rfl new (splices _)
  rw [← written] at creates
  have same : o.result.id = given.id := by
    obtain ⟨o', stored, shown, _⟩ := including_ok created
    rw [shown, (Statement.create_ok stored).1]
    rfl
  refine ⟨trivial, ?_⟩
  apply Holds.bind
  apply Holds.transaction
  apply holds_record
  intro activity
  refine ⟨trivial, trivial, rfl, ?_⟩
  have audited : columnPositions.ids boardId
    (applyAll (applyAll rows (W ++ o.writes)) ([] ++ [.put (.activity activity)])) =
      columnPositions.ids boardId (applyAll (applyAll rows (W ++ o.writes)) []) :=
    Positioning.ids_audit fun column key => by cases key
  rw [same]
  exact creates.congr audited

theorem inserts_moveColumn (unique : UniqueKeys rows) {workspaceId columnId actorId : Id} {dto : MoveColumnDto} :
    (ColumnService.move workspaceId columnId actorId dto).Holds Unwatched (fun _ after W => W = [] ∧
      ∃ column ∈ (table rows : List Column), column.id = columnId ∧
        columnPositions.Moves column.boardId columnId dto.beforeColumnId dto.afterColumnId rows after)
      (fun _ _ _ => True) rows [] := by
  unfold ColumnService.move
  apply Holds.bind
  apply Holds.transaction
  apply Holds.bind
  apply Holds.found
  intro column hit
  obtain ⟨own, _⟩ : column.id = columnId ∧ _ := by simpa [scopedColumn] using List.find?_some hit
  apply Holds.bind
  apply Holds.require
  intro _
  apply Holds.bind
  apply holds_lock
  apply Holds.bind
  apply Holds.read
  apply Holds.bind
  apply Holds.ofExcept
  intro slot resolved
  obtain ⟨k, fits, rfl⟩ := resolveMoveNeighbors_slot resolved
  have sorted := (Positioning.sorted_siblings (P := columnPositions) column.boardId rows).sublist
    (List.filter_sublist (p := fun item => decide (item.id ≠ columnId)))
  have keys := ((List.filter_sublist (p := fun item => decide (item.id ≠ columnId))).map Sibling.id).nodup
    (Positioning.nodup_siblings (P := columnPositions) (g := column.boardId) unique)
  apply holds_placeColumn unique (List.mem_of_find?_eq_some hit) keys
    (fun roomy => splices_midpoint sorted fits roomy) (splices_rebalance fits) fits
  · intro sibling member
    simpa [own] using (List.mem_filter.mp member).2
  · apply Positioning.keeps_start
    intro i p stands other
    exact List.mem_filter.mpr ⟨Positioning.mem_siblings.mpr stands, by
      simpa using fun same : i = columnId => other (congrArg some (own.trans same.symm))⟩
  intro result position moved W arranged mine splices
  rw [own] at arranged mine
  exact ⟨trivial, trivial, rfl, column, List.mem_of_find?_eq_some hit, own,
    arranged.moves unique resolved fits mine (splices columnId)⟩

end Calls

/-- The value of a run that did not throw satisfies what holds of the program. -/
theorem returned {α : Type} {p : Service α} {ok : α → List Row → List (Write Row Key) → Prop}
    {s : Store.Session Row Key Event} (holds : p.Holds Unwatched ok (fun _ _ _ => True) s.rows [])
    (settled : s.pending = []) (oracle : Nat → Choice Input Error) {result : α} (ran : (p.run oracle s).1 = .ok result) :
    ok result (p.run oracle s).2.rows (p.run oracle s).2.pending := by
  obtain ⟨ends, _⟩ := (settled ▸ holds : p.Holds Unwatched ok _ s.rows s.pending).run oracle
  rw [ran] at ends
  exact ends

/-- Where a create or move of a task or a column runs alone, the siblings in order are the old
ones with the row put in at the slot that was resolved, ties or not. -/
theorem insertions_are_list_insertions (oracle : Nat → Choice Input Error) (s : Store.Session Row Key Event)
    (unique : UniqueKeys s.rows) (settled : s.pending = []) :
    (∀ workspaceId taskId userId dto result,
      ((TaskService.move workspaceId taskId userId dto).run oracle s).1 = .ok result →
        taskPositions.Moves dto.columnId taskId dto.beforeTaskId dto.afterTaskId s.rows
          ((TaskService.move workspaceId taskId userId dto).run oracle s).2.rows) ∧
    (∀ workspaceId columnId actorId dto result,
      ((ColumnService.move workspaceId columnId actorId dto).run oracle s).1 = .ok result →
        ∃ column ∈ (table s.rows : List Column), column.id = columnId ∧
          columnPositions.Moves column.boardId columnId dto.beforeColumnId dto.afterColumnId s.rows
            ((ColumnService.move workspaceId columnId actorId dto).run oracle s).2.rows) ∧
    (∀ workspaceId boardId userId dto result,
      ((TaskService.create workspaceId boardId userId dto).run oracle s).1 = .ok result →
        taskPositions.Creates dto.columnId result.id dto.afterTaskId s.rows
          ((TaskService.create workspaceId boardId userId dto).run oracle s).2.rows) ∧
    ∀ workspaceId boardId actorId dto result,
      ((ColumnService.create workspaceId boardId actorId dto).run oracle s).1 = .ok result →
        columnPositions.Creates boardId result.id dto.afterColumnId s.rows
          ((ColumnService.create workspaceId boardId actorId dto).run oracle s).2.rows := by
  refine ⟨?_, ?_, ?_, ?_⟩
  · intro workspaceId taskId userId dto result ran
    exact (returned (inserts_moveTask unique) settled oracle ran).2
  · intro workspaceId columnId actorId dto result ran
    exact (returned (inserts_moveColumn unique) settled oracle ran).2
  · intro workspaceId boardId userId dto result ran
    exact (returned (inserts_createTask unique) settled oracle ran).2
  · intro workspaceId boardId actorId dto result ran
    exact (returned (inserts_createColumn unique) settled oracle ran).2

/-- A column of three tasks, two of them at one position. -/
def tiedColumn : List Row := sampleWorkspace ++ [
  .column { id := "c", boardId := "b", name := "To Do", position := 1000 },
  .task { id := "s", boardId := "b", columnId := "c", title := "First", position := 1000, createdById := "ann" },
  .task { id := "t", boardId := "b", columnId := "c", title := "Second", position := 1000, createdById := "ann" },
  .task { id := "u", boardId := "b", columnId := "c", title := "Third", position := 2000, createdById := "ann" }]

/-- The third one moves between the two. -/
def intoTie : Service TaskDto :=
  TaskService.move "w" "u" "ann" { columnId := "c", beforeTaskId := some "s", afterTaskId := some "t" }

theorem insertions_are_list_insertions_tied :
    taskPositions.Moves "c" "u" (some "s") (some "t") tiedColumn (intoTie.run smooth { rows := tiedColumn }).2.rows := by
  have unique : UniqueKeys tiedColumn := by decide +kernel
  have ran : ((intoTie.run smooth { rows := tiedColumn }).1.toOption).isSome := by decide +kernel
  obtain ⟨moves, _⟩ := insertions_are_list_insertions smooth { rows := tiedColumn } unique rfl
  cases answer : (intoTie.run smooth { rows := tiedColumn }).1 with
  | ok result =>
      exact moves "w" "u" "ann" { columnId := "c", beforeTaskId := some "s", afterTaskId := some "t" } result answer
  | error error =>
      rw [answer] at ran
      cases ran

end Kurul
