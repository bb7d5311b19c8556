import Kurul.Cascade
import Kurul.Sequence.Lanes
import Kurul.Position

/-! Tasks in their columns and columns on their boards as ordered lanes, and the
rules for the steps that creates and moves share: the lock, the sibling read, the
rebalance and the audit row. -/
namespace Kurul

open Store Prog Sequence

namespace Positioning

variable [Entity Row α] (P : Positioning α)

def lanes : Lanes Row Key Id Id ℚ where
  entry row := (ofRow row : Option α).map fun a => (P.group a, P.id a, P.position a)
  entryKey := P.entryKey
  lock := P.lock
  key_entry := by
    intro row g i p entered
    obtain ⟨a, found, same⟩ := Option.map_eq_some_iff.mp entered
    cases same
    rw [← (Entity.ofRow_eq row a).mp found, P.key_toRow]
  entry_of_key := by
    intro row i same
    obtain ⟨a, rfl⟩ := P.exists_toRow same
    rw [P.key_toRow] at same
    obtain rfl := P.entryKey_injective same
    exact ⟨P.group a, P.position a, by rw [ofRow_toRow]; rfl⟩
  lock_ne := P.lock_ne

/-- The order of one parent's rows as it is stored. -/
def order (g : Id) (rows : List Row) : Lane Id ℚ := P.lanes.lane g rows

variable {P} {g : Id} {rows : List Row}

theorem entry_toRow (a : α) :
    P.lanes.entry (toRow a) = some (P.group a, P.id a, P.position a) := by
  change (ofRow (toRow a : Row) : Option α).map _ = _
  rw [ofRow_toRow]
  rfl

theorem order_iff {i : Id} {p : ℚ} :
    P.order g rows i p ↔ ∃ a ∈ (table rows : List α), P.group a = g ∧ P.id a = i ∧ P.position a = p := by
  constructor
  · rintro ⟨row, member, entered⟩
    obtain ⟨a, found, same⟩ := Option.map_eq_some_iff.mp entered
    cases same
    exact ⟨a, mem_table.mpr ((Entity.ofRow_eq row a).mp found ▸ member), rfl, rfl, rfl⟩
  · rintro ⟨a, member, rfl, rfl, rfl⟩
    exact ⟨toRow a, mem_table.mp member, entry_toRow a⟩

/-- Distinctness as it is read off the rows. -/
theorem distinct_iff : (P.order g rows).Distinct ↔
    ∀ a ∈ (table rows : List α), ∀ b ∈ (table rows : List α), P.group a = g → P.group b = g →
      P.position a = P.position b → P.id a = P.id b := by
  constructor
  · intro distinct a memberA b memberB hereA hereB same
    exact distinct (order_iff.mpr ⟨a, memberA, hereA, rfl, same⟩)
      (order_iff.mpr ⟨b, memberB, hereB, rfl, rfl⟩)
  · intro apart i j p left right
    obtain ⟨a, memberA, hereA, rfl, rfl⟩ := order_iff.mp left
    obtain ⟨b, memberB, hereB, rfl, same⟩ := order_iff.mp right
    exact apart a memberA b memberB hereA hereB same.symm

theorem mem_siblings {sibling : Sibling} :
    sibling ∈ P.siblings g rows ↔ P.order g rows sibling.id sibling.position := by
  simp only [siblings, mem_byPosition, List.mem_map, List.mem_filter, decide_eq_true_eq, order_iff]
  constructor
  · rintro ⟨a, ⟨member, here⟩, rfl⟩; exact ⟨a, member, here, rfl, rfl⟩
  · rintro ⟨a, member, here, same, stands⟩; exact ⟨a, ⟨member, here⟩, by rw [same, stands]⟩

theorem nodup_rows (unique : UniqueKeys rows) :
    ((((table rows).filter (P.group · = g)).map fun a =>
      ({ id := P.id a, position := P.position a } : Sibling)).map Sibling.id).Nodup := by
  rw [List.map_map]
  refine List.pairwise_map.mpr (((table_pairwise unique).filter _).imp ?_)
  intro a b different same
  rw [P.key_toRow, P.key_toRow] at different
  exact different (congrArg P.entryKey same)

theorem nodup_siblings (unique : UniqueKeys rows) : ((P.siblings g rows).map Sibling.id).Nodup :=
  nodup_byPosition (nodup_rows unique)

theorem ordered_siblings (unique : UniqueKeys rows) (distinct : (P.order g rows).Distinct) :
    Ordered Sibling.id Sibling.position (P.siblings g rows) :=
  ordered_byPosition (nodup_rows unique) fun _ left _ right same =>
    distinct (mem_siblings.mp (mem_byPosition.mpr left))
      (same ▸ mem_siblings.mp (mem_byPosition.mpr right))

/-- A deletion that starts below the locked rows brings nothing into a lane. -/
theorem silent_deletion {d : Nat} (shallow : ∀ g, (P.lock g).depth < d)
    (history : ∀ activity, P.lanes.Silent (.put (.activity activity)))
    (news : ∀ notification, P.lanes.Silent (.put (.notification notification)))
    {keys : List Key} (start : ∀ k ∈ keys, d ≤ k.depth) {write : Write Row Key}
    (member : write ∈ deletion rows (cascade rows keys)) : P.lanes.Silent write := by
  obtain ⟨k, rfl, deep⟩ | ⟨activity, rfl⟩ | ⟨notification, rfl⟩ := deletion_writes start member
  · rintro ⟨g, rfl⟩
    exact absurd (shallow g) (Nat.not_lt.mpr deep)
  · exact history activity
  · exact news notification

/-- Siblings without the row that is being moved. -/
theorem ordered_remaining (own : Id)
    (ordered : Ordered Sibling.id Sibling.position (P.siblings g rows)) :
    Ordered Sibling.id Sibling.position ((P.siblings g rows).filter fun item => item.id ≠ own) where
  increasing := ordered.increasing.sublist (List.filter_sublist.map _)
  keys := ordered.keys.sublist (List.filter_sublist.map _)

theorem nodup_remaining (own : Id) (keys : ((P.siblings g rows).map Sibling.id).Nodup) :
    (((P.siblings g rows).filter fun item => item.id ≠ own).map Sibling.id).Nodup :=
  keys.sublist (List.filter_sublist.map _)

end Positioning

section Rules

variable {Q : Protocol Row Key} {allow : Assertion Row} {promise : Promise Row Key}
  {l : Local Row Key} {A : Assertion Row}

theorem verified_assertBoard {post : Board → Local Row Key → Assertion Row → Prop}
    {workspaceId boardId : Id} (quiet : ∀ l, promise.statement l) (stable : Stable Q l.held A)
    (rest : ∀ board l', l.Grown l' [] → post board l' A) :
    Verified Q allow promise (assertBoard workspaceId boardId) l A post :=
  Verified.found (quiet _) fun rows board _ fact _ =>
    ⟨A, fact, stable, rest board _ (l.grown_read rows)⟩

theorem verified_record {post : Activity → Local Row Key → Assertion Row → Prop}
    {input : ActivityService.RecordActivityInput} (waits : promise.statement l)
    (stable : Stable Q l.held A)
    (rest : ∀ activity l' view, l.Grown l' [.put (.activity activity)] →
      l'.seen = l.seen ++ [view] → post activity l' A) :
    Verified Q allow promise (ActivityService.record input) l A post := by
  intro given
  refine Verified.keep waits stable fun rows _ _ o ran => ?_
  obtain ⟨same, written, _⟩ := Statement.create_ok ran
  exact rest _ _ _ (by rw [same]; exact written ▸ l.grown_ran _ _) rfl

/-- A batch update rewrites rows of its own parent only. -/
theorem verified_batchUpdate [Entity Row α] {P : Positioning α}
    {post : Unit → Local Row Key → Assertion Row → Prop} {groupId : Id} {updates : List Sibling}
    (quiet : ∀ l, promise.statement l) (stable : Stable Q l.held A)
    (rest : ∀ B l', l.Grown l' B →
      (∀ write ∈ B, ∃ a, write = .put (toRow a) ∧ P.group a = groupId) → post () l' A) :
    Verified Q allow promise (P.batchUpdate groupId updates) l A post := by
  unfold Positioning.batchUpdate
  split
  · exact rest [] l (Local.Grown.refl l) (by simp)
  · refine Verified.bind (Verified.keep (quiet _) stable fun rows _ _ o ran => ?_)
    obtain ⟨_, written⟩ := Statement.updateMany_ok ran
    refine rest _ _ (l.grown_ran rows o) fun write member => ?_
    rw [written] at member
    obtain ⟨a, chosen, rfl⟩ := List.mem_map.mp member
    obtain ⟨_, condition⟩ := List.mem_filter.mp chosen
    rw [Bool.and_eq_true, decide_eq_true_eq] at condition
    exact ⟨_, rfl, (P.group_reposition _ _).trans condition.2⟩

theorem verified_positionWrites [Entity Row α] {P : Positioning α}
    {post : ℚ → Local Row Key → Assertion Row → Prop} {groupId : Id} {siblings : List Sibling}
    {slot : InsertionSlot} (quiet : ∀ l, promise.statement l) (stable : Stable Q l.held A)
    (rest : ∀ position B l', l.Grown l' B →
      (∀ write ∈ B, ∃ a, write = .put (toRow a) ∧ P.group a = groupId) → post position l' A) :
    Verified Q allow promise (P.createPosition groupId siblings slot) l A post := by
  unfold Positioning.createPosition
  dsimp only
  split
  · exact Verified.bind (verified_batchUpdate quiet stable fun B l' grown inside =>
      rest _ B l' grown inside)
  · exact rest _ [] l (Local.Grown.refl l) (by simp)

end Rules

namespace Positioning

variable [Entity Row α] {P : Positioning α} {g : Id} {rows view : List Row} {L : List Sibling}
  {own : Option Id} {W : List (Write Row Key)} {k : Nat}

/-- What a transaction knows that read a parent's rows under the parent's lock:
whatever stands there still was read where it stands. -/
def Reads (P : Positioning α) (g : Id) (view rows : List Row) : Prop :=
  ∀ ⦃i p⦄, P.order g rows i p → P.order g view i p

/-- Siblings in their old places. -/
def still (L : List Sibling) (i : Nat) : ℚ := (L[i]?.map Sibling.position).getD 0

/-- Siblings spread around a free slot. -/
def apart (k i : Nat) : ℚ := ((if i < k then i else i + 1 : Nat) + 1 : ℚ) * POSITION_GAP

/-- `Around` and `Places` for siblings. -/
abbrev Keeps (P : Positioning α) (L : List Sibling) (g : Id) (own : Option Id) (moved : Nat → ℚ)
    (W : List (Write Row Key)) (rows : List Row) : Prop :=
  Lanes.Around P.lanes Sibling.id Sibling.position L g own moved W rows

abbrev Puts (P : Positioning α) (L : List Sibling) (g : Id) (own : Option Id) (position : ℚ)
    (moved : Nat → ℚ) (W : List (Write Row Key)) : Prop :=
  Lanes.Places P.lanes Sibling.id L g own position moved W

theorem keeps_start (listed : ∀ {i p}, P.order g rows i p → own ≠ some i → ⟨i, p⟩ ∈ L) :
    P.Keeps L g own (still L) [] rows where
  listed := by
    intro i p stands other
    obtain ⟨j, inside, same⟩ := List.mem_iff_getElem.mp (listed stands other)
    exact ⟨j, inside, by rw [same], by rw [same], fun _ => by simp [still, inside, same]⟩
  written := fun stored => absurd stored List.not_mem_nil

theorem Reads.keeps (reads : P.Reads g view rows) :
    P.Keeps (P.siblings g view) g none (still (P.siblings g view)) [] rows :=
  keeps_start fun stands _ => mem_siblings.mpr (reads stands)

theorem Reads.keeps_remaining (reads : P.Reads g view rows) (x : Id) :
    P.Keeps ((P.siblings g view).filter fun item => item.id ≠ x) g (some x)
      (still ((P.siblings g view).filter fun item => item.id ≠ x)) [] rows :=
  keeps_start fun {i _} stands other => List.mem_filter.mpr
    ⟨mem_siblings.mpr (reads stands), by simpa using fun same => other (congrArg some same.symm)⟩

theorem map_id_rebalanced : (rebalancedSiblings L k).map Sibling.id = L.map Sibling.id := by
  refine List.ext_getElem (by simp [rebalancedSiblings]) fun i _ _ => ?_
  simp [rebalancedSiblings]

/-- Where a rebalance moves a sibling. -/
theorem updatedPosition_rebalanced (keys : (L.map Sibling.id).Nodup) {i : Nat}
    (inside : i < L.length) (position : ℚ) :
    updatedPosition (rebalancedSiblings L k) L[i].id position = apart k i := by
  have within : i < (rebalancedSiblings L k).length := by simpa [rebalancedSiblings] using inside
  have same : ((rebalancedSiblings L k).map Sibling.id).Nodup := by
    rw [map_id_rebalanced]; exact keys
  have found := updatedPosition_getElem same within position
  rwa [rebalancedSiblings_getElem inside within] at found

/-- The batch moves every sibling that is still there, and nothing else. -/
theorem keeps_batch (keys : (L.map Sibling.id).Nodup)
    (keeps : P.Keeps L g own (still L) W rows)
    (mine : ∀ k ∈ touched W, ∃ x, own = some x ∧ k = P.entryKey x)
    (absent : ∀ x, own = some x → ∀ sibling ∈ L, sibling.id ≠ x) {o : Outcome Row Key Nat}
    (ran : (Statement.updateMany
      (fun _ a => (rebalancedSiblings L k).any (·.id = P.id a) && P.group a = g)
      (fun a => P.reposition (updatedPosition (rebalancedSiblings L k) (P.id a) (P.position a)) a)
      (applyAll rows W) : Except Error _) = .ok o) :
    (∀ position, P.Puts L g own position (apart k) o.writes) ∧ P.Keeps L g own (apart k) (W ++ o.writes) rows := by
  obtain ⟨_, written⟩ := Statement.updateMany_ok ran
  have listed : ∀ {i}, (rebalancedSiblings L k).any (·.id = i) = true ↔ ∃ sibling ∈ L, sibling.id = i := by
    intro i
    have same : i ∈ (rebalancedSiblings L k).map Sibling.id ↔ i ∈ L.map Sibling.id := by
      rw [map_id_rebalanced]
    simpa only [List.any_eq_true, List.mem_map, decide_eq_true_eq] using same
  have others : ∀ {i}, (∃ sibling ∈ L, sibling.id = i) → own ≠ some i := by
    rintro i ⟨sibling, member, rfl⟩ same
    exact absent _ same sibling member rfl
  have unwritten : ∀ {i}, own ≠ some i → P.entryKey i ∉ touched W := by
    intro i other member
    obtain ⟨x, same, keyed⟩ := mine _ member
    exact other (P.entryKey_injective keyed ▸ same)
  have sees : ∀ {a : α}, own ≠ some (P.id a) →
      (toRow a ∈ applyAll rows W ↔ toRow a ∈ rows) := fun other =>
    mem_applyAll_untouched W (by rw [P.key_toRow]; exact unwritten other)
  refine ⟨?_, keeps.extend ?_ ?_⟩
  · intro position write member
    rw [written] at member
    obtain ⟨a, chosen, rfl⟩ := List.mem_map.mp member
    obtain ⟨_, condition⟩ := List.mem_filter.mp chosen
    rw [Bool.and_eq_true, listed, decide_eq_true_eq] at condition
    obtain ⟨⟨sibling, inL, same⟩, here⟩ := condition
    obtain ⟨i, inside, rfl⟩ := List.mem_iff_getElem.mp inL
    refine ⟨_, rfl, Or.inr ⟨P.id a, apart k i, ?_, Or.inr ⟨others ⟨_, inL, same⟩, i, inside, same, rfl⟩⟩⟩
    rw [entry_toRow, P.group_reposition, P.id_reposition, P.position_reposition, here, ← same,
      updatedPosition_rebalanced keys inside]
  · intro i p stands other
    obtain ⟨a, member, here, rfl, _⟩ := order_iff.mp stands
    obtain ⟨j, inside, same, _⟩ := keeps.listed stands other
    refine Or.inl ?_
    rw [touched_append, List.mem_append]
    have chosen : a ∈ (table (applyAll rows W)).filter fun a =>
        (rebalancedSiblings L k).any (·.id = P.id a) && P.group a = g := by
      refine List.mem_filter.mpr ⟨mem_table.mpr ((sees other).mpr (mem_table.mp member)), ?_⟩
      rw [Bool.and_eq_true, listed]
      exact ⟨⟨_, List.getElem_mem inside, same⟩, by simpa using here⟩
    refine Or.inr (List.mem_map.mpr ⟨_, written ▸ List.mem_map_of_mem chosen, ?_⟩)
    change key (toRow _ : Row) = _
    rw [P.key_toRow, P.id_reposition]
    rfl
  · intro row g' i p stored entered other
    rw [written] at stored
    obtain ⟨a, chosen, same⟩ := List.mem_map.mp stored
    cases same
    obtain ⟨member, condition⟩ := List.mem_filter.mp chosen
    rw [entry_toRow, P.id_reposition] at entered
    cases entered
    rw [Bool.and_eq_true, decide_eq_true_eq] at condition
    exact ⟨P.position a, order_iff.mpr
      ⟨a, mem_table.mpr ((sees other).mp (mem_table.mp member)), condition.2, rfl, rfl⟩⟩

/-- The new row goes in beside siblings that were read or moved. -/
theorem keeps_insert {moved : Nat → ℚ} {position : ℚ} (puts : P.Puts L g none position moved W)
    (keeps : P.Keeps L g none moved W rows) {a : α} (here : P.group a = g)
    (stands : P.position a = position)
    (new : ∀ row ∈ applyAll rows W, key row ≠ key (toRow a : Row)) :
    P.Puts L g (some (P.id a)) position moved (W ++ [.put (toRow a)]) ∧
      P.Keeps L g (some (P.id a)) moved (W ++ [.put (toRow a)]) rows ∧
      ∀ row ∈ rows, key row ≠ key (toRow a : Row) := by
  have untouched : key (toRow a : Row) ∉ touched W := by
    intro written
    rw [P.key_toRow] at written
    obtain ⟨p, row, member, entered⟩ := puts.stored rows written
    exact new row member (by rw [P.lanes.key_entry entered, P.key_toRow]; rfl)
  refine ⟨?_, (keeps.name (P.id a)).extend (fun _ _ => Or.inr rfl) ?_, ?_⟩
  · intro write member
    obtain early | own := List.mem_append.mp member
    · obtain ⟨row, rfl, quiet | ⟨i, p, entered, ⟨none, _⟩ | ⟨_, listed⟩⟩⟩ := puts write early
      · exact ⟨row, rfl, Or.inl quiet⟩
      · contradiction
      · refine ⟨row, rfl, Or.inr ⟨i, p, entered, Or.inr ⟨fun same => untouched ?_, listed⟩⟩⟩
        refine List.mem_map.mpr ⟨_, early, ?_⟩
        change key row = _
        rw [P.lanes.key_entry entered, P.key_toRow, Option.some.inj same]
        rfl
    · cases List.mem_singleton.mp own
      exact ⟨_, rfl, Or.inr ⟨P.id a, position, by rw [entry_toRow, here, stands], Or.inl ⟨rfl, rfl⟩⟩⟩
  · intro row g' i p stored entered other
    cases List.mem_singleton.mp stored
    rw [entry_toRow] at entered
    cases entered
    exact absurd rfl other
  · intro row member same
    exact new row ((mem_applyAll_untouched W (same ▸ untouched)).mpr member) same

/-- The moved row goes in first, whatever its old place was. -/
theorem keeps_own {moved : Nat → ℚ} {position : ℚ} {a : α}
    (keeps : P.Keeps L g (some (P.id a)) moved [] rows) (here : P.group a = g)
    (stands : P.position a = position) :
    (∀ spread, P.Puts L g (some (P.id a)) position spread [.put (toRow a)]) ∧
      P.Keeps L g (some (P.id a)) moved [.put (toRow a)] rows := by
  refine ⟨?_, keeps.extend (fun _ _ => Or.inr rfl) ?_⟩
  · intro spread write member
    cases List.mem_singleton.mp member
    exact ⟨_, rfl, Or.inr ⟨P.id a, position, by rw [entry_toRow, here, stands], Or.inl ⟨rfl, rfl⟩⟩⟩
  · intro row g' i p stored entered other
    cases List.mem_singleton.mp stored
    rw [entry_toRow] at entered
    cases entered
    exact absurd rfl other

/-- Rows of other tables, such as the audit row, change no order. -/
theorem keeps_quiet {moved : Nat → ℚ} {position : ℚ} {row : Row}
    (puts : P.Puts L g own position moved W) (keeps : P.Keeps L g own moved W rows)
    (silent : P.lanes.Silent (.put row)) :
    P.Puts L g own position moved (W ++ [.put row]) ∧
      P.Keeps L g own moved (W ++ [.put row]) rows := by
  refine ⟨puts.append ?_, keeps.extend (fun _ _ => Or.inr rfl) ?_⟩
  · intro write member
    cases List.mem_singleton.mp member
    exact ⟨row, rfl, Or.inl silent⟩
  · intro row' g' i p stored entered _
    cases List.mem_singleton.mp stored
    rw [silent.1] at entered
    contradiction

/-- What a committed create or move did, seen from the views it had: in one of them it
resolved the slot, that view shows every other row now in order where it stands, and
the commit keeps the others in order and puts its own row between its neighbours. -/
def PlacedInOrder (P : Positioning α) (g own : Id)
    (resolve : List Sibling → Except Error InsertionSlot) (seen : List (List Row))
    (before after : List Row) : Prop :=
  (P.order g before).OrderKept own (P.order g after) ∧ (∃ p, P.order g after own p) ∧
    ∃ view ∈ seen, ∃ slot, resolve (P.siblings g view) = .ok slot ∧
      (∀ {i p}, i ≠ own → P.order g before i p → P.order g view i p) ∧
      (∀ {sibling p q}, slot.prev = some sibling → sibling.id ≠ own →
        P.order g after sibling.id p → P.order g after own q → p < q) ∧
      ∀ {sibling p q}, slot.next = some sibling → sibling.id ≠ own →
        P.order g after sibling.id p → P.order g after own q → q < p

theorem placedInOrder {x : Id} {resolve : List Sibling → Except Error InsertionSlot}
    {seen : List (List Row)} {after : List Row} {moved : Nat → ℚ} (shown : view ∈ seen)
    (resolved : resolve (P.siblings g view) = .ok (sliceSlot L k))
    (read : L ⊆ P.siblings g view) (keeps : P.Keeps L g (some x) moved W rows)
    (placed : Lanes.InOrder Sibling.id L k x (P.order g rows) (P.order g after)) :
    P.PlacedInOrder g x resolve seen rows after := by
  refine ⟨placed.others, placed.self, view, shown, _, resolved, ?_, ?_, ?_⟩
  · intro i p other stands
    obtain ⟨j, inside, rfl, rfl, _⟩ := keeps.listed stands (by simpa using other.symm)
    exact mem_siblings.mp (read (List.getElem_mem inside))
  · intro sibling p q prev other there self
    simp only [sliceSlot, Option.ite_none_left_eq_some] at prev
    obtain ⟨inside, rfl⟩ := List.getElem?_eq_some_iff.mp prev.2
    exact placed.above inside (by omega) other there self
  · intro sibling p q next other there self
    obtain ⟨inside, rfl⟩ := List.getElem?_eq_some_iff.mp next
    exact placed.below inside le_rfl other there self

/-- A create or move written around what was read under the lock can be committed. -/
theorem commits (resolve : List Sibling → Except Error InsertionSlot) {watched : Id → Prop}
    {extra : List Row → Prop}    {held : Held Key} {x : Id} {position : ℚ} {seen : List (List Row)} {moved : Nat → ℚ}
    (inv : (P.lanes.protocol watched extra).inv rows)
    (puts : P.Puts L g (some x) position moved W) (keeps : P.Keeps L g (some x) moved W rows)
    (keys : (L.map Sibling.id).Nodup)
    (fits : watched g → Ordered Sibling.id Sibling.position L ∧ Spread L.length k position moved)
    (mine : P.entryKey x ∈ touched W) (kept : extra (applyAll rows W)) (locked : (P.lock g, .update) ∈ held)
    (shown : view ∈ seen)
    (resolved : resolve (P.siblings g view) = .ok (sliceSlot L k)) (read : L ⊆ P.siblings g view) :
    (P.lanes.protocol watched extra).inv (applyAll rows W) ∧
      (P.lanes.protocol watched extra).guar held rows (applyAll rows W) ∧
      (watched g → P.PlacedInOrder g x resolve seen rows (applyAll rows W)) := by
  obtain ⟨invAfter, guar, placed⟩ := Lanes.Places.commit puts keeps keys fits mine inv kept locked
  exact ⟨invAfter, guar, fun looked => placedInOrder shown resolved read keeps (placed looked)⟩

section Rules

variable {watched : Id → Prop} {extra : List Row → Prop} {allow : Assertion Row} {promise : Promise Row Key}
  {l : Local Row Key} {A : Assertion Row}

/-- A parent that was found stays while its rows are moved about. -/
theorem stable_parent (held : Held Key) {k : Key} (locks : P.lanes.LockRow k) :
    Stable (P.lanes.protocol watched extra) held fun rows => ∃ row ∈ rows, key row = k := by
  rintro before after seen ⟨row, member, same⟩
  exact ⟨row, (seen.rely.1 row (same ▸ locks)).mp member, same⟩

/-- The lookup of the parent, before anything is written. -/
theorem verified_parent {β : Type} [Entity Row β] {where_ : Where Row β} {error : Error}
    {Q : β → Prop} {post : β → Local Row Key → Assertion Row → Prop}
    (quiet : ∀ l, promise.statement l) (clean : l.pending = [])
    (locks : ∀ b : β, P.lanes.LockRow (key (toRow b : Row)))
    (chosen : ∀ {rows b}, where_ rows b = true → Q b)
    (rest : ∀ b l', Q b → l.Grown l' [] →
      post b l' fun rows => ∃ row ∈ rows, key row = key (toRow b : Row)) :
    Verified (P.lanes.protocol watched extra) allow promise
      (found (.findFirst where_) error : Service β) l A post := by
  refine Verified.found (quiet _) fun rows b _ _ hit => ?_
  have member : toRow b ∈ rows := by
    simpa [Local.view, clean] using mem_table.mp (List.mem_of_find?_eq_some hit)
  exact ⟨_, ⟨toRow b, member, rfl⟩, stable_parent _ (locks b),
    rest b _ (chosen (List.find?_some hit)) (l.grown_read rows)⟩

theorem verified_lock {post : Unit → Local Row Key → Assertion Row → Prop}
    (quiet : ∀ l, promise.statement l) (stable : Stable (P.lanes.protocol watched extra) l.held A)
    (clean : l.pending = [])
    (there : ∀ rows, (P.lanes.protocol watched extra).inv rows → A rows →
      ∃ row ∈ rows, key row = P.lock g)
    (rest : ∀ l', l.Grown l' [] → (P.lock g, .update) ∈ l'.held → post () l' A) :
    Verified (P.lanes.protocol watched extra) allow promise
      (query (.lockForUpdate (P.lock g)) : Service Unit) l A post := by
  refine Verified.keep (quiet _) stable fun rows inv fact o ran => ?_
  obtain ⟨writes, locks⟩ := Statement.lockForUpdate_ok ran
  refine rest _ (writes ▸ l.grown_ran rows o) ?_
  have present : ∃ row ∈ l.view rows, key row = P.lock g := by
    simpa [Local.view, clean] using there rows inv fact
  exact List.mem_append_right _ (List.mem_append_left _ (locks present))

/-- A read under the lock: from then on rows only leave the parent. -/
theorem verified_look {β : Type} {post : β → Local Row Key → Assertion Row → Prop}
    {answer : List Row → β} (quiet : ∀ l, promise.statement l)
    (stable : Stable (P.lanes.protocol watched extra) l.held A) (clean : l.pending = [])
    (locked : (P.lock g, .update) ∈ l.held)
    (rest : ∀ view l', l.Grown l' [] → view ∈ l'.seen →
      (P.lanes.protocol watched extra).inv view →
      Stable (P.lanes.protocol watched extra) l'.held (fun rows => A rows ∧ P.Reads g view rows) →
      post (answer view) l' fun rows => A rows ∧ P.Reads g view rows) :
    Verified (P.lanes.protocol watched extra) allow promise
      (query (.read answer) : Service β) l A post := by
  refine Verified.query (quiet _) fun rows inv fact o ran => ?_
  cases ran
  have same : l.view rows = rows := by simp [Local.view, clean]
  have grown := l.grown_ran rows ({ result := answer (l.view rows) } : Outcome Row Key β)
  have kept : Stable (P.lanes.protocol watched extra) l.held
      fun others => A others ∧ P.Reads g (l.view rows) others :=
    stable.and fun _ _ seen reads _ _ stands => reads (seen.rely.2 g locked _ _ stands)
  have reads : P.Reads g (l.view rows) rows := fun _ _ stands => by rw [same]; exact stands
  exact ⟨_, ⟨fact, reads⟩, kept.more grown.held, rest _ _ grown
    (List.mem_append_right _ (List.mem_singleton_self _)) (by rw [same]; exact inv)
    (kept.more grown.held)⟩

/-- The siblings as they are read under the lock. -/
theorem verified_siblings {post : List Sibling → Local Row Key → Assertion Row → Prop}
    (quiet : ∀ l, promise.statement l)
    (stable : Stable (P.lanes.protocol watched extra) l.held A) (clean : l.pending = [])
    (locked : (P.lock g, .update) ∈ l.held)
    (rest : ∀ view l', l.Grown l' [] → view ∈ l'.seen →
      ((P.siblings g view).map Sibling.id).Nodup →
      (watched g → Ordered Sibling.id Sibling.position (P.siblings g view)) →
      Stable (P.lanes.protocol watched extra) l'.held (fun rows => A rows ∧ P.Reads g view rows) →
      post (P.siblings g view) l' fun rows => A rows ∧ P.Reads g view rows) :
    Verified (P.lanes.protocol watched extra) allow promise
      (query (.read (P.siblings g)) : Service (List Sibling)) l A post :=
  verified_look quiet stable clean locked fun view l' grown shown inv kept =>
    rest view l' grown shown (nodup_siblings inv.1)
      (fun looked => ordered_siblings inv.1 (inv.2.1 g looked)) kept

/-- A new row, after its siblings were read or moved. -/
theorem verified_insert {β : Type} {post : β → Local Row Key → Assertion Row → Prop}
    {exec : Statement Row Key Error β} {a : α} {position : ℚ} {moved : Nat → ℚ}
    (quiet : ∀ l, promise.statement l)
    (creates : ∀ {view o}, exec view = .ok o → o.writes = [.put (toRow a)] ∧
      ∀ row ∈ view, key row ≠ key (toRow a : Row))
    (here : P.group a = g) (stands : P.position a = position) (locked : (P.lock g, .update) ∈ l.held)
    (owned : ∀ k ∈ touched l.pending, Owns l.held k)
    (puts : P.Puts L g none position moved l.pending)
    (keeps : ∀ rows, A rows → P.Keeps L g none moved l.pending rows)
    (rest : ∀ result l' A', l.Grown l' [.put (toRow a)] →
      P.Puts L g (some (P.id a)) position moved l'.pending →
      P.entryKey (P.id a) ∈ touched l'.pending → Stable (P.lanes.protocol watched extra) l'.held A' →
      (∀ rows, A' rows → P.Keeps L g (some (P.id a)) moved l'.pending rows ∧
        ∀ row ∈ rows, key row ≠ P.entryKey (P.id a)) → post result l' A') :
    Verified (P.lanes.protocol watched extra) allow promise (query exec : Service β) l A post := by
  refine Verified.query (quiet _) fun rows _ fact o ran => ?_
  obtain ⟨written, new⟩ := creates ran
  obtain ⟨putsAll, kept, absent⟩ := keeps_insert puts (keeps rows fact) here stands new
  have pending : (l.ran rows o).pending = l.pending ++ [.put (toRow a)] := by rw [← written]; rfl
  have grown : l.Grown (l.ran rows o) [.put (toRow a)] := by
    rw [← written]; exact l.grown_ran rows o
  have target : P.entryKey (P.id a) ∈ touched (l.ran rows o).pending := by
    rw [pending, touched_append, ← P.key_toRow]
    exact List.mem_append_right _ (List.mem_singleton_self _)
  have outlasts : Stable (P.lanes.protocol watched extra) (l.ran rows o).held fun rows =>
      P.Keeps L g (some (P.id a)) moved (l.ran rows o).pending rows ∧
        ∀ row ∈ rows, key row ≠ P.entryKey (P.id a) :=
    (Lanes.Around.stable (grown.held locked) (grown.owned owned)).and
      (Stable.absent _ (grown.owned owned _ target))
  rw [← pending] at putsAll kept
  rw [P.key_toRow] at absent
  exact ⟨_, ⟨kept, absent⟩, outlasts, rest _ _ _ grown putsAll target outlasts fun _ fact => fact⟩

/-- The moved row's own write, before anything else is written. -/
theorem verified_own {β : Type} {post : β → Local Row Key → Assertion Row → Prop}
    {exec : Statement Row Key Error β} {x : Id} {position : ℚ} {moved : Nat → ℚ}
    (quiet : ∀ l, promise.statement l)
    (writes : ∀ {view o}, (P.lanes.protocol watched extra).inv view → exec view = .ok o →
      ∃ a : α, P.id a = x ∧ P.group a = g ∧ P.position a = position ∧ o.writes = [.put (toRow a)])
    (clean : l.pending = []) (locked : (P.lock g, .update) ∈ l.held)
    (keeps : ∀ rows, A rows → P.Keeps L g (some x) moved [] rows)
    (rest : ∀ result l' A', l.Grown l' l'.pending → touched l'.pending = [P.entryKey x] →
      (∀ spread, P.Puts L g (some x) position spread l'.pending) →
      Stable (P.lanes.protocol watched extra) l'.held A' →
      (∀ rows, A' rows → P.Keeps L g (some x) moved l'.pending rows) → post result l' A') :
    Verified (P.lanes.protocol watched extra) allow promise (query exec : Service β) l A post := by
  refine Verified.query (quiet _) fun rows inv fact o ran => ?_
  have same : l.view rows = rows := by simp [Local.view, clean]
  obtain ⟨a, rfl, here, stands, written⟩ := writes (by rw [same]; exact inv) ran
  obtain ⟨puts, kept⟩ := keeps_own (keeps rows fact) here stands
  have pending : (l.ran rows o).pending = [.put (toRow a)] := by simp [Local.ran, clean, written]
  have grown : l.Grown (l.ran rows o) (l.ran rows o).pending := (l.grown_ran rows o).whole clean
  have target : touched (l.ran rows o).pending = [P.entryKey (P.id a)] := by
    rw [pending]
    exact congrArg (fun k => [k]) (P.key_toRow a)
  have outlasts : Stable (P.lanes.protocol watched extra) (l.ran rows o).held
      (P.Keeps L g (some (P.id a)) moved (l.ran rows o).pending) :=
    Lanes.Around.stable (grown.held locked) (grown.owned (by simp [clean, touched]))
  rw [← pending] at puts kept
  exact ⟨_, kept, outlasts, rest _ _ _ grown target puts outlasts fun _ fact => fact⟩

/-- A rebalance around the free slot, whether or not there is a sibling to move. -/
theorem verified_batch {own : Option Id}
    {post : Unit → Local Row Key → Assertion Row → Prop}
    (quiet : ∀ l, promise.statement l) (keys : (L.map Sibling.id).Nodup)
    (stable : Stable (P.lanes.protocol watched extra) l.held A) (locked : (P.lock g, .update) ∈ l.held)
    (owned : ∀ k ∈ touched l.pending, Owns l.held k)
    (keeps : ∀ rows, A rows → P.Keeps L g own (still L) l.pending rows)
    (mine : ∀ k ∈ touched l.pending, ∃ x, own = some x ∧ k = P.entryKey x)
    (absent : ∀ x, own = some x → ∀ sibling ∈ L, sibling.id ≠ x)
    (rest : ∀ B l' A', l.Grown l' B → (∀ position, P.Puts L g own position (apart k) B) →
      Stable (P.lanes.protocol watched extra) l'.held A' →
      (∀ rows, A' rows → P.Keeps L g own (apart k) l'.pending rows) → post () l' A') :
    Verified (P.lanes.protocol watched extra) allow promise
      (P.batchUpdate g (rebalancedSiblings L k)) l A post := by
  unfold batchUpdate
  split
  · rename_i none
    have empty : L = [] := by
      have := congrArg List.length none
      simpa [rebalancedSiblings] using this
    subst empty
    refine rest [] l A (Local.Grown.refl l) (fun _ => Lanes.Places.nil) stable fun rows fact => ?_
    simpa using (keeps rows fact).extend (B := []) (fun stands other => by
      obtain ⟨i, inside, _⟩ := (keeps rows fact).listed stands other
      simp at inside) fun stored => absurd stored List.not_mem_nil
  · refine Verified.bind (Verified.query (quiet _) fun rows _ fact o ran => ?_)
    obtain ⟨puts, kept⟩ := keeps_batch keys (keeps rows fact) mine absent ran
    have grown := l.grown_ran rows o
    have outlasts : Stable (P.lanes.protocol watched extra) (l.ran rows o).held
        (P.Keeps L g own (apart k) (l.pending ++ o.writes)) :=
      Lanes.Around.stable (grown.held locked) (grown.owned owned)
    exact ⟨_, kept, outlasts, rest _ _ _ grown puts outlasts fun _ fact => fact⟩

/-- The position of a new row, with or without a rebalance. -/
theorem verified_createPosition {post : ℚ → Local Row Key → Assertion Row → Prop}
    (quiet : ∀ l, promise.statement l) (keys : (L.map Sibling.id).Nodup)
    (ordered : watched g → Ordered Sibling.id Sibling.position L) (fits : k ≤ L.length)
    (clean : l.pending = []) (locked : (P.lock g, .update) ∈ l.held)
    (stable : Stable (P.lanes.protocol watched extra) l.held A)
    (keeps : ∀ rows, A rows → P.Keeps L g none (still L) [] rows)
    (rest : ∀ position moved l' A', l.Grown l' l'.pending →
      P.Puts L g none position moved l'.pending → (watched g → Spread L.length k position moved) →
      Stable (P.lanes.protocol watched extra) l'.held A' →
      (∀ rows, A' rows → P.Keeps L g none moved l'.pending rows) → post position l' A') :
    Verified (P.lanes.protocol watched extra) allow promise
      (P.createPosition g L (sliceSlot L k)) l A post := by
  unfold createPosition
  dsimp only
  split
  · refine Verified.bind (verified_batch quiet keys stable locked (by simp [clean, touched])
      (by rwa [clean]) (by simp [clean, touched]) (by simp)
      fun B l' A' grown puts stable' kept => ?_)
    have written : l'.pending = B := by rw [grown.pending, clean, List.nil_append]
    exact rest _ _ l' A' (grown.whole clean) (written ▸ puts _) (fun _ => rebalance_spread _ fits)
      stable' kept
  · exact rest _ _ l A ((Local.Grown.refl l).whole clean) (clean ▸ Lanes.Places.nil)
      (fun looked => midpoint_spread (ordered looked) fits) stable (by rwa [clean])

end Rules

end Positioning

end Kurul
