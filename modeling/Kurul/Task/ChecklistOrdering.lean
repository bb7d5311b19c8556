import Kurul.Ordering
import Kurul.Task.ChecklistService

/-! Creates and moves of checklists and of their items, interleaved in any way. A move
computes its midpoint from a read that nothing protects, so another commit may have come
into its gap. Where the neighbours a call resolved are still there when it commits, every
list keeps its positions distinct and its order. -/
namespace Kurul

open Store Prog Sequence

inductive ListCall where
  | createChecklist (workspaceId taskId actorId : Id) (dto : CreateChecklistDto)
  | moveChecklist (workspaceId taskId actorId checklistId : Id) (dto : MoveChecklistDto)
  | createItem (workspaceId taskId actorId checklistId : Id) (dto : CreateChecklistItemDto)
  | moveItem (workspaceId taskId actorId itemId : Id) (dto : MoveChecklistItemDto)

def ListCall.service : ListCall → Service Unit
  | .createChecklist workspaceId taskId actorId dto => do
      let _ ← ChecklistService.create workspaceId taskId actorId dto
  | .moveChecklist workspaceId taskId actorId checklistId dto => do
      let _ ← ChecklistService.move workspaceId taskId actorId checklistId dto
  | .createItem workspaceId taskId actorId checklistId dto => do
      let _ ← ChecklistItemService.create workspaceId taskId actorId checklistId dto
  | .moveItem workspaceId taskId actorId itemId dto => do
      let _ ← ChecklistItemService.move workspaceId taskId actorId itemId dto

/-- How a call resolves the slot of its row among the siblings it read. -/
abbrev Resolve := Id → List Sibling → Except Error InsertionSlot

def atEnd : Resolve := fun _ siblings => .ok (sliceSlot siblings siblings.length)

def afterSibling (afterId : Option Id) (notFoundMessage : String) : Resolve := fun own siblings =>
  resolveAfter (siblings.filter (·.id ≠ own)) afterId notFoundMessage

theorem atEnd_slot {siblings : List Sibling} {slot : InsertionSlot} (own : Id)
    (resolved : atEnd own siblings = .ok slot) :
    ∃ L, L.Sublist siblings ∧ ∃ k ≤ L.length, slot = sliceSlot L k := by
  cases resolved
  exact ⟨siblings, List.Sublist.refl _, _, le_rfl, rfl⟩

theorem afterSibling_slot {afterId : Option Id} {notFoundMessage : String} {own : Id}
    {siblings : List Sibling} {slot : InsertionSlot}
    (resolved : afterSibling afterId notFoundMessage own siblings = .ok slot) :
    ∃ L, L.Sublist siblings ∧ ∃ k ≤ L.length, slot = sliceSlot L k :=
  ⟨_, List.filter_sublist, resolveAfter_slot resolved⟩

/-- The row a write stores, if it is one of this table. -/
def storedRow {α : Type} [Entity Row α] : Write Row Key → Option α
  | .put row => ofRow row
  | .del _ => none

namespace Positioning

variable [Entity Row α] (P : Positioning α)

/-- Whoever stands in the list now leaves the slot free, and its neighbours where they
were read. -/
def StillFree (g own : Id) (slot : InsertionSlot) (rows : List Row) : Prop :=
  ∀ other ∈ P.listed g rows, other.id ≠ own →
    (∀ sibling ∈ slot.prev, other.id = sibling.id → other.position = sibling.position) ∧
    (∀ sibling ∈ slot.next, other.id = sibling.id → other.position = sibling.position) ∧
    ((∃ sibling ∈ slot.prev, other.position ≤ sibling.position) ∨
      ∃ sibling ∈ slot.next, sibling.position ≤ other.position)

instance (g own : Id) (slot : InsertionSlot) (rows : List Row) :
    Decidable (P.StillFree g own slot rows) :=
  inferInstanceAs (Decidable (∀ other ∈ P.listed g rows, _))

/-- The slot that a call resolved from this view for the row it writes is still free. -/
def Undisturbed (watched : Id → Prop) (resolve : Resolve) (view : List Row)
    (W : List (Write Row Key)) (rows : List Row) : Prop :=
  ∀ write ∈ W, ∀ a ∈ (storedRow write : Option α), watched (P.group a) →
    ∀ slot ∈ (resolve (P.id a) (P.listed (P.group a) view)).toOption,
      P.StillFree (P.group a) (P.id a) slot rows

instance (watched : Id → Prop) [DecidablePred watched] (resolve : Resolve) (view : List Row)
    (W : List (Write Row Key)) (rows : List Row) :
    Decidable (P.Undisturbed watched resolve view W rows) :=
  inferInstanceAs (Decidable (∀ write ∈ W, ∀ a ∈ (storedRow write : Option α), _))

/-- Rows stay in their lists. -/
def Stay (before after : List Row) : Prop :=
  ∀ a ∈ (table before : List α), ∃ b ∈ (table after : List α), P.id b = P.id a ∧ P.group b = P.group a

/-- A call writes one row of its list, at the midpoint of the slot it resolved. -/
structure Lands (resolve : Resolve) (view rows : List Row) (W : List (Write Row Key)) (a : α)
    (slot : InsertionSlot) : Prop where
  written : W = [.put (toRow a)]
  resolved : resolve (P.id a) (P.listed (P.group a) view) = .ok slot
  position : P.position a = slot.midpoint
  stayed : ∀ b ∈ (table rows : List α), P.id b = P.id a → P.group b = P.group a

/-- The other rows of the list keep their order, and the written one stands between the
neighbours that were resolved for it. -/
structure Between (g own : Id) (slot : InsertionSlot) (before after : List Row) : Prop where
  others : (P.order g before).OrderKept own (P.order g after)
  self : ∃ p, P.order g after own p
  above : ∀ {sibling p q}, slot.prev = some sibling → sibling.id ≠ own →
    P.order g after sibling.id p → P.order g after own q → p < q
  below : ∀ {sibling p q}, slot.next = some sibling → sibling.id ≠ own →
    P.order g after sibling.id p → P.order g after own q → q < p

variable {P} {g : Id} {rows view : List Row}

theorem mem_listed_iff {sibling : Sibling} :
    sibling ∈ P.listed g rows ↔ P.order g rows sibling.id sibling.position :=
  mem_listed.trans order_iff.symm

theorem ordered_listed (unique : UniqueKeys rows) (distinct : (P.order g rows).Distinct) :
    Ordered Sibling.id Sibling.position (P.listed g rows) := by
  have keys : ((P.listed g rows).map Sibling.id).Nodup := by
    have sorted := ((List.perm_insertionSort (fun a b => P.position a ≤ P.position b)
      ((table rows).filter (P.group · = g))).map fun a =>
        ({ id := P.id a, position := P.position a } : Sibling)).map Sibling.id
    exact sorted.nodup_iff.mpr (nodup_rows unique)
  constructor
  · have weakly : (P.listed g rows).Pairwise fun a b => a.position ≤ b.position := by
      rw [listed, List.pairwise_map]
      exact List.pairwise_insertionSort _ _
    have apart : (P.listed g rows).Pairwise fun a b => a.id ≠ b.id := List.pairwise_map.mp keys
    rw [List.pairwise_map]
    apply (List.Pairwise.and_mem.mp (weakly.and apart)).imp
    rintro a b ⟨left, right, le, different⟩
    apply lt_of_le_of_ne le
    intro same
    exact different (distinct (mem_listed_iff.mp left) (same ▸ mem_listed_iff.mp right))
  · exact keys

theorem distinct_of_groups (apart : ∀ a ∈ (table rows : List α), ∀ b ∈ (table rows : List α),
    P.group a = P.group b → P.position a = P.position b → P.id a = P.id b) (g : Id) :
    (P.order g rows).Distinct := by
  apply distinct_iff.mpr
  intro a memberA b memberB hereA hereB same
  exact apart a memberA b memberB (hereA.trans hereB.symm) same

section Landing

variable {resolve : Resolve} {W : List (Write Row Key)} {a : α} {slot : InsertionSlot}

/-- A resolved slot lies strictly between its neighbours. -/
theorem Lands.between (lands : P.Lands resolve view rows W a slot)
    (shape : ∃ L, L.Sublist (P.listed (P.group a) view) ∧ ∃ k ≤ L.length, slot = sliceSlot L k)
    (ordered : Ordered Sibling.id Sibling.position (P.listed (P.group a) view)) :
    (∀ sibling ∈ slot.prev, sibling.position < P.position a) ∧
      ∀ sibling ∈ slot.next, P.position a < sibling.position := by
  obtain ⟨L, sub, k, fits, rfl⟩ := shape
  have inOrder : Ordered Sibling.id Sibling.position L :=
    ⟨ordered.increasing.sublist (sub.map _), ordered.keys.sublist (sub.map _)⟩
  have spread := midpoint_spread inOrder fits
  rw [lands.position]
  constructor
  · intro sibling member
    simp only [sliceSlot, Option.mem_def, Option.ite_none_left_eq_some] at member
    obtain ⟨inside, rfl⟩ := List.getElem?_eq_some_iff.mp member.2
    have less := spread.below (by omega : k - 1 < k) inside
    simpa [inside, InsertionSlot.midpoint] using less
  · intro sibling member
    obtain ⟨inside, rfl⟩ := List.getElem?_eq_some_iff.mp member
    have less := spread.above le_rfl inside
    simpa [inside, InsertionSlot.midpoint] using less

variable (P) in
theorem mem_table_put {b : α} : b ∈ (table (applyAll rows [.put (toRow a)]) : List α) ↔
    b = a ∨ (P.id b ≠ P.id a ∧ b ∈ (table rows : List α)) := by
  have keyed : ∀ b : α, key (toRow b : Row) ∈ touched [Write.put (toRow a : Row)] ↔
      P.id b = P.id a := by
    intro b
    simp only [touched, List.map_cons, List.map_nil, List.mem_singleton, Write.target, P.key_toRow]
    exact P.entryKey_injective.eq_iff
  rw [mem_table, mem_table]
  constructor
  · intro member
    rcases mem_applyAll_cases member with written | ⟨old, untouched⟩
    · left
      rw [List.mem_singleton, Write.put.injEq] at written
      exact toRow_injective written
    · exact .inr ⟨fun same => untouched ((keyed b).mpr same), old⟩
  · rintro (rfl | ⟨different, old⟩)
    · exact mem_applyAll_put rows (toRow b)
    · exact (mem_applyAll_untouched _ fun written => different ((keyed b).mp written)).mpr old

/-- After the write every row but its own stands where it stood. -/
theorem Lands.order_iff (lands : P.Lands resolve view rows W a slot) {i : Id} {p : ℚ} :
    P.order g (applyAll rows W) i p ↔
      (i = P.id a ∧ g = P.group a ∧ p = P.position a) ∨ (i ≠ P.id a ∧ P.order g rows i p) := by
  simp only [Positioning.order_iff, lands.written, P.mem_table_put]
  constructor
  · rintro ⟨b, rfl | ⟨different, old⟩, rfl, rfl, rfl⟩
    · exact .inl ⟨rfl, rfl, rfl⟩
    · exact .inr ⟨different, b, old, rfl, rfl, rfl⟩
  · rintro (⟨rfl, rfl, rfl⟩ | ⟨different, b, old, here, rfl, stands⟩)
    · exact ⟨a, .inl rfl, rfl, rfl, rfl⟩
    · exact ⟨b, .inr ⟨different, old⟩, here, rfl, stands⟩

theorem Lands.stay (lands : P.Lands resolve view rows W a slot) : P.Stay rows (applyAll rows W) := by
  intro b member
  rw [lands.written]
  by_cases same : P.id b = P.id a
  · exact ⟨a, P.mem_table_put.mpr (.inl rfl), same.symm, (lands.stayed b member same).symm⟩
  · exact ⟨b, P.mem_table_put.mpr (.inr ⟨same, member⟩), rfl, rfl⟩

/-- A write into another table moves no row of this one. -/
theorem stay_other {row : Row} (apart : ∀ b : α, key (toRow b : Row) ≠ key row) :
    P.Stay rows (applyAll rows [.put row]) := by
  intro b member
  have untouched : key (toRow b : Row) ∉ touched [Write.put row] := by
    simpa [touched, Write.target] using apart b
  exact ⟨b, mem_table.mpr ((mem_applyAll_untouched _ untouched).mpr (mem_table.mp member)), rfl, rfl⟩

theorem order_other {row : Row} (apart : ∀ b : α, toRow b ≠ row) {i : Id} {p : ℚ}
    (stands : P.order g (applyAll rows [.put row]) i p) : P.order g rows i p := by
  obtain ⟨b, member, facts⟩ := Positioning.order_iff.mp stands
  rcases mem_applyAll_cases (mem_table.mp member) with written | ⟨old, _⟩
  · rw [List.mem_singleton, Write.put.injEq] at written
    exact absurd written (apart b)
  · exact Positioning.order_iff.mpr ⟨b, mem_table.mpr old, facts⟩

/-- A write into a slot that is still free keeps the positions of its list distinct. -/
theorem Lands.distinct (lands : P.Lands resolve view rows W a slot)
    (between : (∀ sibling ∈ slot.prev, sibling.position < P.position a) ∧
      ∀ sibling ∈ slot.next, P.position a < sibling.position)
    (free : P.StillFree (P.group a) (P.id a) slot rows)
    (distinct : (P.order (P.group a) rows).Distinct) :
    (P.order (P.group a) (applyAll rows W)).Distinct := by
  have apart : ∀ {i p}, i ≠ P.id a → P.order (P.group a) rows i p → p ≠ P.position a := by
    intro i p other stands
    rcases (free ⟨i, p⟩ (mem_listed_iff.mpr stands) other).2.2 with ⟨prev, member, le⟩ | ⟨next, member, le⟩
    · exact (lt_of_le_of_lt le (between.1 prev member)).ne
    · exact (lt_of_lt_of_le (between.2 next member) le).ne'
  intro i j p left right
  rcases lands.order_iff.mp left with ⟨rfl, _, rfl⟩ | ⟨otherI, standsI⟩
  · rcases lands.order_iff.mp right with ⟨rfl, _, _⟩ | ⟨otherJ, standsJ⟩
    · rfl
    · exact absurd rfl (apart otherJ standsJ)
  · rcases lands.order_iff.mp right with ⟨rfl, _, rfl⟩ | ⟨_, standsJ⟩
    · exact absurd rfl (apart otherI standsI)
    · exact distinct standsI standsJ

/-- And it lands between the neighbours, the others in order. -/
theorem Lands.placed (lands : P.Lands resolve view rows W a slot)
    (between : (∀ sibling ∈ slot.prev, sibling.position < P.position a) ∧
      ∀ sibling ∈ slot.next, P.position a < sibling.position)
    (free : P.StillFree (P.group a) (P.id a) slot rows) (unique : UniqueKeys rows) :
    P.Between (P.group a) (P.id a) slot rows (applyAll rows W) := by
  have same : ∀ {i p}, i ≠ P.id a →
      (P.order (P.group a) (applyAll rows W) i p ↔ P.order (P.group a) rows i p) := by
    intro i p other
    simp [lands.order_iff, other]
  have self : ∀ {q}, P.order (P.group a) (applyAll rows W) (P.id a) q → q = P.position a := by
    intro q stands
    simpa [lands.order_iff] using stands
  have functional := P.lanes.lane_functional (g := P.group a) unique
  constructor
  · constructor
    · intro i p other stands
      exact ⟨p, (same other).mpr stands⟩
    · intro i j p q p' q' otherI otherJ beforeI beforeJ afterI afterJ
      rw [functional beforeI ((same otherI).mp afterI), functional beforeJ ((same otherJ).mp afterJ)]
  · exact ⟨P.position a, lands.order_iff.mpr (.inl ⟨rfl, rfl, rfl⟩)⟩
  · intro sibling p q prev other there own
    have stands := (same other).mp there
    have still := (free ⟨sibling.id, p⟩ (mem_listed_iff.mpr stands) other).1 sibling prev rfl
    rw [self own, show p = sibling.position from still]
    exact between.1 sibling prev
  · intro sibling p q next other there own
    have stands := (same other).mp there
    have still := (free ⟨sibling.id, p⟩ (mem_listed_iff.mpr stands) other).2.1 sibling next rfl
    rw [self own, show p = sibling.position from still]
    exact between.2 sibling next

end Landing

end Positioning

namespace ListCall

def resolve : ListCall → Resolve
  | .createChecklist .. | .createItem .. => atEnd
  | .moveChecklist _ _ _ _ dto => afterSibling dto.afterId "Checklist not found"
  | .moveItem _ _ _ _ dto => afterSibling dto.afterId "Checklist item not found"

/-- The row a move is asked for. -/
def moved : ListCall → Option Id
  | .createChecklist .. | .createItem .. => none
  | .moveChecklist _ _ _ checklistId _ => some checklistId
  | .moveItem _ _ _ itemId _ => some itemId

/-- Which of its statements reads the siblings, counted from zero. -/
def siblingRead : ListCall → Nat
  | .createChecklist .. => 2
  | .moveChecklist .. => 1
  | .createItem .. => 3
  | .moveItem .. => 2

def ofChecklists : ListCall → Bool
  | .createChecklist .. | .moveChecklist .. => true
  | .createItem .. | .moveItem .. => false

theorem resolve_slot {call : ListCall} {own : Id} {siblings : List Sibling} {slot : InsertionSlot}
    (resolved : call.resolve own siblings = .ok slot) :
    ∃ L, L.Sublist siblings ∧ ∃ k ≤ L.length, slot = sliceSlot L k := by
  cases call with
  | createChecklist | createItem => exact atEnd_slot own resolved
  | moveChecklist | moveItem => exact afterSibling_slot resolved

end ListCall

/-- The write of a call, given the view that its siblings were read from. -/
def Positioning.Landed [Entity Row α] (P : Positioning α) (call : ListCall) (seen : List (List Row))
    (rows : List Row) (W : List (Write Row Key)) : Prop :=
  ∃ view, seen[call.siblingRead]? = some view ∧
    ∃ a slot, P.Lands call.resolve view rows W a slot ∧ ∀ x ∈ call.moved, P.id a = x

/-- What a commit has to do to a list: in the view its siblings were read from it
resolved the slot, and where the list is watched it puts its row there. -/
def Positioning.Placed [Entity Row α] (P : Positioning α) (watched : Id → Prop) (call : ListCall)
    (seen : List (List Row)) (before after : List Row) : Prop :=
  ∃ view, seen[call.siblingRead]? = some view ∧ ∃ g own slot,
    call.resolve own (P.listed g view) = .ok slot ∧ (∀ x ∈ call.moved, own = x) ∧
      (∃ p, P.order g after own p) ∧ (watched g → P.Between g own slot before after)

namespace ListCall

/-- The neighbours the call resolved are still there at its commit. -/
def Undisturbed (tasks lists : Id → Prop) (call : ListCall) (seen : List (List Row))
    (W : List (Write Row Key)) (rows : List Row) : Prop :=
  ∀ view ∈ seen[call.siblingRead]?,
    checklistPositions.Undisturbed tasks call.resolve view W rows ∧
      checklistItemPositions.Undisturbed lists call.resolve view W rows

def Kept (tasks lists : Id → Prop) (call : ListCall) (seen : List (List Row))
    (before after : List Row) : Prop :=
  if call.ofChecklists then checklistPositions.Placed tasks call seen before after
  else checklistItemPositions.Placed lists call seen before after

def promise (call : ListCall) : Promise Row Key where
  statement l := l.pending = []
  commit l rows :=
    if call.ofChecklists then checklistPositions.Landed call l.seen rows l.pending
    else checklistItemPositions.Landed call l.seen rows l.pending

end ListCall

/-- Checklists stay with their task and items with their checklist. -/
def listProtocol : Protocol Row Key where
  inv := UniqueKeys
  rely _ before after := checklistPositions.Stay before after ∧ checklistItemPositions.Stay before after
  guar _ before after := checklistPositions.Stay before after ∧ checklistItemPositions.Stay before after
  narrows _ kept := kept
  compatible _ _ _ kept := kept

section Calls

variable {allow : Assertion Row} {call : ListCall} {l : Local Row Key} {A : Assertion Row}

theorem stays_checklist {resolve : Resolve} {view rows : List Row} {W : List (Write Row Key)}
    {checklist : Checklist} {slot : InsertionSlot}
    (lands : checklistPositions.Lands resolve view rows W checklist slot) :
    checklistPositions.Stay rows (applyAll rows W) ∧ checklistItemPositions.Stay rows (applyAll rows W) := by
  constructor
  · exact lands.stay
  · rw [lands.written]
    exact Positioning.stay_other fun _ => by simp [key, Row.key]

theorem stays_item {resolve : Resolve} {view rows : List Row} {W : List (Write Row Key)}
    {item : ChecklistItem} {slot : InsertionSlot}
    (lands : checklistItemPositions.Lands resolve view rows W item slot) :
    checklistPositions.Stay rows (applyAll rows W) ∧ checklistItemPositions.Stay rows (applyAll rows W) := by
  constructor
  · rw [lands.written]
    exact Positioning.stay_other fun _ => by simp [key, Row.key]
  · exact lands.stay

/-- A statement before anything is written. -/
theorem verified_first {post : β → Local Row Key → Assertion Row → Prop}
    {exec : Statement Row Key Error β} (clean : l.pending = [])
    (rest : ∀ rows o l', listProtocol.inv rows → A rows → exec rows = .ok o →
      l'.pending = o.writes → l'.seen = l.seen ++ [rows] →
      (∀ k ∈ touched o.writes, Owns l'.held k) →
      ∃ B : Assertion Row, B rows ∧ Stable listProtocol l'.held B ∧ post o.result l' B) :
    Verified listProtocol allow call.promise (query exec : Service β) l A post := by
  apply Verified.query clean
  intro rows inv fact o ran
  have same : l.view rows = rows := by simp [Local.view, clean]
  rw [same] at ran
  apply rest rows o (l.ran rows o) inv fact ran
  · simp [Local.ran, clean]
  · simp [Local.ran, same]
  · intro k written
    exact Owns.of_footprint written _

theorem verified_emitUpdated {workspaceId taskId actorId : Id} (clean : l.pending = []) :
    Verified listProtocol allow call.promise
      (TaskEventsService.emitUpdated workspaceId taskId actorId) l A fun _ _ _ => True := by
  unfold TaskEventsService.emitUpdated TaskReadService.findTask
  apply Verified.bind
  apply Verified.bind
  apply Verified.found clean
  intro rows task _ _ _
  refine ⟨fun _ => True, trivial, Stable.const _ _ True, ?_⟩
  apply Verified.bind
  apply Verified.query
  · exact clean
  intro rows _ _ o ran
  cases ran
  exact ⟨fun _ => True, trivial, Stable.const _ _ True, trivial⟩

/-- The commit of a row that was written into its slot. -/
theorem verified_landed [Entity Row α] {P : Positioning α} {value : β}
    {post : β → Local Row Key → Assertion Row → Prop} {view rows : List Row} {a : α}
    {slot : InsertionSlot} (shown : l.seen[call.siblingRead]? = some view)
    (lands : P.Lands call.resolve view rows l.pending a slot) (named : ∀ x ∈ call.moved, P.id a = x)
    (commits : P.Landed call l.seen rows l.pending →
      listProtocol.guar l.held rows (l.view rows) ∧ call.promise.commit l rows)
    (inv : listProtocol.inv rows) (rest : post value l.closed fun _ => True) :
    listProtocol.inv (l.view rows) ∧ listProtocol.guar l.held rows (l.view rows) ∧
      call.promise.commit l rows ∧ ∃ B : Assertion Row, B (l.view rows) ∧
        Stable listProtocol [] B ∧ post value l.closed B := by
  obtain ⟨guar, promised⟩ := commits ⟨view, shown, a, slot, lands, named⟩
  exact ⟨inv.applyAll _, guar, promised, fun _ => True, trivial, Stable.const _ _ True, rest⟩

/-- An append: the lock, the last row, and the new row behind it. -/
theorem verified_append [Entity Row α] {P : Positioning α} {g : Id} {k : Key}
    (make : Input → ℚ → α) {post : Unit → Local Row Key → Assertion Row → Prop}
    (made : ∀ given position, P.group (make given position) = g ∧
      P.position (make given position) = position)
    (resolves : call.resolve = atEnd) (unnamed : call.moved = none) (clean : l.pending = [])
    (read : l.seen.length + 1 = call.siblingRead)
    (commits : ∀ {l : Local Row Key} {rows}, P.Landed call l.seen rows l.pending →
      listProtocol.guar l.held rows (l.view rows) ∧ call.promise.commit l rows)
    (rest : ∀ l', l'.pending = [] → post () l' fun _ => True) :
    Verified listProtocol allow call.promise (transaction do
      query (.lockForUpdate k)
      let last ← query (.read (P.lastListed g))
      let given ← Service.fresh
      let _ ← query (.create (make given (appendedPosition last)))) l A post := by
  apply Verified.transaction
  apply Verified.bind
  apply verified_first clean
  intro before o l₁ _ _ locked pending₁ seen₁ _
  rw [(Statement.lockForUpdate_ok locked).1] at pending₁
  refine ⟨fun _ => True, trivial, Stable.const _ _ True, ?_⟩
  apply Verified.bind
  apply verified_first pending₁
  intro view _ l₂ _ _ ran pending₂ seen₂ _
  cases ran
  refine ⟨fun _ => True, trivial, Stable.const _ _ True, ?_⟩
  refine Verified.bind fun given => Verified.bind ?_
  apply verified_first
  · exact pending₂
  intro rows o l₃ _ _ created pending₃ seen₃ owned
  obtain ⟨_, written, absent⟩ := Statement.create_ok created
  generalize new : make given (appendedPosition (P.lastListed g view)) = a at *
  have group : P.group a = g := new ▸ (made given _).1
  have position : P.position a = appendedPosition (P.lastListed g view) := new ▸ (made given _).2
  have target : P.entryKey (P.id a) ∈ touched o.writes := by
    rw [written, ← P.key_toRow]
    exact List.mem_singleton_self _
  rw [P.key_toRow] at absent
  refine ⟨_, absent, Stable.absent _ (owned _ target), ?_⟩
  intro rows' inv missing _ _
  have lands : P.Lands call.resolve view rows' l₃.pending a
      (sliceSlot (P.listed g view) (P.listed g view).length) := by
    constructor
    · exact pending₃.trans written
    · rw [resolves, group]
      rfl
    · exact position.trans (appendedPosition_slot _)
    · intro b member same
      exact absurd (by rw [P.key_toRow, same]) (missing (toRow b) (mem_table.mp member))
  have shown : l₃.seen[call.siblingRead]? = some view := by
    simp [seen₃, seen₂, seen₁, ← read]
  exact verified_landed shown lands (by simp [unnamed]) commits inv (rest _ rfl)

/-- A move: the siblings, the slot, and the row's update in a statement of its own. -/
theorem verified_shift [Entity Row α] {P : Positioning α} (view : List Row) {g x : Id}
    {slot : InsertionSlot} {post : α → Local Row Key → Assertion Row → Prop}
    (moves : call.moved = some x) (resolved : call.resolve x (P.listed g view) = .ok slot)
    (clean : l.pending = []) (shown : l.seen[call.siblingRead]? = some view)
    (there : ∀ rows, A rows → ∃ a ∈ (table rows : List α), P.id a = x ∧ P.group a = g)
    (commits : ∀ {l : Local Row Key} {rows}, P.Landed call l.seen rows l.pending →
      listProtocol.guar l.held rows (l.view rows) ∧ call.promise.commit l rows)
    (rest : ∀ a l', l'.pending = [] → post a l' fun _ => True) :
    Verified listProtocol allow call.promise (transaction
      (query (.update (fun _ a => P.id a = x) (P.reposition slot.midpoint)) : Service α)) l A post := by
  apply Verified.transaction
  apply verified_first clean
  intro rows o l' inv fact updated pending seen owned
  obtain ⟨a, member, same, _, written⟩ := Statement.update_ok updated
  have same : P.id a = x := of_decide_eq_true same
  obtain ⟨b, stands, sameB, here⟩ := there rows fact
  have keyed : key (toRow a : Row) = key (toRow b : Row) := by
    rw [P.key_toRow, P.key_toRow, same, sameB]
  obtain rfl : a = b := toRow_injective
    (UniqueKeys.eq_of_key inv (mem_table.mp member) (mem_table.mp stands) keyed)
  have target : P.entryKey x ∈ touched o.writes := by
    rw [written, ← same, ← P.id_reposition slot.midpoint a, ← P.key_toRow]
    exact List.mem_singleton_self _
  -- the row is locked from here on, so it stays in its list
  refine ⟨fun rows => ∀ b ∈ (table rows : List α), P.id b = x → P.group b = g, ?_, ?_, ?_⟩
  · intro b member' sameB
    have keyed : key (toRow b : Row) = key (toRow a : Row) := by
      rw [P.key_toRow, P.key_toRow, same, sameB]
    obtain rfl : b = a := toRow_injective
      (UniqueKeys.eq_of_key inv (mem_table.mp member') (mem_table.mp member) keyed)
    exact here
  · intro before after moved known b member' sameB
    have mine : Owns l'.held (key (toRow b : Row)) := by
      rw [P.key_toRow, sameB]
      exact owned _ target
    exact known b (mem_table.mpr ((moved.frame _ mine).mpr (mem_table.mp member'))) sameB
  · intro rows' inv' known _ _
    have lands : P.Lands call.resolve view rows' l'.pending (P.reposition slot.midpoint a) slot := by
      constructor
      · exact pending.trans written
      · rw [P.id_reposition, P.group_reposition, same, here]
        exact resolved
      · exact P.position_reposition _ _
      · intro b member' sameB
        rw [P.group_reposition, here]
        rw [P.id_reposition, same] at sameB
        exact known b member' sameB
    have still : l'.seen[call.siblingRead]? = some view := by
      rw [seen, List.getElem?_append_left (List.getElem?_eq_some_iff.mp shown).1]
      exact shown
    apply verified_landed still lands
    · simp [moves, P.id_reposition, same]
    · exact commits
    · exact inv'
    · exact rest _ _ rfl

theorem commits_checklist (kind : call.ofChecklists = true) {l : Local Row Key} {rows : List Row}
    (landed : checklistPositions.Landed call l.seen rows l.pending) :
    listProtocol.guar l.held rows (l.view rows) ∧ call.promise.commit l rows := by
  have promised := landed
  obtain ⟨view, _, a, slot, lands, _⟩ := landed
  exact ⟨stays_checklist lands, by simpa [ListCall.promise, kind] using promised⟩

theorem commits_item (kind : call.ofChecklists = false) {l : Local Row Key} {rows : List Row}
    (landed : checklistItemPositions.Landed call l.seen rows l.pending) :
    listProtocol.guar l.held rows (l.view rows) ∧ call.promise.commit l rows := by
  have promised := landed
  obtain ⟨view, _, a, slot, lands, _⟩ := landed
  exact ⟨stays_item lands, by simpa [ListCall.promise, kind] using promised⟩

/-- Once found, a row of these tables stays in its list. -/
theorem stable_there [Entity Row α] {P : Positioning α} {held : Held Key} {x g : Id}
    (kept : ∀ {before after}, listProtocol.rely held before after → P.Stay before after) :
    Stable listProtocol held fun rows => ∃ a ∈ (table rows : List α), P.id a = x ∧ P.group a = g := by
  rintro before after moved ⟨a, member, same, here⟩
  obtain ⟨b, stands, sameB, hereB⟩ := kept moved.rely a member
  exact ⟨b, stands, sameB.trans same, hereB.trans here⟩

theorem ListCall.verified (call : ListCall) :
    Verified listProtocol allow call.promise call.service {} (fun _ => True) fun _ _ _ => True := by
  cases call with
  | createChecklist workspaceId taskId actorId dto =>
      apply Verified.bind
      apply Verified.bind
      apply Verified.found rfl
      intro rows task _ _ _
      refine ⟨fun _ => True, trivial, Stable.const _ _ True, ?_⟩
      apply Verified.bind
      apply verified_append (P := checklistPositions) (k := .task task.id)
        fun (given : Input) position =>
          { id := given.id, taskId := task.id, title := dto.title, position : Checklist }
      · intro given position
        exact ⟨rfl, rfl⟩
      · rfl
      · rfl
      · rfl
      · rfl
      · exact commits_checklist rfl
      · intro l' clean
        exact verified_emitUpdated clean
  | moveChecklist workspaceId taskId actorId checklistId dto =>
      apply Verified.bind
      apply Verified.bind
      apply Verified.found rfl
      intro rows task _ _ _
      refine ⟨fun _ => True, trivial, Stable.const _ _ True, ?_⟩
      apply Verified.bind
      apply verified_first rfl
      intro view o l' _ _ ran clean seen _
      cases ran
      -- what the view shows of the row holds later on too
      have there : Stable listProtocol l'.held fun rows =>
          (∃ a ∈ (table view : List Checklist), a.id = checklistId ∧ a.taskId = taskId) →
            ∃ a ∈ (table rows : List Checklist), a.id = checklistId ∧ a.taskId = taskId :=
        fun _ _ moved known shown =>
          stable_there (P := checklistPositions) And.left moved (known shown)
      refine ⟨_, fun shown => shown, there, ?_⟩
      apply Verified.bind
      apply Verified.require
      intro listed
      obtain ⟨sibling, member, same⟩ := List.any_eq_true.mp listed
      obtain ⟨checklist, stands, here, sameId, _⟩ := Positioning.mem_listed.mp member
      have shown : ∃ a ∈ (table view : List Checklist), a.id = checklistId ∧ a.taskId = taskId :=
        ⟨checklist, stands, sameId.trans (of_decide_eq_true same), here⟩
      apply Verified.bind
      apply Verified.ofExcept
      intro slot resolved
      apply Verified.bind
      apply verified_shift (P := checklistPositions) (g := taskId) view
      · rfl
      · exact resolved
      · exact clean
      · simp [seen, ListCall.siblingRead]
      · intro rows known
        exact known shown
      · exact commits_checklist rfl
      · intro a l'' clean
        exact verified_emitUpdated clean
  | createItem workspaceId taskId actorId checklistId dto =>
      apply Verified.bind
      apply Verified.bind
      apply Verified.found rfl
      intro rows task _ _ _
      refine ⟨fun _ => True, trivial, Stable.const _ _ True, ?_⟩
      apply Verified.bind
      apply Verified.found rfl
      intro rows checklist _ _ _
      refine ⟨fun _ => True, trivial, Stable.const _ _ True, ?_⟩
      apply Verified.bind
      apply verified_append (P := checklistItemPositions) (k := .checklist checklistId)
        fun (given : Input) position =>
          { id := given.id, checklistId, content := dto.content, position : ChecklistItem }
      · intro given position
        exact ⟨rfl, rfl⟩
      · rfl
      · rfl
      · rfl
      · rfl
      · exact commits_item rfl
      · intro l' clean
        exact verified_emitUpdated clean
  | moveItem workspaceId taskId actorId itemId dto =>
      apply Verified.bind
      apply Verified.bind
      apply Verified.found rfl
      intro rows task _ _ _
      refine ⟨fun _ => True, trivial, Stable.const _ _ True, ?_⟩
      apply Verified.bind
      apply Verified.found rfl
      intro rows owner inv _ hit
      have member : owner ∈ (table rows : List ChecklistItem) := List.mem_of_find?_eq_some hit
      have same : owner.id = itemId := by
        have chosen := List.find?_some hit
        simp only [scopedChecklistItem, Bool.and_eq_true, decide_eq_true_eq] at chosen
        exact chosen.1
      refine ⟨_, ⟨owner, member, same, rfl⟩, stable_there (P := checklistItemPositions) And.right, ?_⟩
      apply Verified.bind
      apply verified_first rfl
      intro view o l' _ there ran clean seen _
      cases ran
      refine ⟨_, there, stable_there (P := checklistItemPositions) And.right, ?_⟩
      apply Verified.bind
      apply Verified.ofExcept
      intro slot resolved
      apply Verified.bind
      apply verified_shift (P := checklistItemPositions) (g := owner.checklistId) view
      · rfl
      · exact resolved
      · exact clean
      · simp [seen, ListCall.siblingRead]
      · intro rows there
        exact there
      · exact commits_item rfl
      · intro a l'' clean
        exact verified_emitUpdated clean

end Calls

/-- The positions of each watched list are distinct. -/
def DistinctLists (tasks lists : Id → Prop) (rows : List Row) : Prop :=
  (∀ taskId, tasks taskId → (checklistPositions.order taskId rows).Distinct) ∧
    ∀ checklistId, lists checklistId → (checklistItemPositions.order checklistId rows).Distinct

section Runs

theorem Positioning.Landed.kept [Entity Row α] {P : Positioning α} {call : ListCall}
    {seen : List (List Row)} {rows : List Row} {W : List (Write Row Key)} {watched : Id → Prop}
    (landed : P.Landed call seen rows W)
    (free : ∀ view ∈ seen[call.siblingRead]?, P.Undisturbed watched call.resolve view W rows)
    (views : ∀ view ∈ seen, UniqueKeys view ∧ ∀ g, watched g → (P.order g view).Distinct)
    (unique : UniqueKeys rows) (distinct : ∀ g, watched g → (P.order g rows).Distinct) :
    (∀ g, watched g → (P.order g (applyAll rows W)).Distinct) ∧
      P.Placed watched call seen rows (applyAll rows W) := by
  obtain ⟨view, shown, a, slot, lands, named⟩ := landed
  obtain ⟨uniqueView, distinctView⟩ := views view (List.mem_of_getElem? shown)
  have here : watched (P.group a) →
      P.StillFree (P.group a) (P.id a) slot rows ∧
        (∀ sibling ∈ slot.prev, sibling.position < P.position a) ∧
          ∀ sibling ∈ slot.next, P.position a < sibling.position := by
    intro looked
    have mine : (storedRow (.put (toRow a)) : Option α) = some a := ofRow_toRow a
    constructor
    · apply free view shown (.put (toRow a)) _ a mine looked slot
      · simp [lands.resolved, Except.toOption]
      · simp [lands.written]
    · exact lands.between (ListCall.resolve_slot lands.resolved)
        (Positioning.ordered_listed uniqueView (distinctView _ looked))
  constructor
  · intro g looked
    by_cases same : g = P.group a
    · subst same
      obtain ⟨still, between⟩ := here looked
      exact lands.distinct between still (distinct _ looked)
    · intro i j p left right
      simp only [lands.order_iff, same, false_and, and_false, false_or] at left right
      exact distinct g looked left.2 right.2
  · refine ⟨view, shown, P.group a, P.id a, slot, lands.resolved, named, ?_, ?_⟩
    · exact ⟨P.position a, lands.order_iff.mpr (.inl ⟨rfl, rfl, rfl⟩)⟩
    · intro looked
      obtain ⟨still, between⟩ := here looked
      exact lands.placed between still unique

variable {ι : Type} [DecidableEq ι] {calls : ι → ListCall} {tasks lists : Id → Prop}
  {s u : System ι Row Key Event Input Error Unit}

/-- Where a call commits, the neighbours it resolved are still there. -/
def SlotsFree (calls : ι → ListCall) (tasks lists : Id → Prop)
    (s : System ι Row Key Event Input Error Unit) : Action ι Input Error → Prop
  | .run i _ => (s.threads i).prog.commits = true →
      (calls i).Undisturbed tasks lists (s.threads i).seen (s.threads i).pending s.rows
  | .fail .. => True

/-- Verified calls, all of whose views showed distinct positions. -/
structure Orderly (calls : ι → ListCall) (tasks lists : Id → Prop)
    (s : System ι Row Key Event Input Error Unit) : Prop where
  sound : Sound listProtocol (fun _ _ => True) (fun i => (calls i).promise) s
  distinct : DistinctLists tasks lists s.rows
  seen : ∀ i, ∀ view ∈ (s.threads i).seen, UniqueKeys view ∧ DistinctLists tasks lists view

theorem Orderly.commit (orderly : Orderly calls tasks lists s) {i : ι}
    {next : Except Error Unit → Service Unit} (here : (s.threads i).prog = .commit next)
    (free : (calls i).Undisturbed tasks lists (s.threads i).seen (s.threads i).pending s.rows) :
    DistinctLists tasks lists (applyAll s.rows (s.threads i).pending) ∧
      (calls i).Kept tasks lists (s.threads i).seen s.rows
        (applyAll s.rows (s.threads i).pending) := by
  have promised : (calls i).promise.commit (s.local i) s.rows := (orderly.sound.commit i here trivial).1
  cases kind : (calls i).ofChecklists with
  | true =>
      have landed : checklistPositions.Landed (calls i) (s.threads i).seen s.rows
          (s.threads i).pending := by simpa [ListCall.promise, kind, System.local] using promised
      obtain ⟨distinct, placed⟩ := landed.kept (fun view shown => (free view shown).1)
        (fun view member => ⟨(orderly.seen i view member).1, (orderly.seen i view member).2.1⟩)
        orderly.sound.inv orderly.distinct.1
      refine ⟨⟨distinct, fun g looked a b p left right => ?_⟩, by simpa [ListCall.Kept, kind] using placed⟩
      obtain ⟨view, _, checklist, slot, lands, _⟩ := landed
      rw [lands.written] at left right
      exact orderly.distinct.2 g looked
        (Positioning.order_other (fun _ same => by cases same) left)
        (Positioning.order_other (fun _ same => by cases same) right)
  | false =>
      have landed : checklistItemPositions.Landed (calls i) (s.threads i).seen s.rows
          (s.threads i).pending := by simpa [ListCall.promise, kind, System.local] using promised
      obtain ⟨distinct, placed⟩ := landed.kept (fun view shown => (free view shown).2)
        (fun view member => ⟨(orderly.seen i view member).1, (orderly.seen i view member).2.2⟩)
        orderly.sound.inv orderly.distinct.2
      refine ⟨⟨fun g looked a b p left right => ?_, distinct⟩, by simpa [ListCall.Kept, kind] using placed⟩
      obtain ⟨view, _, item, slot, lands, _⟩ := landed
      rw [lands.written] at left right
      exact orderly.distinct.1 g looked
        (Positioning.order_other (fun _ same => by cases same) left)
        (Positioning.order_other (fun _ same => by cases same) right)

theorem Orderly.step (orderly : Orderly calls tasks lists s) {action : Action ι Input Error}
    (free : SlotsFree calls tasks lists s action) (stepped : s.step action = some u) :
    Orderly calls tasks lists u := by
  obtain ⟨effect, others⟩ := System.step_effect stepped
  have sound := orderly.sound.step (fun _ _ _ _ _ => trivial) stepped
  have elsewhere : ∀ j, j ≠ action.actor → ∀ view ∈ (u.threads j).seen,
      UniqueKeys view ∧ DistinctLists tasks lists view := by
    intro j other view member
    rw [others j other] at member
    exact orderly.seen j view member
  cases effect with
  | moved rows seen _ =>
      refine ⟨sound, rows ▸ orderly.distinct, fun j view member => ?_⟩
      by_cases own : j = action.actor
      · subst own
        exact orderly.seen _ view (seen ▸ member)
      · exact elsewhere j own view member
  | ran exec next o here answered rows thread =>
      refine ⟨sound, rows ▸ orderly.distinct, fun j view member => ?_⟩
      by_cases own : j = action.actor
      · subst own
        have clean : (s.threads action.actor).pending = [] := orderly.sound.waits here
        simp only [thread, clean, List.mem_append, List.mem_singleton] at member
        rcases member with old | rfl
        · exact orderly.seen _ view old
        · exact ⟨orderly.sound.inv, orderly.distinct⟩
      · exact elsewhere j own view member
  | committed value next acts here rows thread =>
      have still := free
      rw [acts] at still
      have kept := (orderly.commit here (still (by rw [here]; rfl))).1
      refine ⟨sound, rows ▸ kept, fun j view member => ?_⟩
      by_cases own : j = action.actor
      · subst own
        simp only [thread] at member
        exact orderly.seen _ view member
      · exact elsewhere j own view member

/-- Where the neighbours that a call resolved are still there when it commits, the
positions of each watched list are distinct in every state reached, and every commit puts
its row between its neighbours and keeps the others in order. -/
theorem lists_keep_order (calls : ι → ListCall) {rows : List Row} (unique : UniqueKeys rows)
    (distinct : DistinctLists tasks lists rows)
    (run : System.Reaches (SlotsFree calls tasks lists)
      { rows, threads := fun i => { prog := (calls i).service } } s) :
    DistinctLists tasks lists s.rows ∧
      ∀ i next, (s.threads i).prog = .commit next →
        (calls i).Undisturbed tasks lists (s.threads i).seen (s.threads i).pending s.rows →
          (calls i).Kept tasks lists (s.threads i).seen s.rows
            (applyAll s.rows (s.threads i).pending) := by
  have start : Orderly calls tasks lists
      ({ rows, threads := fun i => { prog := (calls i).service } } :
        System ι Row Key Event Input Error Unit) :=
    ⟨Sound.initial unique fun i => (calls i).verified, distinct, by simp⟩
  have orderly := run.invariant (P := Orderly calls tasks lists)
    (fun orderly free stepped => orderly.step free stepped) start
  exact ⟨orderly.distinct, fun i next here free => (orderly.commit here free).2⟩

end Runs

section Sample

instance (calls : Caller → ListCall) (s : System Caller Row Key Event Input Error Unit)
    (action : Action Caller Input Error) :
    Decidable (SlotsFree calls (fun _ => True) (fun _ => True) s action) :=
  match action with
  | .run i _ => inferInstanceAs (Decidable ((s.threads i).prog.commits = true →
      ∀ view ∈ (s.threads i).seen[(calls i).siblingRead]?, _ ∧ _))
  | .fail .. => inferInstanceAs (Decidable True)

/-- Both move an item behind the first one. -/
def gapCalls : Caller → ListCall
  | .ann => .moveItem "w" "t" "ann" "i3" { afterId := some "i1" }
  | .bob => .moveItem "w" "t" "bob" "i4" { afterId := some "i1" }

def gapItem (id : Id) (position : ℚ) : Row :=
  .checklistItem { id, checklistId := "k", content := "Read", position }

def gapRows : List Row := sampleWorkspace ++ [
  .column { id := "c", boardId := "b", name := "To Do", position := 1000 },
  .task { id := "t", boardId := "b", columnId := "c", title := "Read", position := 1000, createdById := "ann" },
  .checklist { id := "k", taskId := "t", title := "Books", position := 1000 },
  gapItem "i1" 1000, gapItem "i2" 2000, gapItem "i3" 3000, gapItem "i4" 4000]

def gapStart : System Caller Row Key Event Input Error Unit :=
  { rows := gapRows, threads := fun i => { prog := (gapCalls i).service } }

theorem gapRows_distinct : DistinctLists (fun _ => True) (fun _ => True) gapRows := by
  constructor
  · intro g _
    exact Positioning.distinct_of_groups (by decide +kernel) g
  · intro g _
    exact Positioning.distinct_of_groups (by decide +kernel) g

/-- Both moves read the list before either of them writes. -/
def gapOrder : List Caller := List.replicate 3 .ann ++ List.replicate 7 .bob ++ List.replicate 4 .ann

/-- They put their items at the same position. -/
theorem moves_share_position :
    ¬ ∀ (calls : Caller → ListCall) (rows : List Row) (s : System Caller Row Key Event Input Error Unit),
      UniqueKeys rows → DistinctLists (fun _ => True) (fun _ => True) rows →
      System.Reaches (fun _ _ => True)
        { rows, threads := fun i => { prog := (calls i).service } } s →
      DistinctLists (fun _ => True) (fun _ => True) s.rows := by
  intro claim
  have ends : ∃ s, gapStart.runs (turns gapOrder) = some s ∧
      (table s.rows : List ChecklistItem).map (fun item => (item.id, item.checklistId, item.position)) =
        [("i1", "k", 1000), ("i2", "k", 2000), ("i3", "k", 1500), ("i4", "k", 1500)] :=
    ⟨_, rfl, by decide +kernel⟩
  obtain ⟨s, ran, items⟩ := ends
  have distinct := claim gapCalls gapRows s (by decide +kernel) gapRows_distinct
    (.of_runs (fun _ _ => trivial) _ ran)
  have stands : ∀ i, (i, "k", 1500) ∈ [("i1", "k", 1000), ("i2", "k", 2000), ("i3", "k", 1500), ("i4", "k", (1500 : ℚ))] →
      checklistItemPositions.order "k" s.rows i 1500 := by
    intro i listed
    rw [← items] at listed
    obtain ⟨item, member, same⟩ := List.mem_map.mp listed
    simp only [Prod.mk.injEq] at same
    exact Positioning.order_iff.mpr ⟨item, member, same.2.1, same.1, same.2.2⟩
  exact absurd (distinct.2 "k" trivial (stands "i3" (by simp)) (stands "i4" (by simp))) (by decide)

/-- One move after the other. -/
def gapInTurn : Option (System Caller Row Key Event Input Error Unit) :=
  gapStart.runsChecked
    (fun s action => decide (SlotsFree gapCalls (fun _ => True) (fun _ => True) s action))
    (turns (List.replicate 7 .ann ++ List.replicate 7 .bob))

theorem lists_keep_order_in_turn : ∃ s, gapInTurn = some s ∧
    DistinctLists (fun _ => True) (fun _ => True) s.rows := by
  obtain ⟨s, ran⟩ := Option.isSome_iff_exists.mp (show gapInTurn.isSome by decide +kernel)
  have run : System.Reaches (SlotsFree gapCalls (fun _ => True) (fun _ => True)) gapStart s :=
    .of_runsChecked (fun _ _ passed => of_decide_eq_true passed) _ ran
  exact ⟨s, ran, (lists_keep_order gapCalls (by decide +kernel) gapRows_distinct run).1⟩

end Sample

end Kurul
