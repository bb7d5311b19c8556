import Kurul.Sequence.Placement
import Kurul.Store.RelyGuarantee

/-! Ordered lanes in a store that many transactions write to. A row may stand in
one lane at one position; a transaction that brings rows into a lane, or moves
them within it, holds the lane's lock, and anybody may take rows out. Placing a
row among entries read under the lock then survives every departure. -/

namespace Kurul.Sequence

open Store

/-- How rows stand in lanes: the lane, the key within it and the position. -/
structure Lanes (Row Key G κ P : Type) [Keyed Row Key] where
  entry : Row → Option (G × κ × P)
  entryKey : κ → Key
  lock : G → Key
  key_entry : ∀ {row g a p}, entry row = some (g, a, p) → key row = entryKey a
  entry_of_key : ∀ {row a}, key row = entryKey a → ∃ g p, entry row = some (g, a, p)
  lock_ne : ∀ g a, lock g ≠ entryKey a

variable {Row Key G κ P E : Type} [Keyed Row Key]

namespace Lanes

variable (lanes : Lanes Row Key G κ P)

def lane (g : G) (rows : List Row) : Lane κ P := fun a p => ∃ row ∈ rows, lanes.entry row = some (g, a, p)

/-- The rows that lanes are locked by. -/
def LockRow (k : Key) : Prop := ∃ g, k = lanes.lock g

theorem lane_functional {g : G} {rows : List Row} (unique : UniqueKeys rows) :
    (lanes.lane g rows).Functional := by
  rintro a p q ⟨row, member, entered⟩ ⟨row', member', entered'⟩
  have same : row = row' := unique.eq_of_key member member'
    ((lanes.key_entry entered).trans (lanes.key_entry entered').symm)
  subst same
  rw [entered] at entered'
  cases entered'
  rfl

/-- Positions stay distinct in the lanes that are watched; without a lane's lock rows
only leave it. -/
def protocol (watched : G → Prop) (extra : List Row → Prop) : Protocol Row Key where
  inv rows := UniqueKeys rows ∧ (∀ g, watched g → (lanes.lane g rows).Distinct) ∧ extra rows
  rely held before after := Frame lanes.LockRow before after ∧
    ∀ g, (lanes.lock g, .update) ∈ held → ∀ a p, lanes.lane g after a p → lanes.lane g before a p
  guar held before after := Frame lanes.LockRow before after ∧
    ∀ g, (lanes.lock g, .update) ∉ held → ∀ a p, lanes.lane g after a p → lanes.lane g before a p
  narrows := by
    rintro held more before after grown ⟨frame, leaves⟩
    exact ⟨frame, fun g locked => leaves g (grown locked)⟩
  compatible := fun apart _ _ kept => ⟨kept.1, fun g locked => kept.2 g fun theirs =>
    absurd (apart _ locked _ theirs rfl) (by simp [LockMode.conflicts])⟩

variable {lanes} {id : E → κ} {pos : E → P} {L : List E} {g : G} {own : Option κ}
  {moved : Nat → P} {W B : List (Write Row Key)} {rows : List Row}
  {watched : G → Prop} {extra : List Row → Prop}

/-- Where a transaction stands that read the entries `L` of a lane and has written
`W`: whoever is still there was read there, and what `W` does not move is at its
final position already; the entries it did move are still there. -/
structure Around (lanes : Lanes Row Key G κ P) (id : E → κ) (pos : E → P) (L : List E) (g : G)
    (own : Option κ) (moved : Nat → P) (W : List (Write Row Key)) (rows : List Row) : Prop where
  listed : ∀ {a q}, lanes.lane g rows a q → own ≠ some a →
    ∃ (i : Nat) (inside : i < L.length), id L[i] = a ∧ pos L[i] = q ∧
      (lanes.entryKey a ∉ touched W → moved i = q)
  written : ∀ {row g' a p}, Write.put row ∈ W → lanes.entry row = some (g', a, p) → own ≠ some a →
    ∃ q, lanes.lane g rows a q

/-- Writes that put entries into one lane only, at their final positions, and
leave the locked rows alone. -/
def Places (lanes : Lanes Row Key G κ P) (id : E → κ) (L : List E) (g : G) (own : Option κ)
    (position : P) (moved : Nat → P) (W : List (Write Row Key)) : Prop :=
  ∀ write ∈ W, ∃ row, write = .put row ∧
    ((lanes.entry row = none ∧ ¬ lanes.LockRow (key row)) ∨
      ∃ a q, lanes.entry row = some (g, a, q) ∧
        ((own = some a ∧ q = position) ∨
          (own ≠ some a ∧ ∃ (i : Nat) (inside : i < L.length), id L[i] = a ∧ q = moved i)))

/-- What a committed placement does to its lane: the others keep their order, and the
placed entry stands between those before its slot and those after it. -/
structure InOrder [LinearOrder P] (id : E → κ) (L : List E) (k : Nat) (x : κ) (before after : Lane κ P) : Prop where
  others : before.OrderKept x after
  self : ∃ p, after x p
  above : ∀ {i} (inside : i < L.length), i < k → id L[i] ≠ x →
    ∀ {p q}, after (id L[i]) p → after x q → p < q
  below : ∀ {i} (inside : i < L.length), k ≤ i → id L[i] ≠ x →
    ∀ {p q}, after (id L[i]) p → after x q → q < p

theorem Places.append (first : Places lanes id L g own position moved W)
    (second : Places lanes id L g own position moved B) :
    Places lanes id L g own position moved (W ++ B) := by
  intro write member
  obtain left | right := List.mem_append.mp member
  · exact first write left
  · exact second write right

theorem Places.nil : Places lanes id L g own position moved ([] : List (Write Row Key)) :=
  fun _ member => absurd member List.not_mem_nil

/-- Departures and other lanes cannot disturb a transaction that holds the lock. -/
theorem Around.stable {held : Held Key} (locked : (lanes.lock g, .update) ∈ held)
    (owned : ∀ k ∈ touched W, Owns held k) :
    Stable (lanes.protocol watched extra) held (Around lanes id pos L g own moved W) := by
  rintro before after seen ⟨listed, written⟩
  refine ⟨fun stands other => listed (seen.rely.2 g locked _ _ stands) other,
    fun stored entered other => ?_⟩
  obtain ⟨q, row, member, stood⟩ := written stored entered other
  have mine : Owns held (key row) := owned _ (by
    rw [lanes.key_entry stood, ← lanes.key_entry entered]
    exact List.mem_map.mpr ⟨_, stored, rfl⟩)
  exact ⟨q, row, (seen.frame row mine).mp member, stood⟩

/-- Further writes that move every entry, or none. -/
theorem Around.extend {still : Nat → P} (around : Around lanes id pos L g own still W rows)
    (covers : ∀ {a q}, lanes.lane g rows a q → own ≠ some a →
      lanes.entryKey a ∈ touched (W ++ B) ∨ moved = still)
    (stood : ∀ {row g' a p}, Write.put row ∈ B → lanes.entry row = some (g', a, p) →
      own ≠ some a → ∃ q, lanes.lane g rows a q) :
    Around lanes id pos L g own moved (W ++ B) rows where
  listed := by
    intro a q stands other
    obtain ⟨i, inside, same, position, untouched⟩ := around.listed stands other
    refine ⟨i, inside, same, position, fun absent => ?_⟩
    obtain covered | rfl := covers stands other
    · exact absurd covered absent
    · exact untouched fun early => absent (by simp [early])
  written := by
    intro row g' a p stored entered other
    obtain early | late := List.mem_append.mp stored
    · exact around.written early entered other
    · exact stood late entered other

/-- Naming the placed entry asks less of the others. -/
theorem Around.name (around : Around lanes id pos L g none moved W rows) (x : κ) :
    Around lanes id pos L g (some x) moved W rows where
  listed stands _ := around.listed stands (by simp)
  written stored entered _ := around.written stored entered (by simp)

variable [DecidableEq Key]

section Commit

variable {x : κ} {k : Nat} {position : P}

theorem Places.frame (places : Places lanes id L g own position moved W) :
    Frame lanes.LockRow rows (applyAll rows W) := by
  intro row locks
  refine (mem_applyAll_untouched W fun written => ?_).symm
  obtain ⟨write, member, target⟩ := List.mem_map.mp written
  obtain ⟨stored, rfl, ⟨_, other⟩ | ⟨a, q, entered, _⟩⟩ := places write member
  · have same : key stored = key row := target
    exact other (same ▸ locks)
  · obtain ⟨g', lockKey⟩ := locks
    exact lanes.lock_ne g' a (lockKey.symm.trans (target.symm.trans (lanes.key_entry entered)))

/-- In another lane nothing appears. -/
theorem Places.elsewhere (places : Places lanes id L g own position moved W) {g' : G}
    (other : g' ≠ g) {a : κ} {p : P} (stands : lanes.lane g' (applyAll rows W) a p) :
    lanes.lane g' rows a p := by
  obtain ⟨row, member, entered⟩ := stands
  obtain stored | ⟨old, _⟩ := mem_applyAll_cases member
  · obtain ⟨row', same, ⟨absent, _⟩ | ⟨b, q, entered', _⟩⟩ := places _ stored
    · cases same; rw [absent] at entered; contradiction
    · cases same; rw [entered'] at entered; cases entered; exact absurd rfl other
  · exact ⟨row, old, entered⟩

/-- Entries a placement wrote under a key are entries of its lane. -/
theorem Places.stored (places : Places lanes id L g own position moved W) (rows : List Row) {a : κ}
    (mine : lanes.entryKey a ∈ touched W) : ∃ p, lanes.lane g (applyAll rows W) a p := by
  obtain ⟨row, member, _, p, entered⟩ := exists_mem_applyAll rows
    (Q := fun row => ∃ p, lanes.entry row = some (g, a, p)) mine (by
      intro write written target
      obtain ⟨row, rfl, facts⟩ := places write written
      have same : key row = lanes.entryKey a := target
      refine ⟨row, rfl, ?_⟩
      obtain ⟨g', p', entered'⟩ := lanes.entry_of_key same
      obtain ⟨absent, _⟩ | ⟨b, q, entered, _⟩ := facts
      · rw [absent] at entered'; contradiction
      · rw [entered] at entered'
        cases entered'
        exact ⟨_, entered⟩)
  exact ⟨p, row, member, entered⟩

theorem Places.placed (places : Places lanes id L g (some x) position moved W)
    (around : Around lanes id pos L g (some x) moved W rows)
    (keys : (L.map id).Nodup) (mine : lanes.entryKey x ∈ touched W) :
    Placed id pos L position moved x (lanes.lane g rows) (lanes.lane g (applyAll rows W)) where
  others := by
    rintro a q other ⟨row, member, entered⟩
    have different : some x ≠ some a := fun same => other (Option.some.inj same).symm
    obtain stored | ⟨old, untouched⟩ := mem_applyAll_cases member
    · obtain ⟨p, stood⟩ := around.written stored entered different
      obtain ⟨j, insideJ, sameJ, positionJ, _⟩ := around.listed stood different
      obtain ⟨row', same, ⟨absent, _⟩ | ⟨b, q', entered', facts⟩⟩ := places _ stored
      · cases same; rw [absent] at entered; contradiction
      · cases same
        rw [entered'] at entered
        cases entered
        obtain ⟨self, _⟩ | ⟨_, i, inside, keyI, final⟩ := facts
        · exact absurd self different
        · obtain rfl := index_eq keys inside insideJ (keyI.trans sameJ.symm)
          exact ⟨i, inside, keyI, positionJ ▸ stood, final⟩
    · obtain ⟨i, inside, same, stood, rests⟩ := around.listed ⟨row, old, entered⟩ different
      have absent : lanes.entryKey a ∉ touched W := lanes.key_entry entered ▸ untouched
      exact ⟨i, inside, same, stood ▸ ⟨row, old, entered⟩, (rests absent).symm⟩
  stays := by
    rintro a p other ⟨row, member, entered⟩
    by_cases written : lanes.entryKey a ∈ touched W
    · exact places.stored rows written
    · exact ⟨p, row, (mem_applyAll_untouched W (lanes.key_entry entered ▸ written)).mpr member,
        entered⟩
  self := by
    rintro q ⟨row, member, entered⟩
    obtain stored | ⟨_, untouched⟩ := mem_applyAll_cases member
    · obtain ⟨row', same, ⟨absent, _⟩ | ⟨b, q', entered', facts⟩⟩ := places _ stored
      · cases same; rw [absent] at entered; contradiction
      · cases same
        rw [entered'] at entered
        cases entered
        obtain ⟨_, final⟩ | ⟨other, _⟩ := facts
        · exact final
        · exact absurd rfl other
    · exact absurd (lanes.key_entry entered ▸ mine) untouched

/-- A placement written under its lane's lock can be committed, and in a watched lane
it keeps the order. -/
theorem Places.commit [LinearOrder P] (places : Places lanes id L g (some x) position moved W)
    (around : Around lanes id pos L g (some x) moved W rows) (keys : (L.map id).Nodup)
    (fits : watched g → Ordered id pos L ∧ Spread L.length k position moved)
    (mine : lanes.entryKey x ∈ touched W) (inv : (lanes.protocol watched extra).inv rows)
    (kept : extra (applyAll rows W)) {held : Held Key} (locked : (lanes.lock g, .update) ∈ held) :
    (lanes.protocol watched extra).inv (applyAll rows W) ∧
      (lanes.protocol watched extra).guar held rows (applyAll rows W) ∧
      (watched g → InOrder id L k x (lanes.lane g rows) (lanes.lane g (applyAll rows W))) := by
  have placed := places.placed around keys mine
  refine ⟨⟨inv.1.applyAll W, fun g' looked => ?_, kept⟩,
    ⟨places.frame, fun g' free a p stands => ?_⟩, fun looked => ?_⟩
  · by_cases same : g' = g
    · subst same; exact placed.distinct (fits looked).2
    · intro a b p left right
      exact inv.2.1 g' looked (places.elsewhere same left) (places.elsewhere same right)
  · by_cases same : g' = g
    · subst same; exact absurd locked free
    · exact places.elsewhere same stands
  · obtain ⟨ordered, spread⟩ := fits looked
    exact ⟨placed.orderKept spread ordered (lanes.lane_functional inv.1), places.stored rows mine,
      fun inside less other _ _ there self => placed.below spread ordered inside less other there self,
      fun inside later other _ _ there self => placed.above spread ordered inside later other there self⟩

end Commit

/-- A write that brings nothing into a lane and leaves the locked rows alone. -/
def Silent (lanes : Lanes Row Key G κ P) : Write Row Key → Prop
  | .del k => ¬ lanes.LockRow k
  | .put row => lanes.entry row = none ∧ ¬ lanes.LockRow (key row)

/-- Writes that are silent or put one of the listed entries into the lane. -/
def Fills (lanes : Lanes Row Key G κ P) (g : G) (items : List (κ × P)) (W : List (Write Row Key)) :
    Prop :=
  ∀ write ∈ W, lanes.Silent write ∨
    ∃ row a p, write = .put row ∧ lanes.entry row = some (g, a, p) ∧ (a, p) ∈ items

section Fill

variable {items : List (κ × P)}

omit [DecidableEq Key] in
theorem Fills.of_silent (silent : ∀ write ∈ W, lanes.Silent write) (g : G) :
    lanes.Fills g items W :=
  fun write member => Or.inl (silent write member)

theorem Fills.frame (fills : lanes.Fills g items W) : Frame lanes.LockRow rows (applyAll rows W) := by
  intro row locks
  refine (mem_applyAll_untouched W fun written => ?_).symm
  obtain ⟨write, member, target⟩ := List.mem_map.mp written
  obtain silent | ⟨row', a, p, rfl, entered, _⟩ := fills write member
  · cases write with
    | del k => exact silent (by rw [← target] at locks; exact locks)
    | put row' => exact silent.2 (by rw [← target] at locks; exact locks)
  · obtain ⟨g', lockKey⟩ := locks
    exact lanes.lock_ne g' a (lockKey.symm.trans (target.symm.trans (lanes.key_entry entered)))

/-- An entry seen afterwards was there before or was put there. -/
theorem Fills.filled (fills : lanes.Fills g items W) {g' : G} {a : κ} {p : P}
    (stands : lanes.lane g' (applyAll rows W) a p) :
    lanes.lane g' rows a p ∨ (g' = g ∧ (a, p) ∈ items) := by
  obtain ⟨row, member, entered⟩ := stands
  obtain stored | ⟨old, _⟩ := mem_applyAll_cases member
  · obtain silent | ⟨row', b, q, same, entered', listed⟩ := fills _ stored
    · have absent : lanes.entry row = none := silent.1
      rw [absent] at entered
      contradiction
    · cases same
      rw [entered'] at entered
      cases entered
      exact Or.inr ⟨rfl, listed⟩
  · exact Or.inl ⟨row, old, entered⟩

/-- An empty lane can be filled under its lock, at distinct positions. -/
theorem Fills.commit {held : Held Key} (fills : lanes.Fills g items W)
    (apart : ∀ x ∈ items, ∀ y ∈ items, x.2 = y.2 → x.1 = y.1)
    (empty : ∀ a p, ¬ lanes.lane g rows a p) (inv : (lanes.protocol watched extra).inv rows)
    (kept : extra (applyAll rows W)) (locked : (lanes.lock g, .update) ∈ held) :
    (lanes.protocol watched extra).inv (applyAll rows W) ∧
      (lanes.protocol watched extra).guar held rows (applyAll rows W) := by
  refine ⟨⟨inv.1.applyAll W, fun g' looked a b p left right => ?_, kept⟩, fills.frame,
    fun g' free a p stands => ?_⟩
  · obtain old | ⟨same, listed⟩ := fills.filled left
    · obtain old' | ⟨same', _⟩ := fills.filled right
      · exact inv.2.1 g' looked old old'
      · exact absurd old (same' ▸ empty _ _)
    · obtain old' | ⟨_, listed'⟩ := fills.filled right
      · exact absurd old' (same ▸ empty _ _)
      · exact apart _ listed _ listed' rfl
  · obtain old | ⟨rfl, _⟩ := fills.filled stands
    · exact old
    · exact absurd locked free

/-- After silent writes every entry is one that was there before. -/
theorem departs (silent : ∀ write ∈ W, lanes.Silent write) {g : G} {a : κ} {p : P}
    (stands : lanes.lane g (applyAll rows W) a p) : lanes.lane g rows a p := by
  have nothing : lanes.Fills g [] W := Fills.of_silent silent g
  obtain old | ⟨_, listed⟩ := nothing.filled stands
  · exact old
  · exact absurd listed List.not_mem_nil

theorem frame_silent (silent : ∀ write ∈ W, lanes.Silent write) (g : G) :
    Frame lanes.LockRow rows (applyAll rows W) :=
  Fills.frame (Fills.of_silent silent g : lanes.Fills g [] W)

/-- They can be committed under any locks. -/
theorem commit_silent {held : Held Key} (silent : ∀ write ∈ W, lanes.Silent write) (g : G)
    (inv : (lanes.protocol watched extra).inv rows) (kept : extra (applyAll rows W)) :
    (lanes.protocol watched extra).inv (applyAll rows W) ∧
      (lanes.protocol watched extra).guar held rows (applyAll rows W) :=
  ⟨⟨inv.1.applyAll W, fun g looked _ _ _ left right => inv.2.1 g looked
    (departs silent left) (departs silent right), kept⟩,
    frame_silent silent g, fun _ _ _ _ stands => departs silent stands⟩

end Fill

end Lanes
end Kurul.Sequence
