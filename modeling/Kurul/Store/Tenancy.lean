import Kurul.Store.Referential
import Kurul.Store.Sequential

/-! Rows of several tenants in one database. A row names its tenant, or is its parent's
tenant's, or nobody's. Where no reference is dangling and none leads from one tenant to
another, a tenant's statements keep it so and leave the rows of the others alone. -/

namespace Kurul.Store

/-- Whose a row is, as far as the row itself tells. -/
inductive Home (Tenant Key : Type) where
  | shared
  | tenant (w : Tenant)
  | parent (k : Key)
  deriving DecidableEq

/-- Rows with owners. A parent is one of the referenced rows, and further up. -/
class Tenanted (Row : Type) (Key : outParam Type) (Tenant : outParam Type) [Relational Row Key] where
  home : Row → Home Tenant Key
  depth : Row → Nat
  home_ref : ∀ (row : Row) k, home row = .parent k → ∃ ref ∈ refs row, ref.target = k
  depth_key : ∀ a b : Row, key a = key b → depth a = depth b
  home_depth : ∀ row parent : Row, home row = .parent (key parent) → depth parent < depth row
  home_parent : ∀ row parent : Row, home row = .parent (key parent) → home parent ≠ .shared
  home_key : ∀ a b : Row, key a = key b → home b ≠ .shared → home a ≠ .shared
  home_unset : ∀ k (row : Row), home (unset k row) = home row
  refs_unset : ∀ k (row : Row), ∀ ref ∈ refs (unset k row),
    ref ∈ refs row ∧ ¬ (ref.onDelete = .setNull ∧ ref.target = k)

export Tenanted (home depth)

variable {Row Key T : Type} [Relational Row Key] [Tenanted Row Key T]

/-- The row is the tenant's: by itself, or its parent is. -/
inductive Of (w : T) (rows : List Row) : Row → Prop where
  | own {row : Row} : home row = .tenant w → Of w rows row
  | inherits {row parent : Row} : home row = .parent (key parent) → parent ∈ rows → Of w rows parent → Of w rows row

/-- Keys are unique, and no reference is dangling. -/
structure Intact (rows : List Row) : Prop where
  unique : UniqueKeys rows
  whole : ∀ row ∈ rows, ∀ ref ∈ refs row, ∃ parent ∈ rows, key parent = ref.target

/-- Besides, no reference leads from one tenant's row to another's. -/
structure Coherent (rows : List Row) : Prop extends Intact rows where
  confined : ∀ row ∈ rows, ∀ ref ∈ refs row, ∀ parent ∈ rows, key parent = ref.target →
    ∀ w : T, Of w rows parent → Of w rows row

/-- A row of this key is nobody else's. -/
def Near (w : T) (rows : List Row) (k : Key) : Prop := ∀ row ∈ rows, key row = k → ∀ w', Of w' rows row → w' = w

/-- The rows that come and go are the tenant's. -/
structure Moves (w : T) (before after : List Row) : Prop where
  come : ∀ row ∈ after, row ∉ before → Of w after row
  go : ∀ row ∈ before, row ∉ after → Of w before row

variable {w w' : T} {rows before after last : List Row} {row parent : Row} {k : Key}

theorem Of.beneath (parent : Row) (here : home row = .parent (key parent)) (member : parent ∈ rows)
    (mine : Of w rows parent) :
    Of w rows row := .inherits here member mine

theorem Of.owned (mine : Of w rows row) : home row ≠ .shared := by
  cases mine with
  | own here => simp [here]
  | inherits here => simp [here]

theorem Of.only (unique : UniqueKeys rows) (one : Of w rows row) (other : Of w' rows row) : w' = w := by
  induction one with
  | own here =>
      cases other with
      | own there => simpa [here, eq_comm] using there
      | inherits there => simp [here] at there
  | inherits here member _ ih =>
      cases other with
      | own there => simp [here] at there
      | inherits there member' inherited =>
          have same := unique.eq_of_key member member' (by simpa [here] using there)
          exact ih (same ▸ inherited)

namespace Intact

/-- A row's parent is there. -/
theorem parented (intact : Intact rows) (member : row ∈ rows) (here : home row = .parent k) :
    ∃ parent ∈ rows, key parent = k := by
  obtain ⟨ref, listed, rfl⟩ := Tenanted.home_ref row k here
  exact intact.whole row member ref listed

/-- Up the chain of parents there is a tenant. -/
theorem tenant (intact : Intact rows) (member : row ∈ rows) (owned : home row ≠ .shared) : ∃ w : T, Of w rows row := by
  induction d : depth row using Nat.strong_induction_on generalizing row with
  | _ d ih =>
      subst d
      cases here : (home row : Home T Key) with
      | shared => exact absurd here owned
      | tenant w => exact ⟨w, .own here⟩
      | parent k =>
          obtain ⟨parent, stored, rfl⟩ := intact.parented member here
          obtain ⟨w, inherited⟩ :=
            ih _ (Tenanted.home_depth row parent here) stored (Tenanted.home_parent row parent here) rfl
          exact ⟨w, .inherits here stored inherited⟩

end Intact

/-- Where all rows tell whose they are, references stay inside where they name the same tenant. -/
theorem Intact.coherent (intact : Intact rows) (named : ∀ row ∈ rows, ∀ ref ∈ refs row, ∀ parent ∈ rows,
    key parent = ref.target → home parent = .shared ∨ home parent = home row)
    (told : ∀ row ∈ rows, ∀ ref ∈ refs row, home row ≠ .parent ref.target) : Coherent rows where
  toIntact := intact
  confined row member ref listed parent stored target w theirs := by
    rcases named row member ref listed parent stored target with shared | same
    · exact absurd shared theirs.owned
    · cases theirs with
      | own here => exact .own (same ▸ here)
      | inherits here _ _ =>
          obtain ⟨up, found, goal⟩ := Tenanted.home_ref row _ (same ▸ here)
          exact absurd (goal ▸ same ▸ here) (told row member up found)

/-- A row with an owner under a key of the tenant's is the tenant's. -/
theorem Near.of (near : Near w rows (key row)) (intact : Intact rows) (member : row ∈ rows)
    (owned : home row ≠ .shared) : Of w rows row := by
  obtain ⟨w', theirs⟩ := intact.tenant member owned
  exact near row member rfl w' theirs ▸ theirs

theorem Of.near (mine : Of w rows row) (unique : UniqueKeys rows) (member : row ∈ rows) : Near w rows (key row) := by
  intro other stored same w' theirs
  cases unique.eq_of_key stored member same
  exact mine.only unique theirs

namespace Moves

theorem refl (w : T) (rows : List Row) : Moves w rows rows where
  come _ member absent := absurd member absent
  go _ member absent := absurd member absent

/-- What stays is whose it was. -/
theorem forward (moves : Moves w before after) (intactBefore : Intact before) (intactAfter : Intact after)
    (theirs : Of w' before row) (stays : row ∈ after) : Of w' after row := by
  induction theirs with
  | own here => exact .own here
  | @inherits row parent here member inherited ih =>
      obtain ⟨next, stored, same⟩ := intactAfter.parented stays here
      by_cases old : next ∈ before
      · cases intactBefore.unique.eq_of_key old member same
        exact .inherits here stored (ih stored)
      · have gone : parent ∉ after := by
          intro there
          cases intactAfter.unique.eq_of_key stored there same
          exact old member
        cases (moves.go parent member gone).only intactBefore.unique inherited
        exact .inherits (same ▸ here) stored (moves.come next stored old)

theorem back (moves : Moves w before after) (intactBefore : Intact before) (intactAfter : Intact after)
    (theirs : Of w' after row) (stays : row ∈ after) (old : row ∈ before) : Of w' before row := by
  obtain ⟨w'', earlier⟩ := intactBefore.tenant old theirs.owned
  cases theirs.only intactAfter.unique (moves.forward intactBefore intactAfter earlier stays)
  exact earlier

theorem near (moves : Moves w before after) (intactBefore : Intact before) (intactAfter : Intact after)
    (near : Near w before k) : Near w after k := by
  intro row member same w' theirs
  by_cases old : row ∈ before
  · exact near row old same w' (moves.back intactBefore intactAfter theirs member old)
  · exact (moves.come row member old).only intactAfter.unique theirs

/-- What is nobody else's at the end has not been before. -/
theorem near_back (moves : Moves w before after) (intactBefore : Intact before) (intactAfter : Intact after)
    (near : Near w after k) : Near w before k := by
  intro row member same w' theirs
  by_cases stays : row ∈ after
  · exact near row stays same w' (moves.forward intactBefore intactAfter theirs stays)
  · exact (moves.go row member stays).only intactBefore.unique theirs

theorem trans (first : Moves w before rows) (second : Moves w rows after) (intactBefore : Intact before)
    (intact : Intact rows) (intactAfter : Intact after) : Moves w before after where
  come row member absent := by
    by_cases between : row ∈ rows
    · exact second.forward intact intactAfter (first.come row between absent) member
    · exact second.come row member between
  go row member absent := by
    by_cases between : row ∈ rows
    · exact first.back intactBefore intact (second.go row between absent) between member
    · exact first.go row member between

/-- The rows of the others are as before. -/
theorem others (moves : Moves w before after) (intactBefore : Intact before) (intactAfter : Intact after)
    (other : w' ≠ w) : (row ∈ after ∧ Of w' after row) ↔ (row ∈ before ∧ Of w' before row) := by
  constructor
  · rintro ⟨member, theirs⟩
    have old : row ∈ before := by
      by_contra absent
      exact other ((moves.come row member absent).only intactAfter.unique theirs)
    exact ⟨old, moves.back intactBefore intactAfter theirs member old⟩
  · rintro ⟨member, theirs⟩
    have stays : row ∈ after := by
      by_contra absent
      exact other ((moves.go row member absent).only intactBefore.unique theirs)
    exact ⟨stays, moves.forward intactBefore intactAfter theirs stays⟩

/-- What is nobody's is as before. -/
theorem unowned (moves : Moves w before after) (shared : home row = .shared) : row ∈ after ↔ row ∈ before := by
  constructor
  · intro member
    by_contra absent
    exact (moves.come row member absent).owned shared
  · intro member
    by_contra absent
    exact (moves.go row member absent).owned shared

/-- References stay inside where those of the new rows do. -/
theorem coherent (moves : Moves w before after) (coherent : Coherent before) (intact : Intact after)
    (inside : ∀ row ∈ after, row ∉ before → ∀ ref ∈ refs row, Near w after ref.target) : Coherent after where
  toIntact := intact
  confined row member ref listed parent stored target w' theirs := by
    by_cases old : row ∈ before
    · by_cases earlier : parent ∈ before
      · have mine := coherent.confined row old ref listed parent earlier target w'
          (moves.back coherent.toIntact intact theirs stored earlier)
        exact moves.forward coherent.toIntact intact mine member
      · cases (moves.come parent stored earlier).only intact.unique theirs
        obtain ⟨previous, there, same⟩ := coherent.whole row old ref listed
        have gone : previous ∉ after := by
          intro stays
          cases intact.unique.eq_of_key stays stored (same.trans target.symm)
          exact earlier there
        have mine := coherent.confined row old ref listed previous there same w (moves.go previous there gone)
        exact moves.forward coherent.toIntact intact mine member
    · cases inside row member old ref listed parent stored target w' theirs
      exact moves.come row member old

end Moves

/-- A step of the tenant's: the rows stay coherent, and only its own come and go. -/
structure Keeps (w : T) (before after : List Row) : Prop where
  coherent : Coherent after
  moves : Moves w before after

theorem Keeps.refl (coherent : Coherent rows) : Keeps w rows rows := ⟨coherent, .refl w rows⟩

theorem Keeps.trans (soundBefore : Coherent before) (first : Keeps w before rows) (second : Keeps w rows after) :
    Keeps w before after where
  coherent := second.coherent
  moves := first.moves.trans second.moves soundBefore.toIntact first.coherent.toIntact second.coherent.toIntact

theorem Keeps.near (keeps : Keeps w before after) (coherent : Coherent before) (near : Near w before k) : Near w after k :=
  keeps.moves.near coherent.toIntact keeps.coherent.toIntact near

variable [DecidableEq Key]

/-- A row that is the tenant's to store: under a key of its own, with references to rows of its own. -/
structure Fits (w : T) (rows : List Row) (row : Row) : Prop where
  owned : home row ≠ .shared
  mine : ∀ w', home row = .tenant w' → w' = w
  free : Near w rows (key row)
  refs : ∀ ref ∈ refs row, (∃ parent ∈ rows, key parent = ref.target) ∧ Near w rows ref.target

theorem mem_put {other : Row} : other ∈ Write.apply rows (.put row) ↔ other = row ∨
    (other ∈ rows ∧ key other ≠ key row) := by
  rw [mem_apply]
  by_cases same : key row = key other
  · simp [Write.target, Write.value, same, eq_comm]
  · have different : other ≠ row := fun equal => same (congrArg key equal).symm
    simp [Write.target, same, different, Ne.symm same]

theorem Coherent.put (coherent : Coherent rows) (fits : Fits w rows row) : Keeps w rows (Write.apply rows (.put row)) := by
  have intact : Intact (Write.apply rows (.put row)) := by
    refine ⟨coherent.unique.apply _, fun other member ref listed => ?_⟩
    have earlier : ∃ parent ∈ rows, key parent = ref.target := by
      rcases mem_put.mp member with rfl | ⟨old, _⟩
      · exact (fits.refs ref listed).1
      · exact coherent.whole other old ref listed
    obtain ⟨parent, stored, same⟩ := earlier
    by_cases replaced : key parent = key row
    · exact ⟨row, mem_put.mpr (.inl rfl), by rw [← same, replaced]⟩
    · exact ⟨parent, mem_put.mpr (.inr ⟨stored, replaced⟩), same⟩
  -- Further up than the new row, all is as before.
  have above : ∀ {other : Row}, Of w rows other → depth other < depth row → Of w (Write.apply rows (.put row)) other := by
    intro other theirs higher
    induction theirs with
    | own here => exact .own here
    | @inherits other parent here stored _ ih =>
        have lower := Tenanted.home_depth other parent here
        refine .inherits here (mem_put.mpr (.inr ⟨stored, fun same => ?_⟩)) (ih (lower.trans higher))
        exact absurd (Tenanted.depth_key parent row same) (lower.trans higher).ne
  have mine : Of w (Write.apply rows (.put row)) row := by
    cases here : (home row : Home T Key) with
    | shared => exact absurd here fits.owned
    | tenant w' =>
        cases fits.mine w' here
        exact .own here
    | parent k =>
        obtain ⟨ref, listed, rfl⟩ := Tenanted.home_ref row k here
        obtain ⟨⟨parent, stored, same⟩, near⟩ := fits.refs ref listed
        rw [← same] at here near
        have lower := Tenanted.home_depth row parent here
        have theirs := near.of coherent.toIntact stored (Tenanted.home_parent row parent here)
        refine .inherits here (mem_put.mpr (.inr ⟨stored, fun same => ?_⟩)) (above theirs lower)
        exact absurd (Tenanted.depth_key parent row same) lower.ne
  have moves : Moves w rows (Write.apply rows (.put row)) := by
    constructor
    · intro other member absent
      rcases mem_put.mp member with rfl | ⟨old, _⟩
      · exact mine
      · exact absurd old absent
    · intro other member absent
      have same : key other = key row := by
        by_contra different
        exact absent (mem_put.mpr (.inr ⟨member, different⟩))
      exact (same ▸ fits.free : Near w rows (key other)).of coherent.toIntact member
        (Tenanted.home_key other row same fits.owned)
  refine ⟨moves.coherent coherent intact fun other member absent ref listed => ?_, moves⟩
  rcases mem_put.mp member with rfl | ⟨old, _⟩
  · exact moves.near coherent.toIntact intact (fits.refs ref listed).2
  · exact absurd old absent

omit [DecidableEq Key] in
/-- A row that refers to an owned row of the tenant's is the tenant's. -/
theorem Near.child {row : Row} {ref : Reference Key} (near : Near w rows ref.target) (coherent : Coherent rows)
    (stored : row ∈ rows) (listed : ref ∈ refs row)
    (owned : ∀ parent : Row, key parent = ref.target → home parent ≠ .shared) : Of w rows row := by
  obtain ⟨parent, there, target⟩ := coherent.whole row stored ref listed
  rw [← target] at near
  exact coherent.confined row stored ref listed parent there target w
    (near.of coherent.toIntact there (owned parent target))

omit [DecidableEq Key] in
/-- What the tenant's rows refer to is nobody else's. -/
theorem Of.refs {row : Row} {ref : Reference Key} (mine : Of w rows row) (coherent : Coherent rows) (stored : row ∈ rows)
    (listed : ref ∈ refs row) : Near w rows ref.target := by
  intro parent there target w' theirs
  exact mine.only coherent.unique (coherent.confined row stored ref listed parent there target w' theirs)

theorem Fits.put {row other : Row} (fits : Fits w rows row) (coherent : Coherent rows)
    (keeps : Keeps w rows (Write.apply rows (.put other))) :
    Fits w (Write.apply rows (.put other)) row where
  owned := fits.owned
  mine := fits.mine
  free := keeps.near coherent fits.free
  refs ref listed := by
    obtain ⟨⟨parent, stored, target⟩, near⟩ := fits.refs ref listed
    refine ⟨?_, keeps.near coherent near⟩
    by_cases replaced : key parent = key other
    · exact ⟨other, mem_put.mpr (.inl rfl), by rw [← target, replaced]⟩
    · exact ⟨parent, mem_put.mpr (.inr ⟨stored, replaced⟩), target⟩

/-- Rows of the tenant's stored one after the other. -/
theorem puts_keep {stored : List Row} (coherent : Coherent rows) (fits : ∀ row ∈ stored, Fits w rows row) :
    Keeps w rows (applyAll rows (stored.map .put)) := by
  induction stored generalizing rows with
  | nil => exact .refl coherent
  | cons row rest ih =>
      have first := coherent.put (fits row List.mem_cons_self)
      refine first.trans coherent (ih first.coherent fun other member => ?_)
      exact (fits other (List.mem_cons_of_mem _ member)).put coherent first

section Deletions

theorem mem_children {keys : List Key} : k ∈ children rows keys ↔
    ∃ row ∈ rows, key row = k ∧ ∃ ref ∈ refs row, ref.onDelete = .cascade ∧ ref.target ∈ keys := by
  simp only [children, List.mem_map, List.mem_filter, List.any_eq_true, Bool.and_eq_true, decide_eq_true_eq,
    List.contains_iff_mem]
  constructor
  · rintro ⟨row, ⟨stored, child⟩, rfl⟩
    exact ⟨row, stored, rfl, child⟩
  · rintro ⟨row, stored, rfl, child⟩
    exact ⟨row, ⟨stored, child⟩, rfl⟩

theorem reached_stable {keys : List Key} (closed : ∀ k ∈ children rows keys, k ∈ keys) (n : Nat) :
    reached rows keys n = keys := by
  have nothing : (children rows keys).filter (fun k => k ∉ keys) = [] := by simpa using closed
  induction n with
  | zero => rfl
  | succ n ih => rw [reached, nothing, List.append_nil, ih]

/-- With a round for every row left, the rounds come to an end. -/
theorem reached_closed {n : Nat} {keys : List Key} (rounds : (rows.filter fun row => key row ∉ keys).length ≤ n) :
    ∀ k ∈ children rows (reached rows keys n), k ∈ reached rows keys n := by
  induction n generalizing keys with
  | zero =>
      intro k member
      obtain ⟨row, stored, rfl, _⟩ := mem_children.mp member
      have none := List.eq_nil_of_length_eq_zero (Nat.le_zero.mp rounds)
      have named := List.filter_eq_nil_iff.mp none row stored
      simpa [reached] using named
  | succ n ih =>
      by_cases closed : ∀ k ∈ children rows keys, k ∈ keys
      · rw [reached_stable closed]
        exact closed
      · push Not at closed
        obtain ⟨k, member, new⟩ := closed
        obtain ⟨row, stored, rfl, _⟩ := mem_children.mp member
        apply ih
        have narrower : (rows.filter fun row => key row ∉ keys ++ (children rows keys).filter fun k => k ∉ keys) =
            (rows.filter fun row => key row ∉ keys).filter fun row => key row ∉ children rows keys := by
          rw [List.filter_filter]
          apply List.filter_congr
          intro other _
          by_cases named : key other ∈ keys <;> simp [named]
        rw [narrower]
        apply Nat.le_of_lt_succ (lt_of_lt_of_le _ rounds)
        apply List.length_filter_lt_length_iff_exists.mpr
        exact ⟨row, List.mem_filter.mpr ⟨stored, by simpa using new⟩, by simpa using member⟩

/-- A deletion takes along all that cascades from what it deletes. -/
theorem cascade_closed {keys : List Key} {ref : Reference Key} (stored : row ∈ rows) (listed : ref ∈ refs row)
    (cascades : ref.onDelete = .cascade) (doomed : ref.target ∈ cascade rows keys) : key row ∈ cascade rows keys :=
  reached_closed (List.length_filter_le _ _) _ (mem_children.mpr ⟨row, stored, rfl, ref, listed, cascades, doomed⟩)

theorem orphaned_key {doomed : List Key} {old : Row} {write : Write Row Key} (emitted : orphaned doomed old = some write) :
    ∃ row, write = .put row ∧ key row = key old := by
  unfold orphaned at emitted
  split at emitted
  · contradiction
  · cases emitted
    exact ⟨_, rfl, key_foldl_unset _ _⟩

/-- The reference is set to null with the deletion of these. -/
def Reference.Dangles (doomed : List Key) (ref : Reference Key) : Prop := ref.onDelete = .setNull ∧ ref.target ∈ doomed

omit [DecidableEq Key] in
theorem unset_all (dangling : List (Reference Key)) (row : Row) :
    (home (dangling.foldl (fun row ref => unset ref.target row) row) : Home T Key) = home row ∧
      ∀ ref ∈ refs (dangling.foldl (fun row ref => unset ref.target row) row),
        ref ∈ refs row ∧ ∀ gone ∈ dangling, ¬ (ref.onDelete = .setNull ∧ ref.target = gone.target) := by
  induction dangling generalizing row with
  | nil => exact ⟨rfl, fun ref listed => ⟨listed, by simp⟩⟩
  | cons gone rest ih =>
      obtain ⟨same, left⟩ := ih (unset gone.target row)
      refine ⟨same.trans (Tenanted.home_unset _ _), fun ref listed => ?_⟩
      obtain ⟨before, later⟩ := left ref listed
      obtain ⟨first, kept⟩ := Tenanted.refs_unset gone.target row ref before
      refine ⟨first, fun other member => ?_⟩
      rcases List.mem_cons.mp member with rfl | member
      · exact kept
      · exact later other member

/-- What a deletion leaves of a row that is not deleted itself. -/
structure Leaves (doomed : List Key) (old row : Row) : Prop where
  key : key row = key old
  home : (home row : Home T Key) = home old
  refs : ∀ ref ∈ refs row, ref ∈ refs old ∧ ¬ ref.Dangles doomed
  changed : row ≠ old → ∃ ref ∈ Relational.refs old, ref.Dangles doomed

theorem orphaned_leaves {doomed : List Key} {old : Row} {write : Write Row Key}
    (emitted : orphaned doomed old = some write) :
    ∃ row, write = .put row ∧ Leaves doomed old row := by
  unfold orphaned at emitted
  split at emitted
  · contradiction
  · rename_i nonempty
    cases emitted
    obtain ⟨same, left⟩ :=
      unset_all ((refs old).filter fun ref => ref.onDelete = .setNull && doomed.contains ref.target) old
    refine ⟨_, rfl, key_foldl_unset _ _, same, fun ref listed => ?_, fun _ => ?_⟩
    · obtain ⟨before, kept⟩ := left ref listed
      refine ⟨before, fun ⟨sets, gone⟩ => ?_⟩
      exact kept ref (List.mem_filter.mpr ⟨before, by simp [sets, gone]⟩) ⟨sets, rfl⟩
    · obtain ⟨ref, member⟩ := List.exists_mem_of_ne_nil _ nonempty
      obtain ⟨listed, dangles⟩ := List.mem_filter.mp member
      rw [Bool.and_eq_true, decide_eq_true_eq, List.contains_iff_mem] at dangles
      exact ⟨ref, listed, dangles⟩

theorem leaves_self {doomed : List Key} {old : Row} (quiet : orphaned doomed old = none) : Leaves doomed old old where
  key := rfl
  home := rfl
  refs ref listed := by
    refine ⟨listed, fun dangles => ?_⟩
    unfold orphaned at quiet
    split at quiet
    · rename_i empty
      have member : ref ∈ (Relational.refs old).filter fun ref => ref.onDelete = .setNull && doomed.contains ref.target :=
        List.mem_filter.mpr ⟨listed, by simp [dangles.1, dangles.2]⟩
      rw [empty] at member
      contradiction
    · contradiction
  changed different := absurd rfl different

variable {keys : List Key}

theorem of_delete (member : row ∈ applyAll rows (deletion rows (cascade rows keys))) :
    ∃ old ∈ rows, key old ∉ cascade rows keys ∧ Leaves (cascade rows keys) old row := by
  rcases mem_applyAll_cases member with written | ⟨old, untouched⟩
  · obtain ⟨_, _, same⟩ | ⟨old, stored, stays, emitted⟩ := mem_deletion written
    · contradiction
    · obtain ⟨left, same, leaves⟩ := orphaned_leaves emitted
      cases same
      exact ⟨old, stored, stays, leaves⟩
  · have stays : key row ∉ cascade rows keys := by
      intro doomed
      have removed : Write.del (key row) ∈ deletion rows (cascade rows keys) := by
        refine List.mem_append_left _ (List.mem_map_of_mem (List.mem_filter.mpr ⟨doomed, ?_⟩))
        simpa using ⟨row, old, rfl⟩
      exact untouched (List.mem_map_of_mem (f := Write.target) removed)
    refine ⟨row, old, stays, leaves_self ?_⟩
    cases emitted : orphaned (cascade rows keys) row with
    | none => rfl
    | some write =>
        have written : write ∈ deletion rows (cascade rows keys) :=
          List.mem_append_right _ (List.mem_filterMap.mpr ⟨row, List.mem_filter.mpr ⟨old, by simpa using stays⟩, emitted⟩)
        obtain ⟨left, rfl, same⟩ := orphaned_key emitted
        exact absurd (same ▸ List.mem_map_of_mem (f := Write.target) written) untouched

/-- A row that is neither deleted nor loses a reference stays. -/
theorem delete_keeps (unique : UniqueKeys rows) (stored : row ∈ rows) (stays : key row ∉ cascade rows keys)
    (quiet : orphaned (cascade rows keys) row = none) : row ∈ applyAll rows (deletion rows (cascade rows keys)) := by
  refine (mem_applyAll_untouched _ fun written => ?_).mpr stored
  obtain ⟨write, member, same⟩ := List.mem_map.mp written
  obtain ⟨k, doomed, rfl⟩ | ⟨old, there, _, emitted⟩ := mem_deletion member
  · exact stays (same ▸ doomed)
  · obtain ⟨left, rfl, equal⟩ := orphaned_key emitted
    cases unique.eq_of_key there stored (equal.symm.trans same)
    rw [quiet] at emitted
    contradiction

/-- A row that is not deleted leaves one under its key. -/
theorem delete_leaves (unique : UniqueKeys rows) (stored : row ∈ rows) (stays : key row ∉ cascade rows keys) :
    ∃ left ∈ applyAll rows (deletion rows (cascade rows keys)), key left = key row := by
  cases emitted : orphaned (cascade rows keys) row with
  | none => exact ⟨row, delete_keeps unique stored stays emitted, rfl⟩
  | some write =>
      obtain ⟨left, rfl, equal⟩ := orphaned_key emitted
      have written : Write.put left ∈ deletion rows (cascade rows keys) := by
        refine List.mem_append_right _ (List.mem_filterMap.mpr ⟨row, List.mem_filter.mpr ⟨stored, ?_⟩, emitted⟩)
        simpa using stays
      have target : key row ∈ touched (deletion rows (cascade rows keys)) :=
        equal ▸ List.mem_map_of_mem (f := Write.target) written
      obtain ⟨last, member, same, _⟩ := exists_mem_applyAll (Q := fun _ => True) rows target (by
        intro write member same
        obtain ⟨k, doomed, rfl⟩ | ⟨old, there, _, emitted⟩ := mem_deletion member
        · exact absurd (same ▸ doomed) stays
        · obtain ⟨other, rfl, _⟩ := orphaned_key emitted
          exact ⟨other, rfl, trivial⟩)
      exact ⟨last, member, same⟩

theorem Coherent.delete (coherent : Coherent rows) (mine : ∀ row ∈ rows, key row ∈ keys → Of w rows row)
    (allowed : restricted rows (cascade rows keys) = false) :
    Keeps w rows (applyAll rows (deletion rows (cascade rows keys))) := by
  -- Whatever has a reference to what goes is the tenant's too.
  have inside : ∀ {row ref}, row ∈ rows → ref ∈ refs row →
      (∀ parent ∈ rows, key parent = ref.target → Of w rows parent) → Of w rows row := by
    intro row ref stored listed parents
    obtain ⟨parent, there, target⟩ := coherent.whole row stored ref listed
    exact coherent.confined row stored ref listed parent there target w (parents parent there target)
  have doomed : ∀ k ∈ cascade rows keys, ∀ row ∈ rows, key row = k → Of w rows row := by
    apply cascade_subset
    · intro row stored ref listed _ parents other there same
      cases coherent.unique.eq_of_key there stored same
      exact inside stored listed parents
    · intro k named row stored same
      exact mine row stored (same ▸ named)
  have intact : Intact (applyAll rows (deletion rows (cascade rows keys))) := by
    refine ⟨coherent.unique.applyAll _, fun row member ref listed => ?_⟩
    obtain ⟨old, stored, stays, leaves⟩ := of_delete member
    obtain ⟨before, kept⟩ := leaves.refs ref listed
    obtain ⟨parent, there, target⟩ := coherent.whole old stored ref before
    have alive : key parent ∉ cascade rows keys := by
      intro gone
      rw [target] at gone
      cases rule : ref.onDelete with
      | cascade => exact stays (cascade_closed stored before rule gone)
      | setNull => exact kept ⟨rule, gone⟩
      | restrict =>
          simp only [restricted, List.any_eq_false] at allowed
          refine allowed old stored ?_
          rw [Bool.and_eq_true, List.any_eq_true]
          exact ⟨by simpa using stays, ref, before, by simp [rule, gone]⟩
    obtain ⟨next, left, same⟩ := delete_leaves coherent.unique there alive
    exact ⟨next, left, same.trans target⟩
  -- What is left of a row is whose the row was.
  have left : ∀ {old}, Of w rows old → old ∈ rows → ∀ row ∈ applyAll rows (deletion rows (cascade rows keys)),
      key row = key old → Of w (applyAll rows (deletion rows (cascade rows keys))) row := by
    intro old theirs
    induction theirs with
    | @own old here =>
        intro there row member same
        obtain ⟨other, stored, _, leaves⟩ := of_delete member
        cases coherent.unique.eq_of_key stored there (leaves.key.symm.trans same)
        exact .own (leaves.home.trans here)
    | @inherits old parent here above _ ih =>
        intro there row member same
        obtain ⟨other, stored, _, leaves⟩ := of_delete member
        cases coherent.unique.eq_of_key stored there (leaves.key.symm.trans same)
        obtain ⟨next, there, equal⟩ := intact.parented member (leaves.home.trans here)
        exact .inherits (equal ▸ leaves.home.trans here) there (ih above next there equal)
  -- A row that loses a reference had one to what goes.
  have loses : ∀ {row old}, old ∈ rows → Leaves (cascade rows keys) old row → row ≠ old → Of w rows old := by
    intro row old stored leaves different
    obtain ⟨ref, listed, _, gone⟩ := leaves.changed different
    exact inside stored listed fun parent there target => doomed ref.target gone parent there target
  have moves : Moves w rows (applyAll rows (deletion rows (cascade rows keys))) := by
    constructor
    · intro row member absent
      obtain ⟨old, stored, _, leaves⟩ := of_delete member
      have different : row ≠ old := fun equal => absent (equal ▸ stored)
      exact left (loses stored leaves different) stored row member leaves.key
    · intro row stored absent
      by_cases gone : key row ∈ cascade rows keys
      · exact doomed _ gone row stored rfl
      · cases emitted : orphaned (cascade rows keys) row with
        | none => exact absurd (delete_keeps coherent.unique stored gone emitted) absent
        | some write =>
            obtain ⟨next, there, same⟩ := delete_leaves coherent.unique stored gone
            obtain ⟨old, before, _, leaves⟩ := of_delete there
            cases coherent.unique.eq_of_key before stored (leaves.key.symm.trans same)
            exact loses stored leaves fun equal => absent (equal ▸ there)
  refine ⟨moves.coherent coherent intact fun row member absent ref listed => ?_, moves⟩
  obtain ⟨old, stored, _, leaves⟩ := of_delete member
  have mine := loses stored leaves fun equal => absent (equal ▸ stored)
  exact moves.near coherent.toIntact intact (mine.refs coherent stored (leaves.refs ref listed).1)

end Deletions
end Kurul.Store
