import Kurul.Sequence.Lanes

/-! Lanes whose entries keep a distance from one another, and the placements that leave
them so. -/
namespace Kurul.Sequence

open Store

variable {κ P E : Type} [AddCommGroup P] [LinearOrder P]

/-- Any two entries are at least this far apart. -/
def Lane.Spaced (gap : P) (lane : Lane κ P) : Prop :=
  ∀ ⦃a b p q⦄, lane a p → lane b q → a ≠ b → p + gap ≤ q ∨ q + gap ≤ p

theorem Lane.Spaced.distinct [IsOrderedAddMonoid P] {gap : P} (positive : 0 < gap) {lane : Lane κ P}
    (spaced : lane.Spaced gap) : lane.Distinct := by
  intro a b p left right
  by_contra different
  rcases spaced left right different with le | le <;> exact absurd le (by simpa using positive)

/-- A lane that only lost entries. -/
theorem Lane.Spaced.shrink {gap : P} {before after : Lane κ P} (spaced : before.Spaced gap)
    (shrinks : ∀ a p, after a p → before a p) : after.Spaced gap :=
  fun _ _ _ _ left right different => spaced (shrinks _ _ left) (shrinks _ _ right) different

/-- A spread with that much room between all its positions. -/
structure Gapped (gap : P) (length k : Nat) (own : P) (moved : Nat → P) : Prop where
  mono : ∀ {i j}, i < j → j < length → moved i + gap ≤ moved j
  below : ∀ {i}, i < k → i < length → moved i + gap ≤ own
  above : ∀ {i}, k ≤ i → i < length → own + gap ≤ moved i

section Results

variable {gap own : P} {length k : Nat} {moved : Nat → P} {id : E → κ} {pos : E → P} {L : List E}
  {x : κ} {before after : Lane κ P}

theorem Placed.spaced (placed : Placed id pos L own moved x before after)
    (gapped : Gapped gap L.length k own moved) : after.Spaced gap := by
  have apart : ∀ {i}, i < L.length → moved i + gap ≤ own ∨ own + gap ≤ moved i := by
    intro i inside
    rcases Nat.lt_or_ge i k with less | later
    · exact .inl (gapped.below less inside)
    · exact .inr (gapped.above later inside)
  intro a b p q left right different
  by_cases mineA : a = x
  · have mineB : b ≠ x := fun same => different (mineA.trans same.symm)
    obtain ⟨i, inside, _, _, rfl⟩ := placed.others mineB right
    obtain rfl : p = own := placed.self (mineA ▸ left)
    exact (apart inside).symm
  · obtain ⟨i, insideI, keyI, _, rfl⟩ := placed.others mineA left
    by_cases mineB : b = x
    · obtain rfl : q = own := placed.self (mineB ▸ right)
      exact apart insideI
    · obtain ⟨j, insideJ, keyJ, _, rfl⟩ := placed.others mineB right
      rcases Nat.lt_trichotomy i j with less | same | more
      · exact .inl (gapped.mono less insideJ)
      · subst same
        exact absurd (keyI.symm.trans keyJ) different
      · exact .inr (gapped.mono more insideI)

/-- A position with room on both sides leaves the rest of a spaced list where it is. -/
theorem Ordered.gapped [IsOrderedAddMonoid P] (ordered : Ordered id pos L) (fits : k ≤ L.length) (nonneg : 0 ≤ gap)
    (spaced : ∀ a ∈ L, ∀ b ∈ L, id a ≠ id b → pos a + gap ≤ pos b ∨ pos b + gap ≤ pos a)
    (lower : ∀ inside : k - 1 < L.length, 0 < k → pos L[k - 1] + gap ≤ own)
    (upper : ∀ inside : k < L.length, own + gap ≤ pos L[k]) (fallback : P) :
    Gapped gap L.length k own fun i => (L[i]?.map pos).getD fallback where
  mono := by
    intro i j less inside
    have early : i < L.length := Nat.lt_trans less inside
    have increasing := (ordered.lt_iff early inside).mpr less
    have different : id L[i] ≠ id L[j] := fun same =>
      less.ne (index_eq ordered.keys early inside same)
    rcases spaced _ (List.getElem_mem early) _ (List.getElem_mem inside) different with le | le
    · simpa [early, inside] using le
    · exact absurd (lt_of_lt_of_le increasing (le_trans (le_add_of_nonneg_right nonneg) le)) (lt_irrefl _)
  below := by
    intro i less inside
    have last : k - 1 < L.length := by omega
    have next := lower last (by omega)
    have le : pos L[i] ≤ pos L[k - 1] := by
      rcases Nat.lt_or_ge i (k - 1) with before | same
      · exact ((ordered.lt_iff inside last).mpr before).le
      · have last' : i = k - 1 := by omega
        subst last'
        exact le_rfl
    simpa [inside] using (add_le_add_left le gap).trans next
  above := by
    intro i later inside
    have next := upper (by omega)
    have le : pos L[k] ≤ pos L[i] := by
      rcases Nat.eq_or_lt_of_le later with same | after
      · subst same
        exact le_rfl
      · exact ((ordered.lt_iff (by omega) inside).mpr after).le
    simpa [inside] using next.trans le

end Results

section Lanes

variable {Row Key G : Type} [Keyed Row Key] [DecidableEq Key] {lanes : Lanes Row Key G κ P}
  {gap : P} {rows : List Row} {W : List (Write Row Key)}

/-- Writes that put nothing into any lane. -/
theorem Lanes.spaced_quiet (quiet : ∀ row, .put row ∈ W → lanes.entry row = none)
    (spaced : ∀ g, (lanes.lane g rows).Spaced gap) (g : G) :
    (lanes.lane g (applyAll rows W)).Spaced gap := by
  apply (spaced g).shrink
  rintro a p ⟨row, member, entered⟩
  rcases mem_applyAll_cases member with written | ⟨old, _⟩
  · rw [quiet row written] at entered
    cases entered
  · exact ⟨row, old, entered⟩

/-- A placement with room on both sides. -/
theorem Lanes.Places.spaced {id : E → κ} {pos : E → P} {L : List E} {g : G} {x : κ} {position : P}
    {moved : Nat → P} {k : Nat} (places : Places lanes id L g (some x) position moved W)
    (around : Around lanes id pos L g (some x) moved W rows) (keys : (L.map id).Nodup)
    (mine : lanes.entryKey x ∈ touched W) (gapped : Gapped gap L.length k position moved)
    (spaced : ∀ g, (lanes.lane g rows).Spaced gap) (g' : G) :
    (lanes.lane g' (applyAll rows W)).Spaced gap := by
  by_cases same : g' = g
  · subst same
    exact (places.placed around keys mine).spaced gapped
  · apply (spaced g').shrink
    intro a p stands
    exact places.elsewhere same stands

/-- A lane that was empty, filled with entries that are apart. -/
theorem Lanes.Fills.spaced {g : G} {items : List (κ × P)} (fills : lanes.Fills g items W)
    (apart : ∀ x ∈ items, ∀ y ∈ items, x.1 ≠ y.1 → x.2 + gap ≤ y.2 ∨ y.2 + gap ≤ x.2)
    (empty : ∀ a p, ¬ lanes.lane g rows a p) (spaced : ∀ g, (lanes.lane g rows).Spaced gap) (g' : G) :
    (lanes.lane g' (applyAll rows W)).Spaced gap := by
  intro a b p q left right different
  rcases fills.filled left with old | ⟨rfl, listed⟩
  · rcases fills.filled right with old' | ⟨rfl, _⟩
    · exact spaced g' old old' different
    · exact absurd old (empty _ _)
  · rcases fills.filled right with old' | ⟨_, listed'⟩
    · exact absurd old' (empty _ _)
    · exact apart _ listed _ listed' different

end Lanes
end Kurul.Sequence
