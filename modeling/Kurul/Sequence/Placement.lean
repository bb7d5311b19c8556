import Mathlib

/-! Placing one entry into a strictly increasing list: between two neighbours that
stay where they are, or with every entry moved to a fresh increasing position. A
lane is what a reader of the stored positions sees, so it may have lost entries
since the list was read. -/
namespace Kurul.Sequence

variable {κ P E : Type} [LinearOrder P]

/-- Which keys stand at which positions. -/
abbrev Lane (κ P : Type) := κ → P → Prop

namespace Lane

def Functional (lane : Lane κ P) : Prop := ∀ ⦃a p q⦄, lane a p → lane a q → p = q

def Distinct (lane : Lane κ P) : Prop := ∀ ⦃a b p⦄, lane a p → lane b p → a = b

/-- Entries other than `x` stand in the same order in both lanes, and none is lost. -/
structure OrderKept (x : κ) (before after : Lane κ P) : Prop where
  stays : ∀ {a p}, a ≠ x → before a p → ∃ q, after a q
  order : ∀ {a b p q p' q'}, a ≠ x → b ≠ x → before a p → before b q → after a p' → after b q' →
    (p < q ↔ p' < q')

end Lane

/-- Positions for the entries of a list and for one more entry before index `k`. -/
structure Spread (length k : Nat) (own : P) (moved : Nat → P) : Prop where
  mono : ∀ {i j}, i < j → j < length → moved i < moved j
  below : ∀ {i}, i < k → i < length → moved i < own
  above : ∀ {i}, k ≤ i → i < length → own < moved i

theorem Spread.lt_iff {length k : Nat} {own : P} {moved : Nat → P} (spread : Spread length k own moved)
    {i j : Nat} (left : i < length) (right : j < length) : moved i < moved j ↔ i < j := by
  constructor
  · intro less
    by_contra notBefore
    obtain same | after := Nat.eq_or_lt_of_not_lt notBefore
    · exact absurd less (same ▸ lt_irrefl _)
    · exact absurd less (lt_asymm (spread.mono after left))
  · intro before
    exact spread.mono before right

theorem Spread.injective {length k : Nat} {own : P} {moved : Nat → P}
    (spread : Spread length k own moved) {i j : Nat} (left : i < length) (right : j < length)
    (same : moved i = moved j) : i = j := by
  obtain less | equal | more := Nat.lt_trichotomy i j
  · exact absurd same (spread.mono less right).ne
  · exact equal
  · exact absurd same (spread.mono more left).ne'

/-- The list as it was read: its entries stand strictly increasing under distinct keys. -/
structure Ordered (id : E → κ) (pos : E → P) (L : List E) : Prop where
  increasing : (L.map pos).Pairwise (· < ·)
  keys : (L.map id).Nodup

/-- What is left of the list once `x` is placed: entries still there stand at their
new positions, `x` at its own. -/
structure Placed (id : E → κ) (pos : E → P) (L : List E) (own : P) (moved : Nat → P) (x : κ)
    (before after : Lane κ P) : Prop where
  others : ∀ {a q}, a ≠ x → after a q →
    ∃ (i : Nat) (inside : i < L.length), id L[i] = a ∧ before a (pos L[i]) ∧ q = moved i
  stays : ∀ {a p}, a ≠ x → before a p → ∃ q, after a q
  self : ∀ {q}, after x q → q = own

section Results

variable {id : E → κ} {pos : E → P} {L : List E} {k : Nat} {own : P} {moved : Nat → P} {x : κ}
  {before after : Lane κ P}

theorem Ordered.lt_iff (ordered : Ordered id pos L) {i j : Nat} (left : i < L.length)
    (right : j < L.length) : pos L[i] < pos L[j] ↔ i < j := by
  have step : ∀ {a b : Nat} (_ : a < b) (inside : b < L.length), pos L[a] < pos L[b] := by
    intro a b less inside
    have sorted := List.pairwise_iff_getElem.mp ordered.increasing a b
      (by simpa using Nat.lt_trans less inside) (by simpa using inside) less
    simpa using sorted
  constructor
  · intro less
    by_contra notBefore
    obtain same | later := Nat.eq_or_lt_of_not_lt notBefore
    · subst same; exact lt_irrefl _ less
    · exact lt_asymm less (step later left)
  · intro less
    exact step less right

omit [LinearOrder P] in
theorem index_eq (keys : (L.map id).Nodup) {i j : Nat} (left : i < L.length)
    (right : j < L.length) (same : id L[i] = id L[j]) : i = j := by
  have insideI : i < (L.map id).length := by simpa using left
  have insideJ : j < (L.map id).length := by simpa using right
  have sameKey : (L.map id)[i] = (L.map id)[j] := by simpa using same
  exact keys.getElem_inj_iff.mp sameKey

/-- After the placement no two entries share a position. -/
theorem Placed.distinct (placed : Placed id pos L own moved x before after)
    (spread : Spread L.length k own moved) : after.Distinct := by
  have apart : ∀ {i}, i < L.length → moved i ≠ own := by
    intro i inside
    obtain less | later := Nat.lt_or_ge i k
    · exact (spread.below less inside).ne
    · exact (spread.above later inside).ne'
  intro a b p left right
  by_cases mineA : a = x
  · by_cases mineB : b = x
    · rw [mineA, mineB]
    · obtain ⟨i, inside, _, _, position⟩ := placed.others mineB right
      exact absurd (position.symm.trans (placed.self (mineA ▸ left))) (apart inside)
  · obtain ⟨i, insideI, keyI, _, positionI⟩ := placed.others mineA left
    by_cases mineB : b = x
    · exact absurd (positionI.symm.trans (placed.self (mineB ▸ right))) (apart insideI)
    · obtain ⟨j, insideJ, keyJ, _, positionJ⟩ := placed.others mineB right
      have same := spread.injective insideI insideJ (positionI.symm.trans positionJ)
      subst same
      exact keyI.symm.trans keyJ

theorem Placed.orderKept (placed : Placed id pos L own moved x before after)
    (spread : Spread L.length k own moved) (ordered : Ordered id pos L)
    (functional : before.Functional) : before.OrderKept x after where
  stays := placed.stays
  order := by
    intro a b p q p' q' notA notB beforeA beforeB afterA afterB
    obtain ⟨i, insideI, _, stoodI, rfl⟩ := placed.others notA afterA
    obtain ⟨j, insideJ, _, stoodJ, rfl⟩ := placed.others notB afterB
    rw [functional beforeA stoodI, functional beforeB stoodJ, ordered.lt_iff insideI insideJ,
      spread.lt_iff insideI insideJ]

/-- The new entry stands above the entries before its index that are still there. -/
theorem Placed.below (placed : Placed id pos L own moved x before after)
    (spread : Spread L.length k own moved) (ordered : Ordered id pos L) {i : Nat}
    (inside : i < L.length) (less : i < k) (other : id L[i] ≠ x) {p q : P}
    (there : after (id L[i]) p) (mine : after x q) : p < q := by
  obtain ⟨j, insideJ, same, _, rfl⟩ := placed.others other there
  rw [index_eq ordered.keys insideJ inside same, placed.self mine]
  exact spread.below less inside

/-- And below the entries from its index on. -/
theorem Placed.above (placed : Placed id pos L own moved x before after)
    (spread : Spread L.length k own moved) (ordered : Ordered id pos L) {i : Nat}
    (inside : i < L.length) (later : k ≤ i) (other : id L[i] ≠ x) {p q : P}
    (there : after (id L[i]) p) (mine : after x q) : q < p := by
  obtain ⟨j, insideJ, same, _, rfl⟩ := placed.others other there
  rw [index_eq ordered.keys insideJ inside same, placed.self mine]
  exact spread.above later inside

/-- A position between two neighbours of a sorted list leaves the rest where it is. -/
theorem Ordered.spread (ordered : Ordered id pos L) (fits : k ≤ L.length)
    (lower : ∀ inside : k - 1 < L.length, 0 < k → pos L[k - 1] < own)
    (upper : ∀ inside : k < L.length, own < pos L[k]) (fallback : P) :
    Spread L.length k own fun i => (L[i]?.map pos).getD fallback where
  mono := by
    intro i j less inside
    simpa [Nat.lt_trans less inside, inside] using (ordered.lt_iff (Nat.lt_trans less inside) inside).mpr less
  below := by
    intro i less inside
    have last : k - 1 < L.length := by omega
    have next := lower last (by omega)
    obtain rfl | before : i = k - 1 ∨ i < k - 1 := by omega
    · simpa [inside] using next
    · simpa [inside] using ((ordered.lt_iff inside last).mpr before).trans next
  above := by
    intro i later inside
    have first := upper (by omega)
    obtain rfl | after := Nat.eq_or_lt_of_le later
    · simpa [inside] using first
    · simpa [inside] using first.trans ((ordered.lt_iff (by omega) inside).mpr after)

end Results
end Kurul.Sequence
