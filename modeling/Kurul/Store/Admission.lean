import Mathlib

/-! A ceiling that is checked before the amount is taken. What is taken and what has been
admitted but not yet taken stay below the ceiling and one largest amount for each admission
beyond the first. -/
namespace Kurul.Store

variable {ι : Type} (size : ι → Nat)

/-- What is taken, with the amounts of any of those admitted. -/
def Within (bound used : Nat) (admitted : ι → Prop) : Prop :=
  ∀ L : List ι, L.Nodup → (∀ i ∈ L, admitted i) → used + (L.map size).sum ≤ bound

/-- No more than `k` at a time. -/
def AtMost (k : Nat) (admitted : ι → Prop) : Prop :=
  ∀ L : List ι, L.Nodup → (∀ i ∈ L, admitted i) → L.length ≤ k

theorem AtMost.mono {k : Nat} {admitted admitted' : ι → Prop} (few : AtMost k admitted)
    (fewer : ∀ i, admitted' i → admitted i) : AtMost k admitted' :=
  fun L unique inside => few L unique fun i member => fewer i (inside i member)

namespace Within

variable {size} {bound used used' : Nat} {admitted admitted' : ι → Prop}

theorem used_le (within : Within size bound used admitted) : used ≤ bound := by
  simpa using within [] List.nodup_nil (by simp)

theorem start (none_ : ∀ i, ¬ admitted i) (le : used ≤ bound) : Within size bound used admitted := by
  intro L _ inside
  cases L with
  | nil => simpa using le
  | cons i rest => exact absurd (inside i List.mem_cons_self) (none_ i)

/-- Amounts are given back and admissions dropped. -/
theorem mono (within : Within size bound used admitted) (le : used' ≤ used)
    (fewer : ∀ i, admitted' i → admitted i) : Within size bound used' admitted' := by
  intro L unique inside
  have before := within L unique fun i member => fewer i (inside i member)
  omega

/-- One more is admitted, for whom there was room at the check. -/
theorem enter {quota k most : Nat} {j : ι}
    (within : Within size (quota + (k - 1) * most) used admitted) (room : used + size j ≤ quota)
    (sizes : ∀ i, size i ≤ most) (others : ∀ i, admitted' i → i = j ∨ admitted i)
    (few : AtMost k admitted') : Within size (quota + (k - 1) * most) used admitted' := by
  classical
  intro L unique inside
  by_cases member : j ∈ L
  · have few := few L unique inside
    have split : (L.map size).sum = size j + ((L.erase j).map size).sum := by
      rw [← List.sum_cons, ← List.map_cons]
      exact ((List.perm_cons_erase member).map size).sum_eq
    have rest : ((L.erase j).map size).sum ≤ (L.erase j).length * most := by
      have each := List.sum_le_card_nsmul ((L.erase j).map size) most (by simpa using fun i _ => sizes i)
      simpa using each
    have shorter : (L.erase j).length * most ≤ (k - 1) * most := by
      apply Nat.mul_le_mul_right
      rw [List.length_erase_of_mem member]
      omega
    omega
  · apply within L unique
    intro i inList
    rcases others i (inside i inList) with rfl | before
    · exact absurd inList member
    · exact before

/-- An admitted amount is taken. -/
theorem settle {j : ι} (within : Within size bound used admitted) (was : admitted j)
    (rest : ∀ i, admitted' i → i ≠ j ∧ admitted i) : Within size bound (used + size j) admitted' := by
  intro L unique inside
  have absent : j ∉ L := fun member => (rest j (inside j member)).1 rfl
  have before := within (j :: L) (List.nodup_cons.mpr ⟨absent, unique⟩) (by
    intro i member
    rcases List.mem_cons.mp member with rfl | later
    · exact was
    · exact (rest i (inside i later)).2)
  rw [List.map_cons, List.sum_cons] at before
  omega

end Within
end Kurul.Store
