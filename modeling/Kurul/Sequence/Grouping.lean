import Mathlib

/-! Lists taken apart and put together again: by a key, through a map, and item by item. -/
namespace Kurul.Sequence

variable {α β κ : Type}

/-- A rearrangement of the images comes from one of the items. -/
theorem exists_perm_of_map {f : α → β} {images : List β} {items : List α} (perm : images.Perm (items.map f)) :
    ∃ moved : List α, moved.Perm items ∧ moved.map f = images := by
  generalize whole : items.map f = L at perm
  induction perm generalizing items with
  | nil => exact ⟨items, List.Perm.refl _, whole⟩
  | cons x _ ih =>
      obtain ⟨a, rest, rfl, rfl, mapped⟩ := List.map_eq_cons_iff.mp whole
      obtain ⟨moved, perm, same⟩ := ih mapped
      exact ⟨a :: moved, perm.cons a, by rw [List.map_cons, same]⟩
  | swap x y l =>
      obtain ⟨a, rest, rfl, rfl, mapped⟩ := List.map_eq_cons_iff.mp whole
      obtain ⟨b, rest, rfl, rfl, rfl⟩ := List.map_eq_cons_iff.mp mapped
      exact ⟨b :: a :: rest, List.Perm.swap a b rest, rfl⟩
  | trans _ _ first second =>
      obtain ⟨between, perm, mapped⟩ := second whole
      obtain ⟨moved, perm', same⟩ := first mapped
      exact ⟨moved, perm'.trans perm, same⟩

/-- Grouped by distinct keys, the items that have one are all there. -/
theorem grouped_perm [DecidableEq κ] {keys : List κ} (unique : keys.Nodup) (group : α → Option κ) {items : List α}
    (covered : ∀ a ∈ items, ∀ k ∈ group a, k ∈ keys) :
    (keys.flatMap fun k => items.filter (group · = some k)).Perm (items.filter fun a => (group a).isSome) := by
  classical
  rw [List.perm_iff_count]
  intro a
  have each : ∀ k, ((items.filter (group · = some k)).count a) = if group a = some k then items.count a else 0 := by
    intro k
    split
    · exact List.count_filter (by simpa)
    · rename_i other
      exact List.count_eq_zero.mpr fun member => other (by simpa using (List.mem_filter.mp member).2)
  rw [List.count_flatMap]
  simp only [Function.comp_def, each]
  cases own : group a with
  | none =>
      have absent : a ∉ items.filter fun a => (group a).isSome := by simp [own]
      simp [List.count_eq_zero.mpr absent]
  | some k =>
      rw [List.count_filter (by simp [own])]
      by_cases member : a ∈ items
      · have only := List.sum_map_eq_nsmul_single k (fun k' => if some k = some k' then items.count a else 0)
          (l := keys) fun k' other _ => by simp [other.symm]
        rw [only, List.count_eq_one_of_mem unique (covered a member k own)]
        simp
      · simp [List.count_eq_zero.mpr member]

theorem forall₂_flatMap {R : α → β → Prop} {γ δ : Type} {f : γ → List α} {g : δ → List β} {first : List γ} {second : List δ}
    (pieces : List.Forall₂ (fun c d => List.Forall₂ R (f c) (g d)) first second) :
    List.Forall₂ R (first.flatMap f) (second.flatMap g) := by
  induction pieces with
  | nil => exact .nil
  | cons piece _ ih => exact List.rel_append piece ih

end Kurul.Sequence
