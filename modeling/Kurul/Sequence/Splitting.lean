import Mathlib

/-! What a list is split into at an element, and what joining does. -/
namespace Kurul.Sequence

variable {α : Type} [BEq α] [LawfulBEq α] {a : α} {items piece : List α}

theorem notMem_of_mem_splitOn (member : piece ∈ items.splitOn a) : a ∉ piece := by
  induction items generalizing piece with
  | nil =>
      obtain rfl : piece = [] := by simpa [List.splitOn_nil] using member
      exact List.not_mem_nil
  | cons item rest ih =>
      rw [List.splitOn_cons_eq_if_modifyHead] at member
      split at member
      · rcases List.mem_cons.mp member with rfl | later
        · exact List.not_mem_nil
        · exact ih later
      · rename_i other
        cases cut : rest.splitOn a with
        | nil => exact absurd cut (List.splitOn_ne_nil _ _)
        | cons first more =>
            rw [cut, List.modifyHead_cons] at member
            rcases List.mem_cons.mp member with rfl | later
            · refine List.not_mem_cons_of_ne_of_not_mem ?_ (ih (cut ▸ List.mem_cons_self))
              rintro rfl
              exact other (beq_self_eq_true _)
            · exact ih (cut ▸ List.mem_cons_of_mem _ later)

/-- Changing each piece changes no cut, as long as no piece takes the separator in. -/
theorem splitOn_intercalate_map {change : List α → List α} (clear : ∀ piece ∈ items.splitOn a, a ∉ change piece) :
    ([a].intercalate ((items.splitOn a).map change)).splitOn a = (items.splitOn a).map change := by
  refine List.splitOn_intercalate a ?_ fun empty => List.splitOn_ne_nil a items (List.map_eq_nil_iff.mp empty)
  intro changed member
  obtain ⟨piece, cut, rfl⟩ := List.mem_map.mp member
  exact clear piece cut

section Joining

variable {α : Type} {a : α} {items : List α}

theorem mem_intersperse {separator : α} (member : a ∈ items) : a ∈ items.intersperse separator := by
  induction items with
  | nil => cases member
  | cons item rest ih =>
      cases rest with
      | nil => exact member
      | cons next more =>
          rw [List.intersperse_cons_cons]
          rcases List.mem_cons.mp member with rfl | later
          · exact List.mem_cons_self
          · exact List.mem_cons_of_mem _ (List.mem_cons_of_mem _ (ih later))

theorem map_intersperse {β : Type} (f : α → β) (separator : α) (items : List α) :
    (items.intersperse separator).map f = (items.map f).intersperse (f separator) := by
  induction items with
  | nil => rfl
  | cons item rest ih =>
      cases rest with
      | nil => rfl
      | cons next more =>
          rw [List.intersperse_cons_cons, List.map_cons, List.map_cons, ih]
          rfl

end Joining

end Kurul.Sequence
