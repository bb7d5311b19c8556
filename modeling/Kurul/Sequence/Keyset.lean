import Mathlib

/-! Keyset paging: each page is read from the key of the last one's last item. Over items
with distinct keys the pages run through the sorted items without a gap or a repeat. -/
namespace Kurul.Sequence

variable {α κ : Type} [LinearOrder κ] (key : α → κ)

def sorted (items : List α) : List α := items.insertionSort fun a b => key a ≤ key b

/-- The item comes after the cursor, if there is one. -/
def behind (cursor : Option κ) (a : α) : Bool := cursor.all (· < key a)

/-- `where: … > cursor, orderBy: key, take: size`. -/
def page (size : Nat) (cursor : Option κ) (items : List α) : List α :=
  (sorted key (items.filter (behind key cursor))).take size

variable {key} {items done rest : List α}

theorem sorted_perm (items : List α) : (sorted key items).Perm items :=
  List.perm_insertionSort _ items

theorem mem_sorted {a : α} : a ∈ sorted key items ↔ a ∈ items :=
  (sorted_perm items).mem_iff

theorem pairwise_sorted (distinct : (items.map key).Nodup) :
    (sorted key items).Pairwise fun a b => key a < key b := by
  have keys : ((sorted key items).map key).Nodup :=
    ((sorted_perm items).map key).nodup_iff.mpr distinct
  have weakly : (sorted key items).Pairwise fun a b => key a ≤ key b :=
    List.pairwise_insertionSort _ items
  apply (weakly.and (List.pairwise_map.mp keys)).imp
  rintro a b ⟨le, different⟩
  exact lt_of_le_of_ne le different

/-- A list in strict order is the sorted one of its items. -/
theorem sorted_eq {xs : List α} (perm : xs.Perm items) (ordered : xs.Pairwise fun a b => key a < key b) :
    sorted key items = xs := by
  have weakly : (sorted key items).Pairwise fun a b => key a ≤ key b :=
    List.pairwise_insertionSort _ items
  have strictly : xs.Pairwise fun a b => key a ≤ key b := ordered.imp le_of_lt
  apply List.Perm.eq_of_pairwise _ weakly strictly ((sorted_perm items).trans perm.symm)
  intro a b left right below above
  have both := List.pairwise_iff_getElem.mp ordered
  obtain ⟨i, inside, rfl⟩ := List.getElem_of_mem (perm.mem_iff.mpr (mem_sorted.mp left))
  obtain ⟨j, inside', rfl⟩ := List.getElem_of_mem right
  rcases Nat.lt_trichotomy i j with less | same | more
  · exact absurd above (not_le_of_gt (both i j inside inside' less))
  · subst same
    rfl
  · exact absurd below (not_le_of_gt (both j i inside' inside more))

/-- What comes after the last of the first items is the rest. -/
theorem filter_behind (ordered : (done ++ rest).Pairwise fun a b => key a < key b) :
    (done ++ rest).filter (behind key (done.getLast?.map key)) = rest := by
  rcases List.eq_nil_or_concat done with rfl | ⟨before, last, rfl⟩
  · simp [behind]
  · rw [List.concat_eq_append] at ordered ⊢
    obtain ⟨first, later, across⟩ := List.pairwise_append.mp ordered
    have below : ∀ a ∈ before, key a < key last :=
      fun a early => (List.pairwise_append.mp first).2.2 a early last List.mem_cons_self
    rw [List.filter_append]
    have none : (before ++ [last]).filter (behind key ((before ++ [last]).getLast?.map key)) = [] := by
      rw [List.filter_eq_nil_iff]
      intro a member
      simp only [List.getLast?_append, List.getLast?_singleton, Option.some_or, Option.map_some,
        behind, Option.all_some, decide_eq_true_eq, not_lt]
      rcases List.mem_append.mp member with early | same
      · exact le_of_lt (below a early)
      · exact le_of_eq (congrArg key (List.mem_singleton.mp same))
    have all : rest.filter (behind key ((before ++ [last]).getLast?.map key)) = rest := by
      rw [List.filter_eq_self]
      intro a member
      simpa [behind] using across last (by simp) a member
    rw [none, all, List.nil_append]

/-- The page that follows the first items of the order starts at the next one. -/
theorem page_eq (distinct : (items.map key).Nodup) (split : sorted key items = done ++ rest) (size : Nat) :
    page key size (done.getLast?.map key) items = rest.take size := by
  have ordered : (done ++ rest).Pairwise fun a b => key a < key b := by
    rw [← split]
    exact pairwise_sorted distinct
  have remaining : rest.Perm (items.filter (behind key (done.getLast?.map key))) := by
    have perm : ((sorted key items).filter (behind key (done.getLast?.map key))).Perm _ :=
      (sorted_perm items).filter _
    rwa [split, filter_behind ordered] at perm
  rw [page, sorted_eq remaining (List.pairwise_append.mp ordered).2.1]

end Kurul.Sequence
