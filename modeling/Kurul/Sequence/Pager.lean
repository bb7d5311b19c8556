import Kurul.Sequence.Keyset

/-! A list read page by page, each page with the cursor of the next, and pages that are put
behind what has been read already. -/
namespace Kurul.Sequence

section Overlap

variable {α : Type} [DecidableEq α] {whole before piece after read : List α}

omit [DecidableEq α] in
theorem prefix_of_subset (nodup : whole.Nodup) (first : before <+: whole) (second : read <+: whole)
    (within : ∀ a ∈ before, a ∈ read) : before <+: read := by
  rcases Nat.le_total before.length read.length with short | long
  · exact List.prefix_of_prefix_length_le first second short
  · have back := List.prefix_of_prefix_length_le second first long
    have few : before.length ≤ read.length := (List.subperm_of_subset (first.sublist.nodup nodup) within).length_le
    rw [back.eq_of_length (Nat.le_antisymm long few)]

/-- A piece that starts within what has been read, or at its end, is put behind it. -/
theorem prefix_overlap (nodup : whole.Nodup) (split : whole = before ++ piece ++ after) (read_ : read <+: whole)
    (within : ∀ a ∈ before, a ∈ read) : read ++ piece.filter (· ∉ read) <+: whole := by
  subst split
  have first : before <+: before ++ piece ++ after := ⟨piece ++ after, (List.append_assoc _ _ _).symm⟩
  obtain ⟨more, rfl⟩ := prefix_of_subset nodup first read_ within
  have more_ : more <+: piece ++ after := by
    rw [List.append_assoc] at read_
    exact (List.prefix_append_right_inj before).mp read_
  rcases Nat.le_total more.length piece.length with short | long
  · obtain ⟨rest, rfl⟩ := List.prefix_of_prefix_length_le more_ (List.prefix_append piece after) short
    have new : (more ++ rest).filter (· ∉ before ++ more) = rest := by
      rw [List.filter_append]
      have old : more.filter (· ∉ before ++ more) = [] := by
        rw [List.filter_eq_nil_iff]
        intro a member
        simp [member]
      have fresh : rest.filter (· ∉ before ++ more) = rest := by
        rw [List.filter_eq_self]
        intro a member
        have apart := nodup
        simp only [List.append_assoc] at apart
        rw [← List.append_assoc, List.nodup_append] at apart
        have absent : a ∉ before ++ more :=
          fun listed => apart.2.2 a listed a (List.mem_append_left _ member) rfl
        simpa using absent
      rw [old, fresh, List.nil_append]
    rw [new]
    exact ⟨after, by simp [List.append_assoc]⟩
  · have all := List.prefix_of_prefix_length_le (List.prefix_append piece after) more_ long
    have none_ : piece.filter (· ∉ before ++ more) = [] := by
      rw [List.filter_eq_nil_iff]
      intro a member
      simp [all.subset member]
    rw [none_, List.append_nil]
    exact read_

end Overlap

section Convex

variable {α : Type} {p : α → Bool} {items : List α}

theorem filter_prefix_of_down (down : items.Pairwise fun a b => p b = true → p a = true) : items.filter p <+: items := by
  induction items with
  | nil => exact List.prefix_rfl
  | cons a rest ih =>
      obtain ⟨first, later⟩ := List.pairwise_cons.mp down
      cases here : p a with
      | true =>
          rw [List.filter_cons_of_pos here]
          exact (List.prefix_cons_inj a).mpr (ih later)
      | false =>
          have none_ : rest.filter p = [] := by
            rw [List.filter_eq_nil_iff]
            intro b member chosen
            exact absurd (first b member chosen) (by simp [here])
          rw [List.filter_cons_of_neg (by simp [here]), none_]
          exact List.nil_prefix

/-- What lies between two of the chosen items is chosen. -/
theorem filter_infix {key : α → α → Prop} (ordered : items.Pairwise key)
    (between : ∀ b ∈ items, ∀ a c, p a = true → p c = true → key a b → key b c → p b = true) :
    items.filter p <:+: items := by
  induction items with
  | nil => exact List.infix_rfl
  | cons a rest ih =>
      obtain ⟨first, later⟩ := List.pairwise_cons.mp ordered
      cases here : p a with
      | true =>
          rw [List.filter_cons_of_pos here]
          refine ((List.prefix_cons_inj a).mpr (filter_prefix_of_down ?_)).isInfix
          rw [List.pairwise_iff_forall_sublist] at later ⊢
          intro b c sub chosen
          have inside : b ∈ rest := sub.subset (by simp)
          exact between b (List.mem_cons_of_mem a inside) a c here chosen (first b inside) (later sub)
      | false =>
          rw [List.filter_cons_of_neg (by simp [here])]
          exact (ih later fun b inside => between b (List.mem_cons_of_mem a inside)).trans (List.suffix_cons a rest).isInfix

end Convex

section Probe

variable {α κ : Type} [LinearOrder κ] (key : α → κ)

/-- A page and the cursor of the next one, if there is one. -/
structure Probe (α κ : Type) where
  items : List α
  next : Option κ
  deriving DecidableEq

/-- One item more than the page holds tells whether there is a next one. -/
def probe (limit : Nat) (cursor : Option κ) (items : List α) : Probe α κ :=
  let rows := page key (limit + 1) cursor items
  let hasMore := decide (limit < rows.length)
  let shown := if hasMore then rows.take limit else rows
  { items := shown, next := if hasMore then shown.getLast?.map key else none }

variable {key} {limit : Nat} {cursor : Option κ} {items : List α}

/-- The page is what follows the cursor, up to the next one. -/
theorem probe_spec (ordered : items.Pairwise fun a b => key a < key b) (positive : 0 < limit) :
    ∃ later, items.filter (behind key cursor) = (probe key limit cursor items).items ++ later ∧
      ((probe key limit cursor items).next = none → later = []) ∧
      ∀ c ∈ (probe key limit cursor items).next, ∃ last ∈ (probe key limit cursor items).items, key last = c ∧
        ∀ a ∈ (probe key limit cursor items).items, key a ≤ c := by
  have rest := ordered.filter (behind key cursor)
  have rows : page key (limit + 1) cursor items = (items.filter (behind key cursor)).take (limit + 1) := by
    rw [page, sorted_eq (List.Perm.refl _) rest]
  generalize items.filter (behind key cursor) = L at rest rows ⊢
  unfold probe
  rw [rows]
  by_cases more : limit < (L.take (limit + 1)).length
  · have long : limit < L.length := by
      rw [List.length_take] at more
      omega
    have cut : (L.take (limit + 1)).take limit = L.take limit := by
      rw [List.take_take, Nat.min_eq_left (Nat.le_succ limit)]
    simp only [more, decide_true, if_true, cut]
    refine ⟨L.drop limit, (List.take_append_drop limit L).symm, ?_, ?_⟩
    · intro none_
      have empty : L.take limit = [] := by simpa using none_
      have length := congrArg List.length empty
      rw [List.length_take, List.length_nil] at length
      omega
    · intro c member
      obtain ⟨last, final, rfl⟩ := Option.map_eq_some_iff.mp member
      obtain ⟨front, split⟩ := List.getLast?_eq_some_iff.mp final
      refine ⟨last, by rw [split]; simp, rfl, ?_⟩
      intro a inside
      have sorted_ := rest.sublist (List.take_sublist limit L)
      rw [split] at inside sorted_
      rcases List.mem_append.mp inside with early | same
      · exact ((List.pairwise_append.mp sorted_).2.2 a early last (List.mem_singleton_self _)).le
      · exact (congrArg key (List.mem_singleton.mp same)).le
  · have short : L.length ≤ limit := by
      rw [List.length_take] at more
      omega
    have all : L.take (limit + 1) = L := List.take_of_length_le (by omega)
    simp only [all, decide_eq_false (Nat.not_lt.mpr short), Bool.false_eq_true, if_false]
    exact ⟨[], (List.append_nil _).symm, fun _ => rfl, by simp⟩

end Probe
end Kurul.Sequence
