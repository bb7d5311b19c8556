import Mathlib

/-! Lists without the elements of a kind at their two ends. -/
namespace Kurul.Sequence

variable {α : Type} (p : α → Bool)

def trimmed (items : List α) : List α := ((items.dropWhile p).reverse.dropWhile p).reverse

/-- Neither end is of the kind. -/
def Trim (items : List α) : Prop := (∀ a ∈ items.head?, p a = false) ∧ ∀ a ∈ items.getLast?, p a = false

variable {p} {items : List α}

theorem head?_dropWhile_not (items : List α) {a : α} (first : a ∈ (items.dropWhile p).head?) : p a = false := by
  induction items with
  | nil => cases first
  | cons b rest ih =>
      by_cases drops : p b = true
      · rw [List.dropWhile_cons_of_pos drops] at first
        exact ih first
      · rw [List.dropWhile_cons_of_neg drops] at first
        obtain rfl : b = a := by simpa using first
        simpa using drops

theorem prefix_trimmed (items : List α) : trimmed p items <+: items.dropWhile p := by
  rw [← List.reverse_suffix, trimmed, List.reverse_reverse]
  exact List.dropWhile_suffix p

theorem infix_trimmed : trimmed p items <:+: items :=
  (prefix_trimmed items).isInfix.trans (List.dropWhile_suffix p).isInfix

theorem trim_trimmed (items : List α) : Trim p (trimmed p items) := by
  constructor
  · intro a first
    obtain ⟨rest, whole⟩ := prefix_trimmed (p := p) items
    apply head?_dropWhile_not items
    rw [← whole]
    cases here : trimmed p items with
    | nil => rw [here] at first; cases first
    | cons b more =>
        rw [here] at first
        exact first
  · intro a last
    apply head?_dropWhile_not (items.dropWhile p).reverse
    rw [trimmed, List.getLast?_reverse] at last
    exact last

theorem dropWhile_eq_self (first : ∀ a ∈ items.head?, p a = false) : items.dropWhile p = items := by
  cases items with
  | nil => rfl
  | cons a rest =>
      apply List.dropWhile_cons_of_neg
      simp [first a rfl]

theorem trimmed_eq_self (trim : Trim p items) : trimmed p items = items := by
  have back : items.reverse.dropWhile p = items.reverse := by
    apply dropWhile_eq_self
    rw [List.head?_reverse]
    exact trim.2
  rw [trimmed, dropWhile_eq_self trim.1, back, List.reverse_reverse]

theorem trimmed_trimmed (items : List α) : trimmed p (trimmed p items) = trimmed p items :=
  trimmed_eq_self (trim_trimmed items)

theorem trim_iff : Trim p items ↔ trimmed p items = items := by
  constructor
  · exact trimmed_eq_self
  · intro same
    rw [← same]
    exact trim_trimmed items

end Kurul.Sequence
