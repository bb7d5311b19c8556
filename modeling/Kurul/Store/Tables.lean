import Kurul.Store.Referential

/-! What writes leave of a table, and what its statements can be refused with. -/
namespace Kurul.Store

variable {Row Key Error α β : Type} [Relational Row Key] [DecidableEq Key] [Entity Row α]

/-- The write is to no row of the table. -/
def Write.Elsewhere (α : Type) [Entity Row α] (write : Write Row Key) : Prop :=
  ∀ a : α, key (toRow a : Row) ≠ write.target

theorem table_apply_elsewhere {write : Write Row Key} (elsewhere : write.Elsewhere α)
    (rows : List Row) : (table (write.apply rows) : List α) = table rows := by
  have outside : ∀ row : Row, key row = write.target → (ofRow row : Option α) = none := by
    intro row same
    cases found : (ofRow row : Option α) with
    | none => rfl
    | some a =>
        rw [← (Entity.ofRow_eq row a).mp found] at same
        exact absurd same (elsewhere a)
  cases write with
  | del k =>
      simp only [table, Write.apply, List.filterMap_filter]
      apply List.filterMap_congr
      intro row _
      by_cases same : key row = k
      · simp [same, outside row same]
      · simp [same]
  | put stored =>
      have new : (ofRow stored : Option α) = none := outside stored rfl
      simp only [table, Write.apply]
      split
      · rw [List.filterMap_map]
        apply List.filterMap_congr
        intro row _
        by_cases same : key row = key stored
        · simp [same, new, outside row same]
        · simp [same]
      · simp [new]

theorem table_applyAll_elsewhere {writes : List (Write Row Key)}
    (elsewhere : ∀ write ∈ writes, write.Elsewhere α) (rows : List Row) :
    (table (applyAll rows writes) : List α) = table rows := by
  induction writes generalizing rows with
  | nil => rfl
  | cons write rest ih =>
      rw [applyAll, ih fun other member => elsewhere other (List.mem_cons_of_mem _ member)]
      exact table_apply_elsewhere (elsewhere write List.mem_cons_self) rows

section Refusals

variable [DatabaseErrors Error]

/-- A refusal the database answers with. -/
def DatabaseErrors.Answer (error : Error) : Prop :=
  error = recordNotFound ∨ error = uniqueViolation ∨ error = foreignKeyViolation

omit [DatabaseErrors Error] in
theorem bind_error {x : Except Error β} {f : β → Except Error γ} {error : Error}
    (refused : x >>= f = .error error) : x = .error error ∨ ∃ b, x = .ok b ∧ f b = .error error := by
  cases x with
  | error =>
      cases refused
      exact .inl rfl
  | ok b => exact .inr ⟨b, rfl, refused⟩

namespace Statement

variable {rows : List Row} {where_ : Where Row α} {change : α → α} {a : α} {error : Error}

theorem checkRow_error {old : List (Reference Key)} {row : Row}
    (refused : (checkRow rows old row : Except Error _) = .error error) :
    DatabaseErrors.Answer error := by
  simp only [checkRow] at refused
  split at refused
  · cases refused
    exact .inr (.inr rfl)
  · split at refused
    · cases refused
      exact .inr (.inl rfl)
    · contradiction

theorem create_error (refused : (create a rows : Except Error (Outcome Row Key α)) = .error error) :
    DatabaseErrors.Answer error := by
  unfold create at refused
  split at refused
  · cases refused
    exact .inr (.inl rfl)
  · rcases bind_error refused with checked | ⟨_, _, done⟩
    · exact checkRow_error checked
    · cases done

theorem update_error
    (refused : (update where_ change rows : Except Error (Outcome Row Key α)) = .error error) :
    DatabaseErrors.Answer error := by
  unfold update at refused
  split at refused
  · cases refused
    exact .inl rfl
  · rcases bind_error refused with checked | ⟨_, _, done⟩
    · exact checkRow_error checked
    · cases done

theorem rewriteAll_error {items : List α}
    (refused : (rewriteAll change items rows : Except Error (List (Write Row Key) × Held Key)) =
      .error error) : DatabaseErrors.Answer error := by
  induction items with
  | nil => cases refused
  | cons a rest ih =>
      rcases bind_error refused with checked | ⟨_, _, later⟩
      · exact checkRow_error checked
      · rcases bind_error later with again | ⟨_, _, done⟩
        · exact ih again
        · cases done

theorem updateMany_error
    (refused : (updateMany where_ change rows : Except Error (Outcome Row Key Nat)) = .error error) :
    DatabaseErrors.Answer error := by
  rcases bind_error refused with rewritten | ⟨_, _, done⟩
  · exact rewriteAll_error rewritten
  · cases done

theorem delete_error
    (refused : (delete where_ rows : Except Error (Outcome Row Key α)) = .error error) :
    DatabaseErrors.Answer error := by
  unfold delete at refused
  split at refused
  · cases refused
    exact .inl rfl
  · dsimp only at refused
    split at refused
    · cases refused
      exact .inr (.inr rfl)
    · cases refused

end Statement
end Refusals
end Kurul.Store
