import Kurul.Schema

/-! What a deletion takes along in this schema: rows further down the ownership
tree only, and above them nothing but nulled references of audit and notification rows. -/
namespace Kurul

open Store

/-- Depth in the ownership tree; a cascading reference always points further up. -/
def Key.depth : Key → Nat
  | .user _ | .workspace _ => 0
  | .board _ => 1
  | .column _ | .label _ => 2
  | .task _ => 3
  | .checklistItem _ => 5
  | _ => 4

theorem depth_cascade (row : Row) : ∀ ref ∈ refs row, ref.onDelete = .cascade →
    ref.target.depth < (key row).depth := by
  cases row <;>
    simp +contextual [refs, Row.refs, Reference.cascades, Reference.restricts, Reference.setsNull, key, Row.key,
      Key.depth, or_imp, forall_and]

/-- A deletion reaches only keys at least as deep as those it starts from. -/
theorem depth_le_cascade {rows : List Row} {keys : List Key} {d : Nat}
    (start : ∀ k ∈ keys, d ≤ k.depth) : ∀ k ∈ cascade rows keys, d ≤ k.depth :=
  cascade_subset (fun row _ ref listed cascades deep =>
    deep.trans (depth_cascade row ref listed cascades).le) start

/-- The rows a deletion rewrites are audit and notification rows. -/
theorem orphaned_history {doomed : List Key} {row : Row} {write : Write Row Key}
    (emitted : orphaned doomed row = some write) :
    (∃ activity, write = .put (.activity activity)) ∨
      ∃ notification, write = .put (.notification notification) := by
  have unsets : ∀ (dangling : List (Reference Key)) (start : Row),
      ((∃ activity, start = .activity activity) ∨ ∃ notification, start = .notification notification) →
      (∃ activity, dangling.foldl (fun row ref => unset ref.target row) start = .activity activity) ∨
        ∃ notification,
          dangling.foldl (fun row ref => unset ref.target row) start = .notification notification := by
    intro dangling
    induction dangling with
    | nil => exact fun _ kind => kind
    | cons ref rest ih =>
        intro start kind
        refine ih _ ?_
        obtain ⟨activity, rfl⟩ | ⟨notification, rfl⟩ := kind
        · exact Or.inl ⟨_, rfl⟩
        · exact Or.inr ⟨_, rfl⟩
  unfold orphaned at emitted
  split at emitted
  · contradiction
  · rename_i nonempty
    cases emitted
    have kind : (∃ activity, row = .activity activity) ∨ ∃ notification, row = .notification notification := by
      cases row with
      | activity activity => exact Or.inl ⟨activity, rfl⟩
      | notification notification => exact Or.inr ⟨notification, rfl⟩
      | _ =>
        refine absurd ?_ nonempty
        simp [refs, Row.refs, Reference.cascades, Reference.restricts]
    obtain ⟨activity, same⟩ | ⟨notification, same⟩ := unsets _ row kind
    · exact Or.inl ⟨activity, by rw [same]⟩
    · exact Or.inr ⟨notification, by rw [same]⟩

/-- Every write of a deletion: a removal at the depth it starts from or below, or a
rewritten audit or notification row. -/
theorem deletion_writes {rows : List Row} {keys : List Key} {d : Nat}
    (start : ∀ k ∈ keys, d ≤ k.depth) {write : Write Row Key}
    (member : write ∈ deletion rows (cascade rows keys)) :
    (∃ k, write = .del k ∧ d ≤ k.depth) ∨
      (∃ activity, write = .put (.activity activity)) ∨
        ∃ notification, write = .put (.notification notification) := by
  obtain ⟨k, doomed, rfl⟩ | ⟨row, _, _, emitted⟩ := mem_deletion member
  · exact Or.inl ⟨k, rfl, depth_le_cascade start k doomed⟩
  · exact Or.inr (orphaned_history emitted)

/-- No task stands in the column. -/
def NoTasks (columnId : Id) (rows : List Row) : Prop :=
  ∀ task ∈ (table rows : List Task), task.columnId ≠ columnId

/-- Only tasks refer to a column. -/
theorem refs_column {columnId : Id} (row : Row) : ∀ ref ∈ refs row, ref.target = .column columnId →
    ∃ task, row = .task task ∧ task.columnId = columnId := by
  cases row <;>
    simp +contextual [refs, Row.refs, Reference.cascades, Reference.restricts, Reference.setsNull,
      or_imp, forall_and]

/-- Nothing goes with a column that has no tasks. -/
theorem cascade_column {rows : List Row} {columnId : Id} (none : NoTasks columnId rows)
    {keys : List Key} (start : ∀ k ∈ keys, k = Key.column columnId) :
    ∀ k ∈ cascade rows keys, k = Key.column columnId := by
  refine cascade_subset (fun row member ref listed _ target => ?_) start
  obtain ⟨task, rfl, here⟩ := refs_column row ref listed target
  exact absurd here (none task (mem_table.mpr member))

end Kurul
