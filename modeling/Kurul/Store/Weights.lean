import Kurul.Store.Rows
import Mathlib

/-! Rows with weights, and what a write does to the weight of them all. A count is the
case of weights that are one or zero. -/
namespace Kurul.Store

variable {Row Key : Type} [Keyed Row Key] [DecidableEq Key] {rows : List Row} {row old : Row}
  (weight : Row → Nat)

def total (rows : List Row) : Nat := (rows.map weight).sum

@[simp] theorem total_nil : total weight [] = 0 := rfl

@[simp] theorem total_cons (row : Row) (rows : List Row) :
    total weight (row :: rows) = weight row + total weight rows := List.sum_cons

@[simp] theorem total_append (first second : List Row) :
    total weight (first ++ second) = total weight first + total weight second := by
  simp [total]

theorem total_mono {weight' : Row → Nat} (le : ∀ row ∈ rows, weight row ≤ weight' row) :
    total weight rows ≤ total weight' rows :=
  List.sum_le_sum le

theorem total_sublist {fewer : List Row} (sub : fewer.Sublist rows) :
    total weight fewer ≤ total weight rows :=
  (sub.map weight).sum_le_sum (by simp)

/-- A weight that ends is one the total no longer has. -/
theorem total_drop {weight' : Row → Nat} (le : ∀ row ∈ rows, weight' row ≤ weight row)
    (member : row ∈ rows) : total weight' rows + weight row ≤ total weight rows + weight' row := by
  induction rows with
  | nil => cases member
  | cons first rest ih =>
      have here := le first List.mem_cons_self
      have later : total weight' rest ≤ total weight rest :=
        total_mono weight' fun other inside => le other (List.mem_cons_of_mem _ inside)
      simp only [total_cons]
      rcases List.mem_cons.mp member with rfl | inside
      · omega
      · have rest' := ih (fun other there => le other (List.mem_cons_of_mem _ there)) inside
        omega

theorem total_del_le (k : Key) : total weight ((Write.del k : Write Row Key).apply rows) ≤ total weight rows :=
  total_sublist weight List.filter_sublist

/-- A new row. -/
theorem total_put_new (absent : ∀ other ∈ rows, key other ≠ key row) :
    total weight ((Write.put row : Write Row Key).apply rows) = total weight rows + weight row := by
  have none_ : rows.any (fun r => key r = key row) = false := by
    simpa using absent
  simp [Write.apply, none_]

/-- A row in the place of an old one. -/
theorem total_put_old (unique : UniqueKeys rows) (stored : old ∈ rows) (same : key old = key row) :
    total weight ((Write.put row : Write Row Key).apply rows) + weight old =
      total weight rows + weight row := by
  have present : rows.any (fun r => key r = key row) = true := by
    simpa using ⟨old, stored, same⟩
  simp only [Write.apply, present, if_true]
  clear present
  induction rows with
  | nil => cases stored
  | cons first rest ih =>
      simp only [UniqueKeys, List.map_cons, List.nodup_cons] at unique
      rcases List.mem_cons.mp stored with rfl | inside
      · have others : rest.map (fun r => if key r = key row then row else r) = rest := by
          conv => rhs; rw [← List.map_id rest]
          apply List.map_congr_left
          intro r inside
          rw [if_neg]
          · rfl
          · intro equal
            exact unique.1 (same.trans equal.symm ▸ List.mem_map_of_mem inside)
        simp only [List.map_cons, same, if_true, total_cons, others]
        omega
      · have apart : key first ≠ key row := by
          intro equal
          exact unique.1 (equal.trans same.symm ▸ List.mem_map_of_mem inside)
        have rest' := ih unique.2 inside
        simp only [List.map_cons, apart, if_false, total_cons]
        omega

/-- One more write adds at most the weight of its row. -/
theorem total_put_le (unique : UniqueKeys rows) :
    total weight ((Write.put row : Write Row Key).apply rows) ≤ total weight rows + weight row := by
  by_cases present : ∃ old ∈ rows, key old = key row
  · obtain ⟨old, stored, same⟩ := present
    have replaced := total_put_old weight unique stored same
    omega
  · apply le_of_eq
    apply total_put_new
    intro other inside same
    exact present ⟨other, inside, same⟩

/-- What a write adds at most. -/
def Write.adds : Write Row Key → Nat
  | .put row => weight row
  | .del _ => 0

theorem total_applyAll_le (unique : UniqueKeys rows) (writes : List (Write Row Key)) :
    total weight (applyAll rows writes) ≤ total weight rows + (writes.map (Write.adds weight)).sum := by
  induction writes generalizing rows with
  | nil => simp
  | cons write rest ih =>
      have later := ih (unique.apply write)
      have first : total weight (write.apply rows) ≤ total weight rows + write.adds weight := by
        cases write with
        | put row => exact total_put_le weight unique
        | del k => exact total_del_le weight k
      simp only [applyAll, List.map_cons, List.sum_cons]
      omega

/-- A row that goes. -/
theorem total_del_old (unique : UniqueKeys rows) (stored : old ∈ rows) :
    total weight ((Write.del (key old) : Write Row Key).apply rows) + weight old = total weight rows := by
  induction rows with
  | nil => cases stored
  | cons first rest ih =>
      simp only [UniqueKeys, List.map_cons, List.nodup_cons] at unique
      rcases List.mem_cons.mp stored with rfl | inside
      · have others : rest.filter (fun r => key r ≠ key old) = rest := by
          rw [List.filter_eq_self]
          intro r inside
          simpa using fun equal : key r = key old => unique.1 (equal ▸ List.mem_map_of_mem inside)
        simp only [ne_eq, decide_not] at others
        simp [Write.apply, others, Nat.add_comm]
      · have apart : key first ≠ key old := by
          intro equal
          exact unique.1 (equal ▸ List.mem_map_of_mem inside)
        have rest' := ih unique.2 inside
        simp only [Write.apply, ne_eq, decide_not] at rest'
        simp only [Write.apply, List.filter_cons, apart, ne_eq, decide_not, decide_false, Bool.not_false, if_true,
          total_cons]
        omega

/-- The write leaves under its key what weighs as much as the row that was there, or nothing. -/
def Write.Even (rows : List Row) : Write Row Key → Prop
  | .put row => (∃ old ∈ rows, key old = key row ∧ weight old = weight row) ∨
      ((∀ old ∈ rows, key old ≠ key row) ∧ weight row = 0)
  | .del k => ∀ old ∈ rows, key old = k → weight old = 0

theorem Write.Even.total {write : Write Row Key} (even : write.Even weight rows) (unique : UniqueKeys rows) :
    total weight (write.apply rows) = total weight rows := by
  cases write with
  | put row =>
      rcases even with ⟨old, stored, same, weighs⟩ | ⟨absent, nothing⟩
      · have replaced := total_put_old weight unique stored same
        omega
      · rw [total_put_new weight absent, nothing, Nat.add_zero]
  | del k =>
      by_cases present : ∃ old ∈ rows, key old = k
      · obtain ⟨old, stored, rfl⟩ := present
        have removed := total_del_old weight unique stored
        have nothing := even old stored rfl
        omega
      · have still : (Write.del k : Write Row Key).apply rows = rows := by
          rw [Write.apply, List.filter_eq_self]
          intro row inside
          simpa using fun equal => present ⟨row, inside, equal⟩
        rw [still]

theorem Write.Even.apply {write other : Write Row Key} (even : write.Even weight rows)
    (later : other.Even weight rows) (unique : UniqueKeys rows) : other.Even weight (write.apply rows) := by
  have stays : ∀ {row}, row ∈ rows → key row ≠ write.target → row ∈ write.apply rows := by
    intro row stored different
    rw [mem_apply, if_neg different.symm]
    exact stored
  have there : ∀ {row}, row ∈ write.apply rows → write = .put row ∨ row ∈ rows ∧ key row ≠ write.target := by
    intro row member
    rw [mem_apply] at member
    by_cases same : write.target = key row
    · rw [if_pos same] at member
      cases write with
      | put _ => exact Or.inl (congrArg Write.put (Option.some.inj member))
      | del _ => cases member
    · rw [if_neg same] at member
      exact Or.inr ⟨member, Ne.symm same⟩
  cases other with
  | del k =>
      intro row member same
      rcases there member with rfl | ⟨old, _⟩
      · rcases even with ⟨old, stored, equal, weighs⟩ | ⟨_, nothing⟩
        · exact weighs.symm.trans (later old stored (equal.trans same))
        · exact nothing
      · exact later row old same
  | put row =>
      by_cases mine : key row = write.target
      · cases write with
        | put first =>
            refine Or.inl ⟨first, mem_applyAll_put rows first, mine.symm, ?_⟩
            rcases even with ⟨old, stored, equal, weighs⟩ | ⟨absent, nothing⟩
            · rcases later with ⟨old', stored', equal', weighs'⟩ | ⟨absent', _⟩
              · obtain rfl := unique.eq_of_key stored' stored (equal'.trans (mine.trans equal.symm))
                exact weighs.symm.trans weighs'
              · exact absurd (equal.trans mine.symm) (absent' old stored)
            · rcases later with ⟨old', stored', equal', _⟩ | ⟨_, nothing'⟩
              · exact absurd (equal'.trans mine) (absent old' stored')
              · exact nothing.trans nothing'.symm
        | del k =>
            refine Or.inr ⟨?_, ?_⟩
            · intro old member same
              rcases there member with equal | ⟨_, different⟩
              · cases equal
              · exact different (same.trans mine)
            · rcases later with ⟨old', stored', equal', weighs'⟩ | ⟨_, nothing'⟩
              · exact weighs'.symm.trans (even old' stored' (equal'.trans mine))
              · exact nothing'
      · rcases later with ⟨old, stored, equal, weighs⟩ | ⟨absent, nothing⟩
        · exact Or.inl ⟨old, stays stored (by rw [equal]; exact mine), equal, weighs⟩
        · refine Or.inr ⟨?_, nothing⟩
          intro old member same
          rcases there member with rfl | ⟨stored, _⟩
          · exact mine same.symm
          · exact absent old stored same

theorem total_applyAll_even {writes : List (Write Row Key)} (unique : UniqueKeys rows)
    (even : ∀ write ∈ writes, write.Even weight rows) : total weight (applyAll rows writes) = total weight rows := by
  induction writes generalizing rows with
  | nil => rfl
  | cons write rest ih =>
      have first := even write List.mem_cons_self
      rw [applyAll, ih (unique.apply write) fun other member =>
        first.apply weight (even other (List.mem_cons_of_mem _ member)) unique]
      exact first.total weight unique

end Kurul.Store
