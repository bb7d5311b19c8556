import Mathlib

/-! A database as a list of keyed rows, and the row writes that change it. One
list holds the rows of every table; a key names the table as well as the row.
No statement language and no transactions yet. -/
namespace Kurul.Store

/-- Every row is found by one key. -/
class Keyed (Row : Type) (Key : outParam Type) where
  key : Row → Key

export Keyed (key)

/-- A single row write: store this row under its key, or remove the row of a key. -/
inductive Write (Row Key : Type) where
  | put (row : Row)
  | del (key : Key)

variable {Row Key : Type} [Keyed Row Key]

def Write.target : Write Row Key → Key
  | .put row => key row
  | .del k => k

/-- What the write leaves under its target. -/
def Write.value : Write Row Key → Option Row
  | .put row => some row
  | .del _ => none

def touched (writes : List (Write Row Key)) : List Key := writes.map Write.target

@[simp] theorem touched_append (first second : List (Write Row Key)) :
    touched (first ++ second) = touched first ++ touched second := List.map_append

/-- Primary keys: no two stored rows share a key. -/
def UniqueKeys (rows : List Row) : Prop := (rows.map key).Nodup

instance [DecidableEq Key] (rows : List Row) : Decidable (UniqueKeys rows) :=
  inferInstanceAs (Decidable (rows.map key).Nodup)

variable {rows others : List Row} {row a b : Row}

theorem UniqueKeys.eq_of_key (unique : UniqueKeys rows) (left : a ∈ rows) (right : b ∈ rows)
    (same : key a = key b) : a = b :=
  List.inj_on_of_nodup_map unique left right same

variable [DecidableEq Key]

/-- A stored row is replaced in place, so that an update does not move it; a new
row goes to the end. -/
def Write.apply (rows : List Row) : Write Row Key → List Row
  | .put row =>
      if rows.any (fun r => key r = key row) then
        rows.map (fun r => if key r = key row then row else r)
      else rows ++ [row]
  | .del k => rows.filter (fun r => key r ≠ k)

def applyAll (rows : List Row) : List (Write Row Key) → List Row
  | [] => rows
  | write :: rest => applyAll (write.apply rows) rest

/-- What a sequence of writes leaves under a key: `none` where it is untouched,
`some none` where the row is removed. -/
def overlay : List (Write Row Key) → Key → Option (Option Row)
  | [], _ => none
  | write :: rest, k =>
      match overlay rest k with
      | some value => some value
      | none => if write.target = k then some write.value else none

@[simp] theorem applyAll_nil (rows : List Row) :
    applyAll rows ([] : List (Write Row Key)) = rows := rfl

theorem applyAll_append (rows : List Row) (first second : List (Write Row Key)) :
    applyAll rows (first ++ second) = applyAll (applyAll rows first) second := by
  induction first generalizing rows with
  | nil => rfl
  | cons write rest ih => exact ih (write.apply rows)

theorem mem_apply (rows : List Row) (write : Write Row Key) (row : Row) :
    row ∈ write.apply rows ↔
      if write.target = key row then write.value = some row else row ∈ rows := by
  cases write with
  | del k =>
      by_cases same : k = key row
      · simp [Write.apply, Write.target, Write.value, same]
      · simp [Write.apply, Write.target, same, Ne.symm same]
  | put stored =>
      by_cases present : rows.any (fun r => key r = key stored)
      · obtain ⟨old, member, oldKey⟩ : ∃ r ∈ rows, key r = key stored := by simpa using present
        simp only [Write.apply, present, if_true, List.mem_map, Write.target, Write.value,
          Option.some.injEq]
        by_cases same : key stored = key row
        · rw [if_pos same]
          constructor
          · rintro ⟨r, _, emitted⟩
            split at emitted
            · exact emitted
            · exact absurd (emitted ▸ same.symm) (by assumption)
          · rintro rfl
            exact ⟨old, member, if_pos oldKey⟩
        · rw [if_neg same]
          constructor
          · rintro ⟨r, stays, emitted⟩
            split at emitted
            · exact absurd (congrArg key emitted) same
            · exact emitted ▸ stays
          · intro stays
            exact ⟨row, stays, if_neg (Ne.symm same)⟩
      · simp only [Write.apply, present, Bool.false_eq_true, if_false, List.mem_append,
          List.mem_singleton, Write.target, Write.value, Option.some.injEq]
        by_cases same : key stored = key row
        · rw [if_pos same]
          have absent : row ∉ rows := fun member =>
            present (by simpa using ⟨row, member, same.symm⟩)
          simp [absent, eq_comm]
        · rw [if_neg same]
          have different : row ≠ stored := fun equal => same (congrArg key equal).symm
          simp [different]

/-- The rows after a sequence of writes, read off the last write of each key. -/
theorem mem_applyAll (rows : List Row) (writes : List (Write Row Key)) (row : Row) :
    row ∈ applyAll rows writes ↔
      match overlay writes (key row) with
      | some value => value = some row
      | none => row ∈ rows := by
  induction writes generalizing rows with
  | nil => simp [overlay]
  | cons write rest ih =>
      simp only [applyAll, ih, overlay]
      cases overlay rest (key row) with
      | some value => simp
      | none =>
          simp only [mem_apply]
          by_cases same : write.target = key row <;> simp [same]

theorem overlay_none_iff (writes : List (Write Row Key)) (k : Key) :
    overlay writes k = none ↔ k ∉ touched writes := by
  induction writes with
  | nil => simp [overlay, touched]
  | cons write rest ih =>
      simp only [overlay, touched, List.map_cons, List.mem_cons, not_or] at *
      cases found : overlay rest k with
      | some value => simp [found] at ih; simp [ih]
      | none =>
          have later := ih.mp found
          by_cases same : write.target = k
          · simp [same]
          · simp [same, Ne.symm same, later]

theorem mem_applyAll_untouched (writes : List (Write Row Key))
    (untouched : key row ∉ touched writes) : row ∈ applyAll rows writes ↔ row ∈ rows := by
  rw [mem_applyAll, (overlay_none_iff _ _).mpr untouched]

/-- Under a key that was written, what is there does not depend on the rows before. -/
theorem mem_applyAll_touched {writes : List (Write Row Key)} (rows others : List Row)
    (written : key row ∈ touched writes) : row ∈ applyAll rows writes ↔ row ∈ applyAll others writes := by
  rw [mem_applyAll, mem_applyAll]
  cases found : overlay writes (key row) with
  | some value => rfl
  | none => exact absurd written ((overlay_none_iff _ _).mp found)

/-- A row that the writes left is one they stored, or an old untouched one. -/
theorem mem_applyAll_cases {rows : List Row} {writes : List (Write Row Key)}
    (member : row ∈ applyAll rows writes) :
    Write.put row ∈ writes ∨ (row ∈ rows ∧ key row ∉ touched writes) := by
  induction writes generalizing rows with
  | nil => exact Or.inr ⟨member, by simp [touched]⟩
  | cons write rest ih =>
      obtain stored | ⟨earlier, untouched⟩ := ih member
      · exact Or.inl (List.mem_cons_of_mem _ stored)
      · rw [mem_apply] at earlier
        by_cases same : write.target = key row
        · rw [if_pos same] at earlier
          cases write with
          | put stored => cases earlier; exact Or.inl List.mem_cons_self
          | del k => simp [Write.value] at earlier
        · rw [if_neg same] at earlier
          refine Or.inr ⟨earlier, ?_⟩
          simp only [touched, List.map_cons, List.mem_cons, not_or]
          exact ⟨Ne.symm same, untouched⟩

theorem overlay_cases {writes : List (Write Row Key)} {k : Key} {value : Option Row}
    (left : overlay writes k = some value) :
    ∃ write ∈ writes, write.target = k ∧ write.value = value := by
  induction writes with
  | nil => contradiction
  | cons write rest ih =>
      simp only [overlay] at left
      cases later : overlay rest k with
      | some found =>
          obtain ⟨write', member, facts⟩ := ih (by simpa [later] using left)
          exact ⟨write', List.mem_cons_of_mem _ member, facts⟩
      | none =>
          simp only [later, Option.ite_none_right_eq_some, Option.some.injEq] at left
          exact ⟨write, List.mem_cons_self, left⟩

/-- A key that is only ever stored under, and is, has a row afterwards. -/
theorem exists_mem_applyAll (rows : List Row) {writes : List (Write Row Key)} {k : Key}
    {Q : Row → Prop} (stored : k ∈ touched writes)
    (puts : ∀ write ∈ writes, write.target = k → ∃ row, write = .put row ∧ Q row) :
    ∃ row ∈ applyAll rows writes, key row = k ∧ Q row := by
  cases found : overlay writes k with
  | none => exact absurd stored ((overlay_none_iff _ _).mp found)
  | some value =>
      obtain ⟨write, member, target, left⟩ := overlay_cases found
      obtain ⟨row, rfl, fact⟩ := puts write member target
      cases left
      have same : key row = k := target
      exact ⟨row, by rw [mem_applyAll, same, found]; rfl, same, fact⟩

theorem mem_applyAll_put (rows : List Row) (row : Row) : row ∈ applyAll rows [.put row] :=
  (mem_apply rows (.put row) row).mpr (by simp [Write.target, Write.value])

theorem UniqueKeys.apply (unique : UniqueKeys rows) (write : Write Row Key) :
    UniqueKeys (write.apply rows) := by
  cases write with
  | del k => exact List.Nodup.sublist (List.Sublist.map _ List.filter_sublist) unique
  | put stored =>
      by_cases present : rows.any (fun r => key r = key stored)
      · have keys : (rows.map (fun r => if key r = key stored then stored else r)).map key =
            rows.map key := by
          rw [List.map_map]
          apply List.map_congr_left
          intro r _
          by_cases same : key r = key stored <;> simp [same]
        simpa only [UniqueKeys, Write.apply, present, if_true, keys] using unique
      · simp only [UniqueKeys, Write.apply, present, Bool.false_eq_true, if_false, List.map_append,
          List.map_cons, List.map_nil]
        refine List.nodup_append.mpr ⟨unique, by simp, ?_⟩
        intro k member k' stored' same
        obtain ⟨r, stays, rfl⟩ := List.mem_map.mp member
        rw [List.mem_singleton] at stored'
        exact present (by simpa using ⟨r, stays, same.trans stored'⟩)

theorem UniqueKeys.applyAll (unique : UniqueKeys rows) (writes : List (Write Row Key)) :
    UniqueKeys (applyAll rows writes) := by
  induction writes generalizing rows with
  | nil => exact unique
  | cons write rest ih => exact ih (unique.apply write)

end Kurul.Store
