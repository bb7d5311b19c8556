import Mathlib

/-! Maps that remember the order in which their keys were first stored. -/
namespace Kurul.InsertionMap

variable {K V : Type} [DecidableEq K]

/-- A key that is there keeps its place; a new one goes to the end. -/
def set (entries : List (K × V)) (key : K) (value : V) : List (K × V) :=
  if (entries.lookup key).isSome then entries.map fun entry => if entry.1 = key then (key, value) else entry
  else entries ++ [(key, value)]

def delete (entries : List (K × V)) (key : K) : List (K × V) := entries.filter fun entry => entry.1 ≠ key

def Distinct (entries : List (K × V)) : Prop := (entries.map Prod.fst).Nodup

variable {entries : List (K × V)} {key other : K} {value : V}

theorem lookup_cons_ne {rest : List (K × V)} (apart : other ≠ key) :
    ((key, value) :: rest).lookup other = rest.lookup other := by
  have unlike : (other == key) = false := by simpa using apart
  rw [List.lookup_cons, unlike]

theorem lookup_delete : (delete entries key).lookup other = if other = key then none else entries.lookup other := by
  unfold delete
  induction entries with
  | nil => simp
  | cons entry rest ih =>
      obtain ⟨k, v⟩ := entry
      by_cases here : k = key
      · subst here
        rw [List.filter_cons_of_neg (by simp), ih]
        by_cases same : other = k
        · rw [if_pos same, if_pos same]
        · rw [if_neg same, if_neg same, lookup_cons_ne same]
      · rw [List.filter_cons_of_pos (by simpa using here)]
        by_cases same : other = k
        · subst same
          rw [List.lookup_cons_self, if_neg here, List.lookup_cons_self]
        · rw [lookup_cons_ne same, ih, lookup_cons_ne same]

theorem lookup_map_set : (entries.map fun entry => if entry.1 = key then (key, value) else entry).lookup other =
    if other = key then (entries.lookup key).map fun _ => value else entries.lookup other := by
  induction entries with
  | nil => simp
  | cons entry rest ih =>
      obtain ⟨k, v⟩ := entry
      rw [List.map_cons]
      by_cases here : k = key
      · subst here
        rw [if_pos rfl, List.lookup_cons_self]
        by_cases same : other = k
        · rw [if_pos same, same, List.lookup_cons_self]
          rfl
        · rw [if_neg same, lookup_cons_ne same, ih, if_neg same, lookup_cons_ne same]
      · rw [if_neg here, lookup_cons_ne (Ne.symm here)]
        by_cases same : other = k
        · subst same
          rw [List.lookup_cons_self, if_neg here, List.lookup_cons_self]
        · rw [lookup_cons_ne same, ih, lookup_cons_ne same]

theorem set_absent (absent : entries.lookup key = none) : set entries key value = entries ++ [(key, value)] := by
  rw [set, absent]
  rfl

theorem lookup_set : (set entries key value).lookup other = if other = key then some value else entries.lookup other := by
  cases found : entries.lookup key with
  | some old =>
      rw [set, found, Option.isSome_some, if_pos rfl, lookup_map_set, found]
      rfl
  | none =>
      rw [set_absent found, List.lookup_append]
      by_cases same : other = key
      · subst same
        rw [if_pos rfl, found, List.lookup_cons_self]
        rfl
      · rw [if_neg same, lookup_cons_ne same, List.lookup_nil, Option.or_none]

theorem keys_set_present (present : (entries.lookup key).isSome) :
    (set entries key value).map Prod.fst = entries.map Prod.fst := by
  rw [set, if_pos present, List.map_map]
  apply List.map_congr_left
  intro entry _
  by_cases same : entry.1 = key <;> simp [same]

theorem notMem_keys (absent : entries.lookup key = none) : key ∉ entries.map Prod.fst := by
  intro member
  obtain ⟨entry, listed, rfl⟩ := List.mem_map.mp member
  have apart := List.lookup_eq_none_iff.mp absent entry listed
  simp at apart

theorem Distinct.delete (distinct : Distinct entries) : Distinct (delete entries key) :=
  distinct.sublist (List.filter_sublist.map Prod.fst)

theorem Distinct.set (distinct : Distinct entries) : Distinct (set entries key value) := by
  cases found : entries.lookup key with
  | some old =>
      rw [Distinct, keys_set_present (by simp [found])]
      exact distinct
  | none =>
      rw [Distinct, set_absent found, List.map_append, List.map_singleton]
      exact List.nodup_append_comm.mp (List.nodup_cons.mpr ⟨notMem_keys found, distinct⟩)

theorem length_set_present (present : (entries.lookup key).isSome) :
    (set entries key value).length = entries.length := by
  have keys : (set entries key value).map Prod.fst = entries.map Prod.fst := keys_set_present present
  simpa using congrArg List.length keys

theorem length_set_absent (absent : entries.lookup key = none) :
    (set entries key value).length = entries.length + 1 := by
  rw [set_absent absent, List.length_append, List.length_singleton]

theorem length_delete_lt (present : key ∈ entries.map Prod.fst) : (delete entries key).length < entries.length := by
  obtain ⟨entry, listed, rfl⟩ := List.mem_map.mp present
  exact List.length_filter_lt_length_iff_exists.mpr ⟨entry, listed, by simp⟩

theorem Distinct.lookup_of_mem (distinct : Distinct entries) (listed : (key, value) ∈ entries) :
    entries.lookup key = some value := by
  induction entries with
  | nil => cases listed
  | cons entry rest ih =>
      obtain ⟨fresh, distinct⟩ := List.nodup_cons.mp distinct
      rcases List.mem_cons.mp listed with rfl | later
      · exact List.lookup_cons_self
      · have apart : (key == entry.1) = false := by
          rw [beq_eq_false_iff_ne]
          rintro rfl
          exact fresh (List.mem_map.mpr ⟨_, later, rfl⟩)
        rw [List.lookup_cons, apart]
        exact ih distinct later

theorem mem_keys_of_lookup (found : entries.lookup key = some value) : (key, value) ∈ entries := by
  obtain ⟨before, after, rfl, _⟩ := List.lookup_eq_some_iff.mp found
  simp

end Kurul.InsertionMap
