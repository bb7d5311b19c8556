import Kurul.Store.Program

/-! Typed tables inside the one row list, foreign keys with their delete rules,
unique constraints, and the statements a client issues against them. -/

namespace Kurul.Store

/-- What becomes of a row when the row it refers to is deleted. -/
inductive OnDelete where
  | cascade
  | setNull
  | restrict
  deriving DecidableEq

/-- A foreign key. A composite one also names what the target itself has to refer to. -/
structure Reference (Key : Type) where
  target : Key
  onDelete : OnDelete
  through : Option Key := none
  deriving DecidableEq

namespace Reference

variable {Key : Type}

def cascades (target : Key) : Reference Key := { target, onDelete := .cascade }
def restricts (target : Key) : Reference Key := { target, onDelete := .restrict }
def setsNull (target : Key) : Reference Key := { target, onDelete := .setNull }

end Reference

/-- Foreign keys and unique constraints of a keyed row. A unique constraint is
named by a key of its own, so that inserters can lock it. -/
class Relational (Row : Type) (Key : outParam Type) extends Keyed Row Key where
  refs : Row → List (Reference Key)
  uniques : Row → List Key
  /-- The row with its reference to a deleted row set to null. -/
  unset : Key → Row → Row
  key_unset : ∀ k row, key (unset k row) = key row

export Relational (refs uniques unset)

/-- The rows of one table. -/
class Entity (Row : Type) (α : Type) where
  toRow : α → Row
  ofRow : Row → Option α
  ofRow_eq : ∀ row a, ofRow row = some a ↔ toRow a = row

export Entity (toRow ofRow)

/-- The refusals a database can answer with. -/
class DatabaseErrors (Error : Type) where
  recordNotFound : Error
  uniqueViolation : Error
  foreignKeyViolation : Error

variable {Row Key Error α : Type}

def table [Entity Row α] (rows : List Row) : List α := rows.filterMap ofRow

@[simp] theorem ofRow_toRow [Entity Row α] (a : α) : ofRow (toRow a : Row) = some a :=
  (Entity.ofRow_eq _ _).mpr rfl

theorem toRow_injective [Entity Row α] : Function.Injective (toRow : α → Row) := by
  intro a b same
  have := congrArg (ofRow : Row → Option α) same
  simpa using this

@[simp] theorem mem_table [Entity Row α] {rows : List Row} {a : α} :
    a ∈ table rows ↔ toRow a ∈ rows := by
  simp only [table, List.mem_filterMap, Entity.ofRow_eq]
  constructor
  · rintro ⟨row, member, rfl⟩; exact member
  · intro member; exact ⟨_, member, rfl⟩

/-- Distinct primary keys, read off one table. -/
theorem table_pairwise [Keyed Row Key] [Entity Row α] {rows : List Row} (unique : UniqueKeys rows) :
    (table rows : List α).Pairwise fun a b => key (toRow a : Row) ≠ key (toRow b : Row) := by
  refine List.Pairwise.filterMap ofRow ?_ (List.pairwise_map.mp unique)
  intro row row' different a found b found'
  rw [(Entity.ofRow_eq row a).mp found, (Entity.ofRow_eq row' b).mp found']
  exact different

section Deletion

variable [Relational Row Key] [DecidableEq Key]

/-- The row that a foreign key points to. -/
def Reference.found (ref : Reference Key) (parent : Row) : Bool :=
  key parent = ref.target && ref.through.all fun k => (refs parent).any (·.target = k)

/-- Rows that a cascading foreign key deletes along with these. -/
def children (rows : List Row) (keys : List Key) : List Key :=
  (rows.filter fun row =>
    (refs row).any fun ref => ref.onDelete = .cascade && keys.contains ref.target).map Keyed.key

/-- The keys reached from these in a number of rounds of cascading. -/
def reached (rows : List Row) (keys : List Key) : Nat → List Key
  | 0 => keys
  | n + 1 => reached rows (keys ++ (children rows keys).filter (fun k => k ∉ keys)) n

/-- Every row the deletion of these takes along. No chain of references is longer
than there are rows. -/
def cascade (rows : List Row) (keys : List Key) : List Key := reached rows keys rows.length

/-- Some surviving row forbids the deletion. -/
def restricted (rows : List Row) (doomed : List Key) : Bool :=
  rows.any fun row => key row ∉ doomed &&
    (refs row).any fun ref => ref.onDelete = .restrict && doomed.contains ref.target

/-- The surviving row, its references to deleted rows set to null. -/
def orphaned (doomed : List Key) (row : Row) : Option (Write Row Key) :=
  match (refs row).filter (fun ref => ref.onDelete = .setNull && doomed.contains ref.target) with
  | [] => none
  | dangling => some (.put (dangling.foldl (fun row ref => unset ref.target row) row))

def deletion (rows : List Row) (doomed : List Key) : List (Write Row Key) :=
  (doomed.filter fun k => rows.any (fun row => key row = k)).map .del ++
    (rows.filter fun row => key row ∉ doomed).filterMap (orphaned doomed)

/-- A set of keys that holds the deleted rows and, with a row, what cascades from
it, holds everything the deletion takes along. -/
theorem reached_subset {rows : List Row} {S : Key → Prop}
    (closed : ∀ row ∈ rows, ∀ ref ∈ refs row, ref.onDelete = .cascade → S ref.target → S (key row))
    (n : Nat) {keys : List Key} (start : ∀ k ∈ keys, S k) : ∀ k ∈ reached rows keys n, S k := by
  induction n generalizing keys with
  | zero => exact start
  | succ n ih =>
      apply ih
      intro k member
      obtain old | new := List.mem_append.mp member
      · exact start k old
      · obtain ⟨row, child, rfl⟩ := List.mem_map.mp (List.mem_filter.mp new).1
        rw [List.mem_filter, List.any_eq_true] at child
        obtain ⟨stored, ref, listed, cascades⟩ := child
        simp only [Bool.and_eq_true, decide_eq_true_eq, List.contains_iff_mem] at cascades
        exact closed row stored ref listed cascades.1 (start _ cascades.2)

theorem cascade_subset {rows : List Row} {S : Key → Prop}
    (closed : ∀ row ∈ rows, ∀ ref ∈ refs row, ref.onDelete = .cascade → S ref.target → S (key row))
    {keys : List Key} (start : ∀ k ∈ keys, S k) : ∀ k ∈ cascade rows keys, S k :=
  reached_subset closed _ start

theorem subset_reached {rows : List Row} (n : Nat) {keys : List Key} {k : Key}
    (member : k ∈ keys) : k ∈ reached rows keys n := by
  induction n generalizing keys with
  | zero => exact member
  | succ n ih => exact ih (List.mem_append_left _ member)

theorem mem_deletion {rows : List Row} {doomed : List Key} {write : Write Row Key}
    (member : write ∈ deletion rows doomed) :
    (∃ k ∈ doomed, write = .del k) ∨
      ∃ row ∈ rows, key row ∉ doomed ∧ orphaned doomed row = some write := by
  obtain removed | kept := List.mem_append.mp member
  · obtain ⟨k, doomedKey, rfl⟩ := List.mem_map.mp removed
    exact Or.inl ⟨k, (List.mem_filter.mp doomedKey).1, rfl⟩
  · obtain ⟨row, stays, emitted⟩ := List.mem_filterMap.mp kept
    obtain ⟨stored, outside⟩ := List.mem_filter.mp stays
    exact Or.inr ⟨row, stored, by simpa using outside, emitted⟩

omit [DecidableEq Key] in
theorem key_foldl_unset (dangling : List (Reference Key)) (row : Row) :
    key (dangling.foldl (fun row ref => unset ref.target row) row) = key row := by
  induction dangling generalizing row with
  | nil => rfl
  | cons ref rest ih => rw [List.foldl_cons, ih, Relational.key_unset]

/-- A stored row the deletion starts from is removed. -/
theorem touched_deletion {rows : List Row} {keys : List Key} {row : Row} (stored : row ∈ rows)
    (named : key row ∈ keys) : key row ∈ touched (deletion rows (cascade rows keys)) := by
  have removed : Write.del (key row) ∈ deletion rows (cascade rows keys) := by
    refine List.mem_append_left _ (List.mem_map_of_mem (List.mem_filter.mpr ⟨?_, ?_⟩))
    · exact subset_reached _ named
    · simpa using ⟨row, stored, rfl⟩
  exact List.mem_map_of_mem (f := Write.target) removed

end Deletion

section Statements

variable [Relational Row Key] [DecidableEq Key] [Entity Row α]

/-- A condition on the rows of a table, which may look at related rows. -/
abbrev Where (Row α : Type) := List Row → α → Bool

namespace Statement

/-- `findFirst`, in storage order. -/
def findFirst (where_ : Where Row α) : Statement Row Key Error (Option α) :=
  read fun rows => (table rows).find? (where_ rows)

def findMany (where_ : Where Row α) : Statement Row Key Error (List α) :=
  read fun rows => (table rows).filter (where_ rows)

def count (where_ : Where Row α) : Statement Row Key Error Nat :=
  read fun rows => (table rows).countP (where_ rows)

/-- `SELECT … FOR UPDATE` of one row. A missing row locks nothing. -/
def lockForUpdate (k : Key) : Statement Row Key Error Unit := fun rows =>
  .ok { result := (), locks := if rows.any (fun row => key row = k) then [(k, .update)] else [] }

variable [DatabaseErrors Error]

/-- The constraints a row has to meet to be stored in place of one that refers to `old`. -/
def checkRow (rows : List Row) (old : List (Reference Key)) (row : Row) : Except Error (Held Key) :=
  let added := (refs row).filter fun ref => ref ∉ old
  if added.any fun ref => !(rows.any (ref.found ·)) then
    .error DatabaseErrors.foreignKeyViolation
  else if rows.any fun other => key other ≠ key row && (uniques row).any (uniques other).contains then
    .error DatabaseErrors.uniqueViolation
  else
    .ok (added.map (fun ref => (ref.target, .keyShare)) ++
      (uniques row).map (fun u => (u, .noKeyUpdate)))

/-- `create`: the row under a fresh primary key. -/
def create (a : α) : Statement Row Key Error α := fun rows =>
  if rows.any fun row => key row = key (toRow a : Row) then .error DatabaseErrors.uniqueViolation
  else do
    let locks ← checkRow rows [] (toRow a)
    return { result := a, writes := [.put (toRow a)], locks }

/-- The rows given one after the other; with `skip`, a row that a unique
constraint refuses is left out instead of refusing them all. -/
def insertAll (skip : Bool) :
    List α → List Row → Except Error (List (Write Row Key) × Held Key × Nat)
  | [], _ => .ok ([], [], 0)
  | a :: rest, rows =>
      match (create a rows : Except Error (Outcome Row Key α)) with
      | .ok o => do
          let (writes, locks, n) ← insertAll skip rest (applyAll rows o.writes)
          return (o.writes ++ writes, o.locks ++ locks, n + 1)
      | .error error =>
          if skip && rows.any fun other =>
              key other = key (toRow a : Row) ||
                (uniques (toRow a : Row)).any (uniques other).contains then
            insertAll skip rest rows
          else .error error

/-- `createMany`; answers how many rows went in. -/
def createMany (items : List α) (skipDuplicates : Bool := false) : Statement Row Key Error Nat :=
  fun rows => do
    let (writes, locks, n) ← insertAll skipDuplicates items rows
    return { result := n, writes, locks }

/-- Rewrites of stored rows, each checked against its constraints. -/
def rewriteAll (change : α → α) :
    List α → List Row → Except Error (List (Write Row Key) × Held Key)
  | [], _ => .ok ([], [])
  | a :: rest, rows => do
      let locks : Held Key ← checkRow rows (refs (toRow a : Row)) (toRow (change a))
      let (writes, more) ← rewriteAll change rest rows
      return (.put (toRow (change a)) :: writes, locks ++ more)

/-- `updateMany`; answers how many rows matched. -/
def updateMany (where_ : Where Row α) (change : α → α) : Statement Row Key Error Nat := fun rows => do
  let matching := (table rows).filter (where_ rows)
  let (writes, locks) ← rewriteAll change matching rows
  return { result := matching.length, writes, locks }

/-- `update` of the one row a unique condition finds; it has to be there. -/
def update (where_ : Where Row α) (change : α → α) : Statement Row Key Error α := fun rows =>
  match (table rows).find? (where_ rows) with
  | none => .error DatabaseErrors.recordNotFound
  | some a => do
      let locks ← checkRow rows (refs (toRow a : Row)) (toRow (change a))
      return { result := change a, writes := [.put (toRow (change a))], locks }

/-- `deleteMany`; answers how many rows matched, not how many went with them. -/
def deleteMany (where_ : Where Row α) : Statement Row Key Error Nat := fun rows =>
  let matching := (table rows).filter (where_ rows)
  let doomed := cascade rows (matching.map fun a => key (toRow a : Row))
  if restricted rows doomed then .error DatabaseErrors.foreignKeyViolation
  else .ok { result := matching.length, writes := deletion rows doomed }

/-- `delete` of the one row a unique condition finds; it has to be there. -/
def delete (where_ : Where Row α) : Statement Row Key Error α := fun rows =>
  match (table rows).find? (where_ rows) with
  | none => .error DatabaseErrors.recordNotFound
  | some a =>
      let doomed := cascade rows [key (toRow a : Row)]
      if restricted rows doomed then .error DatabaseErrors.foreignKeyViolation
      else .ok { result := a, writes := deletion rows doomed }

section Answers

omit [DatabaseErrors Error] in
theorem bind_ok {x : Except Error β} {f : β → Except Error γ} {c : γ} (ran : x >>= f = .ok c) :
    ∃ b, x = .ok b ∧ f b = .ok c := by
  cases x with
  | error => contradiction
  | ok b => exact ⟨b, rfl, ran⟩

variable {rows : List Row} {where_ : Where Row α} {change : α → α} {a : α} {k : Key}

omit [DatabaseErrors Error] in
theorem lockForUpdate_ok {o : Outcome Row Key Unit}
    (ran : (lockForUpdate k rows : Except Error _) = .ok o) :
    o.writes = [] ∧ ((∃ row ∈ rows, key row = k) → (k, .update) ∈ o.locks) := by
  cases ran
  refine ⟨rfl, fun present => ?_⟩
  have : rows.any (fun row => key row = k) = true := by simpa using present
  simp [this]

theorem create_ok {o : Outcome Row Key α} (ran : (create a rows : Except Error _) = .ok o) :
    o.result = a ∧ o.writes = [.put (toRow a)] ∧ ∀ row ∈ rows, key row ≠ key (toRow a : Row) := by
  unfold create at ran
  split at ran
  · contradiction
  · rename_i absent
    obtain ⟨locks, _, done⟩ := bind_ok ran
    cases done
    exact ⟨rfl, rfl, fun row member same => absent (by simpa using ⟨row, member, same⟩)⟩

/-- What goes in: some of the items, each under a key nobody had; without `skip`, all. -/
theorem insertAll_ok {skip : Bool} {items : List α} {answer : List (Write Row Key) × Held Key × Nat}
    (ran : (insertAll skip items rows : Except Error _) = .ok answer) :
    ∃ stored : List α, stored.Sublist items ∧ (skip = false → stored = items) ∧
      answer.1 = stored.map (fun a => .put (toRow a)) ∧
      (stored.map fun a => key (toRow a : Row)).Nodup ∧
      ∀ a ∈ stored, ∀ row ∈ rows, key row ≠ key (toRow a : Row) := by
  induction items generalizing rows answer with
  | nil =>
      cases ran
      exact ⟨[], .slnil, fun _ => rfl, rfl, List.nodup_nil, by simp⟩
  | cons a rest ih =>
      unfold insertAll at ran
      split at ran
      · rename_i o created
        obtain ⟨_, written, new⟩ := create_ok created
        obtain ⟨more, later, done⟩ := bind_ok ran
        cases done
        obtain ⟨stored, sub, all, same, keys, fresh⟩ := ih later
        rw [written] at fresh
        have own : toRow a ∈ applyAll rows [.put (toRow a)] := mem_applyAll_put rows (toRow a)
        refine ⟨a :: stored, sub.cons_cons a, fun every => by rw [all every], by simp [written, same],
          List.nodup_cons.mpr ⟨fun twice => ?_, keys⟩, ?_⟩
        · obtain ⟨b, member, clash⟩ := List.mem_map.mp twice
          exact fresh b member _ own clash.symm
        · intro b member row present
          obtain rfl | later := List.mem_cons.mp member
          · exact new row present
          · intro clash
            refine fresh b later row ?_ clash
            refine (mem_applyAll_untouched _ ?_).mpr present
            simpa [touched, Write.target] using new row present
      · split at ran
        · obtain ⟨stored, sub, all, rest⟩ := ih ran
          rename_i passed
          rw [Bool.and_eq_true] at passed
          exact ⟨stored, sub.cons a, fun every => by rw [every] at passed; simp at passed, rest⟩
        · contradiction

/-- How many went in. -/
theorem insertAll_count {skip : Bool} {items : List α}
    {answer : List (Write Row Key) × Held Key × Nat}
    (ran : (insertAll skip items rows : Except Error _) = .ok answer) : answer.2.2 = answer.1.length := by
  induction items generalizing rows answer with
  | nil =>
      cases ran
      rfl
  | cons a rest ih =>
      unfold insertAll at ran
      split at ran
      · rename_i o created
        obtain ⟨_, written, _⟩ := create_ok created
        obtain ⟨more, later, done⟩ := bind_ok ran
        cases done
        simp [written, ih later, Nat.add_comm]
      · split at ran
        · exact ih ran
        · contradiction

/-- The rows have no key in common. -/
def Distinct (a b : Row) : Prop := key a ≠ key b ∧ ∀ k ∈ uniques a, k ∉ uniques b

theorem createMany_ok {skip : Bool} {items : List α} {o : Outcome Row Key Nat}
    (ran : (createMany items skip rows : Except Error _) = .ok o) :
    ∃ stored : List α, stored.Sublist items ∧ (skip = false → stored = items) ∧
      o.writes = stored.map (fun a => .put (toRow a)) ∧
      (stored.map fun a => key (toRow a : Row)).Nodup ∧
      ∀ a ∈ stored, ∀ row ∈ rows, key row ≠ key (toRow a : Row) := by
  obtain ⟨answer, inserted, done⟩ := bind_ok ran
  cases done
  exact insertAll_ok inserted

theorem createMany_count {skip : Bool} {items : List α} {o : Outcome Row Key Nat}
    (ran : (createMany items skip rows : Except Error _) = .ok o) : o.result = o.writes.length := by
  obtain ⟨answer, inserted, done⟩ := bind_ok ran
  cases done
  exact insertAll_count inserted

theorem update_ok {o : Outcome Row Key α} (ran : (update where_ change rows : Except Error _) = .ok o) :
    ∃ a ∈ table rows, where_ rows a ∧ o.result = change a ∧
      o.writes = [.put (toRow (change a))] := by
  unfold update at ran
  split at ran
  · contradiction
  · rename_i a found
    obtain ⟨locks, _, done⟩ := bind_ok ran
    cases done
    exact ⟨a, List.mem_of_find?_eq_some found, List.find?_some found, rfl, rfl⟩

theorem rewriteAll_ok {items : List α} {answer : List (Write Row Key) × Held Key}
    (ran : (rewriteAll change items rows : Except Error _) = .ok answer) :
    answer.1 = items.map fun a => .put (toRow (change a)) := by
  induction items generalizing answer with
  | nil => cases ran; rfl
  | cons a rest ih =>
      obtain ⟨locks, _, ran⟩ := bind_ok ran
      obtain ⟨more, later, done⟩ := bind_ok ran
      cases done
      rw [List.map_cons, ← ih later]

theorem updateMany_ok {o : Outcome Row Key Nat}
    (ran : (updateMany where_ change rows : Except Error _) = .ok o) :
    o.result = ((table rows).filter (where_ rows)).length ∧
      o.writes = ((table rows).filter (where_ rows)).map fun a => .put (toRow (change a)) := by
  obtain ⟨answer, rewritten, done⟩ := bind_ok ran
  cases done
  exact ⟨rfl, rewriteAll_ok rewritten⟩

theorem deleteMany_ok {o : Outcome Row Key Nat}
    (ran : (deleteMany where_ rows : Except Error _) = .ok o) :
    let matching := (table rows).filter (where_ rows)
    o.result = matching.length ∧
      o.writes = deletion rows (cascade rows (matching.map fun a => key (toRow a : Row))) := by
  simp only [deleteMany] at ran
  split at ran
  · contradiction
  · cases ran; exact ⟨rfl, rfl⟩

theorem delete_ok {o : Outcome Row Key α} (ran : (delete where_ rows : Except Error _) = .ok o) :
    ∃ a ∈ table rows, where_ rows a ∧ o.result = a ∧
      o.writes = deletion rows (cascade rows [key (toRow a : Row)]) := by
  unfold delete at ran
  split at ran
  · contradiction
  · rename_i a found
    dsimp only at ran
    split at ran
    · contradiction
    · cases ran
      exact ⟨a, List.mem_of_find?_eq_some found, List.find?_some found, rfl, rfl⟩

end Answers

end Statement
end Statements
end Kurul.Store
