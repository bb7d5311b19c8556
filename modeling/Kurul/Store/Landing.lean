import Kurul.Store.Timed
import Kurul.Store.Referential

/-! Rows that a database takes: each of them new, with all it refers to in place and no unique
constraint in its way. Where rows land one after the other, so do the statements that insert them,
in whatever batches, and nothing but a failure from outside can stop them. -/
namespace Kurul.Store

variable {Row Key Event Input Error α β T : Type} [Relational Row Key] [DecidableEq Key]
  {rows more new : List Row} {row : Row}

/-- The constraints a new row meets among these. -/
structure Accepts (rows : List Row) (row : Row) : Prop where
  fresh : ∀ other ∈ rows, key other ≠ key row
  whole : ∀ ref ∈ refs row, ∃ other ∈ rows, ref.found other = true
  unique : ∀ other ∈ rows, ∀ u ∈ uniques row, u ∉ uniques other

/-- Each is accepted among the rows and those before it. -/
def Lands (rows : List Row) : List Row → Prop
  | [] => True
  | row :: rest => Accepts rows row ∧ Lands (rows ++ [row]) rest

theorem lands_append : Lands rows (new ++ more) ↔ Lands rows new ∧ Lands (rows ++ new) more := by
  induction new generalizing rows with
  | nil => simp [Lands]
  | cons row rest ih =>
      rw [List.cons_append, Lands, Lands, ih, List.append_assoc, List.singleton_append, and_assoc]

/-- Rows of one table, none of which refers to another of them. -/
theorem Lands.table (each : ∀ row ∈ new, Accepts rows row)
    (apart : new.Pairwise fun a b => key a ≠ key b ∧ ∀ u ∈ uniques b, u ∉ uniques a) : Lands rows new := by
  induction new generalizing rows with
  | nil => trivial
  | cons row rest ih =>
      obtain ⟨first, apart⟩ := List.pairwise_cons.mp apart
      have here := each row List.mem_cons_self
      refine ⟨here, ih ?_ apart⟩
      intro other listed
      have there := each other (List.mem_cons_of_mem _ listed)
      obtain ⟨different, disjoint⟩ := first other listed
      refine ⟨?_, ?_, ?_⟩
      · rintro old (member : old ∈ rows ++ [row])
        rcases List.mem_append.mp member with member | member
        · exact there.fresh old member
        · exact List.mem_singleton.mp member ▸ different
      · intro ref referred
        obtain ⟨target, member, found⟩ := there.whole ref referred
        exact ⟨target, List.mem_append_left _ member, found⟩
      · rintro old (member : old ∈ rows ++ [row])
        rcases List.mem_append.mp member with member | member
        · exact there.unique old member
        · exact List.mem_singleton.mp member ▸ disjoint

theorem applyAll_put_new (fresh : ∀ other ∈ rows, key other ≠ key row) : applyAll rows [.put row] = rows ++ [row] := by
  have none_ : rows.any (fun other => key other = key row) = false := by simpa using fresh
  simp [applyAll, Write.apply, none_]

section Statements

variable [Entity Row α] [DatabaseErrors Error] {a : α} {items : List α}

variable (Error) in
theorem Accepts.create (accepts : Accepts rows (toRow a : Row)) :
    ∃ locks, (Statement.create a rows : Except Error (Outcome Row Key α)) =
      .ok { result := a, writes := [.put (toRow a)], locks } := by
  have fresh : rows.any (fun row => key row = key (toRow a : Row)) = false := by simpa using accepts.fresh
  have whole : (((refs (toRow a : Row)).filter fun ref => ref ∉ ([] : List (Reference Key))).any
      fun ref => !(rows.any (ref.found ·))) = false := by
    rw [List.any_eq_false]
    intro ref listed
    obtain ⟨other, member, found⟩ := accepts.whole ref (List.mem_filter.mp listed).1
    simpa using ⟨other, member, found⟩
  have unique : (rows.any fun other => key other ≠ key (toRow a : Row) &&
      (uniques (toRow a : Row)).any (uniques other).contains) = false := by
    rw [List.any_eq_false]
    intro other member clash
    rw [Bool.and_eq_true, List.any_eq_true] at clash
    obtain ⟨_, u, listed, taken⟩ := clash
    exact accepts.unique other member u listed (by simpa using taken)
  simp only [Statement.create, fresh, Bool.false_eq_true, if_false, Statement.checkRow, whole, unique]
  exact ⟨_, rfl⟩

variable (Error) in
theorem Lands.insertAll (skip : Bool) (lands : Lands rows (items.map toRow)) :
    ∃ locks, (Statement.insertAll skip items rows : Except Error (List (Write Row Key) × Held Key × Nat)) =
      .ok (items.map fun a => .put (toRow a), locks, items.length) := by
  induction items generalizing rows with
  | nil => exact ⟨[], rfl⟩
  | cons a rest ih =>
      obtain ⟨here, later⟩ := lands
      obtain ⟨locks, created⟩ := here.create Error
      rw [← applyAll_put_new here.fresh] at later
      obtain ⟨others, inserted⟩ := ih later
      refine ⟨locks ++ others, ?_⟩
      simp only [Statement.insertAll, created, inserted]
      rfl

theorem Lands.applyAll (lands : Lands rows new) : applyAll rows (new.map .put) = rows ++ new := by
  induction new generalizing rows with
  | nil => exact (List.append_nil rows).symm
  | cons row rest ih =>
      obtain ⟨here, later⟩ := lands
      have split_ := applyAll_append rows [.put row] (rest.map .put)
      rw [applyAll_put_new here.fresh] at split_
      rw [List.map_cons, ← List.singleton_append, split_, ih later, List.append_assoc, List.singleton_append]

end Statements

namespace Prog.Timely

variable [Preorder T] [Entity Row α] [DatabaseErrors Error] {time : Input → T} {faults : Error → Prop}
  {failed : Error → T → List Row → List (Write Row Key) → Prop} {now : T} {W : List (Write Row Key)}

theorem create {ok : α → T → List Row → List (Write Row Key) → Prop} {a : α}
    (accepts : Accepts (applyAll rows W) (toRow a : Row))
    (refused : ∀ error, faults error → failed error now rows W)
    (rest : ∀ W', applyAll rows W' = applyAll rows W ++ [toRow a] → ok a now rows W') :
    (Prog.query (.create a) : Prog Row Key Event Input Error α).Timely time faults ok failed now rows W := by
  obtain ⟨locks, created⟩ := accepts.create Error
  apply query
  · rintro error (fault | ran)
    · exact refused error fault
    · rw [created] at ran
      cases ran
  · intro o ran
    rw [created] at ran
    cases ran
    refine rest _ ?_
    rw [applyAll_append, applyAll_put_new accepts.fresh]

theorem createMany {ok : Nat → T → List Row → List (Write Row Key) → Prop} {items : List α} {skip : Bool}
    (lands : Lands (applyAll rows W) (items.map (toRow : α → Row)))
    (refused : ∀ error, faults error → failed error now rows W)
    (rest : ∀ n W', applyAll rows W' = applyAll rows W ++ items.map toRow → ok n now rows W') :
    (Prog.query (.createMany items skip) : Prog Row Key Event Input Error Nat).Timely time faults ok failed now rows W := by
  obtain ⟨locks, inserted⟩ := lands.insertAll Error skip
  have answer : (Statement.createMany items skip (applyAll rows W) : Except Error (Outcome Row Key Nat)) =
      .ok { result := items.length, writes := items.map fun a => .put (toRow a), locks } := by
    simp only [Statement.createMany, inserted]
    rfl
  apply query
  · rintro error (fault | ran)
    · exact refused error fault
    · rw [answer] at ran
      cases ran
  · intro o ran
    rw [answer] at ran
    cases ran
    refine rest _ _ ?_
    have stored := lands.applyAll
    rw [List.map_map] at stored
    rw [applyAll_append]
    exact stored

end Prog.Timely
end Kurul.Store
