import Kurul.Store.RelyGuarantee
import Kurul.Store.Tables

/-! Objects whose changes are put on record. A commit leaves object and record alone, or adds
one entry that tells what it did to the object; over a run the entries lead from the first
state of the object to its last. -/

namespace Kurul.Store

variable {Row Key Event Input Error State Entry α ι : Type}

/-- What is read off the rows: the state of an object and the entries about it. -/
structure Journal (Row State Entry : Type) where
  state : List Row → State
  entries : List Row → List Entry
  tells : State → Entry → State → Prop

/-- The entries lead from one state to the other. -/
def Path (tells : State → Entry → State → Prop) : State → List Entry → State → Prop
  | x, [], z => x = z
  | x, entry :: rest, z => ∃ y, tells x entry y ∧ Path tells y rest z

theorem Path.snoc {tells : State → Entry → State → Prop} {x y z : State} {entries : List Entry}
    {entry : Entry} (path : Path tells x entries y) (last : tells y entry z) :
    Path tells x (entries ++ [entry]) z := by
  induction entries generalizing x with
  | nil =>
      cases path
      exact ⟨z, last, rfl⟩
  | cons first rest ih =>
      obtain ⟨next, told, later⟩ := path
      exact ⟨next, told, ih later⟩

namespace Journal

variable (J : Journal Row State Entry)

/-- A commit that tells the truth. -/
def Step (before after : List Row) : Prop :=
  (J.state after = J.state before ∧ J.entries after = J.entries before) ∨
    ∃ entry, J.entries after = J.entries before ++ [entry] ∧ J.tells (J.state before) entry (J.state after)

/-- What has been recorded since the first rows leads to where the object is. -/
def Traced (first rows : List Row) : Prop :=
  ∃ since, J.entries rows = J.entries first ++ since ∧ Path J.tells (J.state first) since (J.state rows)

variable {J} {first before after : List Row}

theorem Traced.refl (rows : List Row) : J.Traced rows rows := ⟨[], by simp, rfl⟩

theorem Traced.step (traced : J.Traced first before) (step : J.Step before after) :
    J.Traced first after := by
  obtain ⟨since, recorded, path⟩ := traced
  rcases step with ⟨same, nothing⟩ | ⟨entry, added, told⟩
  · exact ⟨since, nothing.trans recorded, same ▸ path⟩
  · exact ⟨since ++ [entry], by rw [added, recorded, List.append_assoc], path.snoc told⟩

variable [Keyed Row Key] [DecidableEq Key] [DecidableEq ι]

/-- Where the commits of a run tell the truth, so does the record. -/
theorem traced_of_reaches {P : Protocol Row Key} {allow : ι → Assertion Row} {promise : ι → Promise Row Key}
    {s u : System ι Row Key Event Input Error α} (honest : ι → Local Row Key → List Row → Prop)
    (sound : Sound P allow promise s) (permits : ∀ i rows, allow i rows)
    (truthful : ∀ i l rows, (promise i).commit l rows → honest i l rows → J.Step rows (l.view rows))
    (run : s.Reaches (fun t action => ∀ i value next, action = .run i value →
      (t.threads i).prog = .commit next → honest i (t.local i) t.rows) u) :
    J.Traced s.rows u.rows := by
  have kept : Sound P allow promise u ∧ J.Traced s.rows u.rows := by
    apply run.invariant (P := fun t => Sound P allow promise t ∧ J.Traced s.rows t.rows)
    · rintro t action v ⟨sound, traced⟩ honest stepped
      refine ⟨sound.step (fun i _ _ _ _ => permits i _) stepped, ?_⟩
      rcases (System.step_effect stepped).1 with ⟨_, _, _, _, _, rows, _⟩ | ⟨value, next, acts, here, rows, _⟩ |
        ⟨rows, _, _⟩
      · exact rows ▸ traced
      · rw [rows]
        exact traced.step (truthful _ _ _ (sound.commit _ here (permits _ _)).1 (honest _ _ _ acts here))
      · exact rows ▸ traced
    · exact ⟨sound, .refl _⟩
  exact kept.2

end Journal

section Tables

variable [Relational Row Key] [DecidableEq Key] [Entity Row α] {rows : List Row}

omit [DecidableEq Key] in
/-- The one row a test finds. -/
theorem find?_table_eq (unique : UniqueKeys rows) (test : α → Bool) {a : α} (stored : toRow a ∈ rows)
    (passes : test a) (only : ∀ b, test b → key (toRow b : Row) = key (toRow a : Row)) :
    (table rows).find? test = some a := by
  cases found : (table rows).find? test with
  | none =>
      have refused := List.find?_eq_none.mp found a (mem_table.mpr stored)
      exact absurd passes refused
  | some b =>
      have member := mem_table.mp (List.mem_of_find?_eq_some found)
      have same := unique.eq_of_key member stored (only b (List.find?_some found))
      rw [toRow_injective same]

theorem table_put_new {a : α} (absent : ∀ row ∈ rows, key row ≠ key (toRow a : Row)) :
    (table ((Write.put (toRow a : Row)).apply rows) : List α) = table rows ++ [a] := by
  have none_ : rows.any (fun row => key row = key (toRow a : Row)) = false := by
    simpa using absent
  simp [Write.apply, none_, table]

/-- A new row after writes to other tables. -/
theorem table_insert {W : List (Write Row Key)} {a : α} (elsewhere : ∀ write ∈ W, write.Elsewhere α)
    (absent : ∀ row ∈ rows, key row ≠ key (toRow a : Row)) :
    (table (applyAll rows (W ++ [.put (toRow a)])) : List α) = table rows ++ [a] := by
  have still : ∀ row ∈ applyAll rows W, key row ≠ key (toRow a : Row) := by
    intro row member same
    rcases mem_applyAll_cases member with stored | ⟨old, _⟩
    · exact elsewhere _ stored a (by simpa [Write.target] using same.symm)
    · exact absent row old same
  rw [applyAll_append]
  exact (table_put_new still).trans (by rw [table_applyAll_elsewhere elsewhere])

end Tables

/-- Only keys stay unique. -/
def Protocol.unique [Keyed Row Key] : Protocol Row Key where
  inv := UniqueKeys
  rely _ _ _ := True
  guar _ _ _ := True
  narrows _ _ := trivial
  compatible _ _ _ _ := trivial

end Kurul.Store
