import Kurul.Store.Interleaving
import Kurul.Store.Referential
import Kurul.Store.Sequential

/-! A program that takes certain rows out of the database, among others that may bring
them in. Until its clearing statement has run they may come; from then on its own view is
free of them, and after its commit the database is. -/

namespace Kurul.Store

variable {Row Key Event Input Error α β γ ι : Type} [Keyed Row Key] [DecidableEq Key]

/-- How far a clearing program has come. -/
inductive Clearance where
  | due
  | pending
  | committed

/-- Whatever it runs on, no bad row is left. -/
def Statement.Clears (bad : Row → Prop) (exec : Statement Row Key Error β) : Prop :=
  ∀ view o, exec view = .ok o → ∀ row ∈ applyAll view o.writes, ¬ bad row

/-- Where there was no bad row, there still is none. -/
def Statement.KeepsClear (bad : Row → Prop) (exec : Statement Row Key Error β) : Prop :=
  ∀ view o, (∀ row ∈ view, ¬ bad row) → exec view = .ok o →
    ∀ row ∈ applyAll view o.writes, ¬ bad row

namespace Statement

variable {bad : Row → Prop}

/-- Nothing comes in, and no bad row is put. -/
theorem KeepsClear.of_puts {exec : Statement Row Key Error β}
    (harmless : ∀ view o, (∀ row ∈ view, ¬ bad row) → exec view = .ok o →
      ∀ row, .put row ∈ o.writes → ¬ bad row) : exec.KeepsClear bad := by
  intro view o clear ran row member
  rcases mem_applyAll_cases member with stored | ⟨old, _⟩
  · exact harmless view o clear ran row stored
  · exact clear row old

end Statement

section Tables

variable {Row Key : Type} [Relational Row Key] [DecidableEq Key] [Entity Row α] [DatabaseErrors Error]
  {bad : Row → Prop} {where_ : Where Row α} {change : α → α}

namespace Statement.KeepsClear

theorem update (harmless : ∀ a, ¬ bad (toRow (change a))) :
    (Statement.update where_ change : Statement Row Key Error α).KeepsClear bad := by
  apply of_puts
  intro view o _ ran row stored
  obtain ⟨a, _, _, _, written⟩ := update_ok ran
  rw [written] at stored
  cases List.mem_singleton.mp stored
  exact harmless a

theorem updateMany (harmless : ∀ a, ¬ bad (toRow (change a))) :
    (Statement.updateMany where_ change : Statement Row Key Error Nat).KeepsClear bad := by
  apply of_puts
  intro view o _ ran row stored
  rw [(updateMany_ok ran).2] at stored
  obtain ⟨a, _, same⟩ := List.mem_map.mp stored
  cases same
  exact harmless a

end Statement.KeepsClear

omit [DecidableEq Key] in
theorem bad_of_unset (lost : ∀ k row, bad (unset k row) → bad row) (dangling : List (Reference Key))
    {row : Row} (worse : bad (dangling.foldl (fun row ref => unset ref.target row) row)) : bad row := by
  induction dangling generalizing row with
  | nil => exact worse
  | cons ref rest ih => exact lost _ _ (ih worse)

/-- What a deletion puts was there before it lost its references. -/
theorem bad_of_deletion (lost : ∀ k row, bad (unset k row) → bad row) {view : List Row}
    {doomed : List Key} {row : Row} (stored : .put row ∈ deletion view doomed) (worse : bad row) :
    ∃ old ∈ view, bad old := by
  obtain ⟨_, _, same⟩ | ⟨old, member, _, emitted⟩ := mem_deletion stored
  · cases same
  · refine ⟨old, member, ?_⟩
    unfold orphaned at emitted
    split at emitted
    · contradiction
    · cases emitted
      exact bad_of_unset lost _ worse

namespace Statement

theorem KeepsClear.deleteMany (lost : ∀ k row, bad (unset k row) → bad row) :
    (Statement.deleteMany where_ : Statement Row Key Error Nat).KeepsClear bad := by
  apply of_puts
  intro view o clear ran row stored worse
  rw [(deleteMany_ok ran).2] at stored
  obtain ⟨old, member, worse⟩ := bad_of_deletion lost stored worse
  exact clear old member worse

/-- A deletion of all bad rows. -/
theorem Clears.deleteMany (quiet : ∀ view doomed row, .put row ∈ deletion view doomed → ¬ bad row)
    (covers : ∀ view row, bad row → ∃ a, row = toRow a ∧ where_ view a) :
    (Statement.deleteMany where_ : Statement Row Key Error Nat).Clears bad := by
  intro view o ran row member worse
  rw [(deleteMany_ok ran).2] at member
  rcases mem_applyAll_cases member with stored | ⟨old, untouched⟩
  · exact quiet _ _ row stored worse
  · obtain ⟨a, rfl, chosen⟩ := covers view row worse
    apply untouched
    apply touched_deletion old
    exact List.mem_map_of_mem (List.mem_filter.mpr ⟨mem_table.mpr old, chosen⟩)

/-- An update that makes all bad rows good. -/
theorem Clears.updateMany (mends : ∀ a, ¬ bad (toRow (change a)))
    (same : ∀ a, key (toRow (change a) : Row) = key (toRow a : Row))
    (covers : ∀ view row, bad row → ∃ a, row = toRow a ∧ where_ view a) :
    (Statement.updateMany where_ change : Statement Row Key Error Nat).Clears bad := by
  intro view o ran row member worse
  rw [(updateMany_ok ran).2] at member
  rcases mem_applyAll_cases member with stored | ⟨old, untouched⟩
  · obtain ⟨a, _, written⟩ := List.mem_map.mp stored
    cases written
    exact mends a worse
  · obtain ⟨a, rfl, chosen⟩ := covers view row worse
    apply untouched
    rw [← same a]
    exact List.mem_map_of_mem (f := Write.target)
      (List.mem_map_of_mem (List.mem_filter.mpr ⟨mem_table.mpr old, chosen⟩))

end Statement
end Tables

namespace Prog

/-- The program commits nothing before it has cleared its view of bad rows, and leaves it
clear until it commits. A failure takes it back to where it started. -/
def Clears (bad : Row → Prop) (post : α → Clearance → Prop) :
    Prog Row Key Event Input Error α → Clearance → Prop
  | .pure value, c => post value c
  | .throw _, _ => True
  | .input next, c => ∀ x, (next x).Clears bad post c
  | .emit _ next, c => next.Clears bad post c
  | .rollback next, _ => next.Clears bad post .due
  | .commit _, .due => False
  | .commit next, _ => (∀ error, (next (.error error)).Clears bad post .due) ∧
      (next (.ok ())).Clears bad post .committed
  | .statement exec next, .due => (∀ error, (next (.error error)).Clears bad post .due) ∧
      (exec.Clears bad ∧
          (∀ view o, exec view = .ok o → (next (.ok o.result)).Clears bad post .pending) ∨
        ∀ view o, exec view = .ok o → (next (.ok o.result)).Clears bad post .due)
  | .statement exec next, .pending => (∀ error, (next (.error error)).Clears bad post .pending) ∧
      exec.KeepsClear bad ∧
        ∀ view o, exec view = .ok o → (next (.ok o.result)).Clears bad post .pending
  | .statement _ _, .committed => False

/-- Its clearing statement is still ahead of it, and its end comes after its commit. -/
def ClearingDue (bad : Row → Prop) (p : Prog Row Key Event Input Error α) : Prop :=
  p.Clears bad (fun _ c => c = .committed) .due

namespace Clears

variable {bad : Row → Prop} {c : Clearance}

theorem ending {post : α → Clearance → Prop} {post' : β → Clearance → Prop}
    {p : Prog Row Key Event Input Error α} {ok : α → Prog Row Key Event Input Error β}
    {failed : Error → Prog Row Key Event Input Error β} (clears : p.Clears bad post c)
    (succeeds : ∀ value c, post value c → (ok value).Clears bad post' c)
    (fails : ∀ error c, (failed error).Clears bad post' c) : (p.ending ok failed).Clears bad post' c := by
  induction p generalizing c with
  | pure value => exact succeeds _ _ clears
  | throw error => exact fails _ _
  | input next ih => exact fun x => ih x (clears x)
  | emit event next ih => exact ih clears
  | rollback next ih => exact ih clears
  | commit next ih =>
      cases c with
      | due => exact clears.elim
      | pending | committed =>
          constructor
          · intro error
            exact ih _ (clears.1 error)
          · exact ih _ clears.2
  | statement exec next ih =>
      cases c with
      | due =>
          obtain ⟨refused, answered⟩ := clears
          constructor
          · intro error
            exact ih _ (refused error)
          · rcases answered with ⟨clearing, rest⟩ | rest
            · left
              exact ⟨clearing, fun view o ran => ih _ (rest view o ran)⟩
            · right
              intro view o ran
              exact ih _ (rest view o ran)
      | pending =>
          obtain ⟨refused, keeps, answered⟩ := clears
          refine ⟨?_, keeps, ?_⟩
          · intro error
            exact ih _ (refused error)
          · intro view o ran
            exact ih _ (answered view o ran)
      | committed => exact clears.elim

theorem bind {post : β → Clearance → Prop} {p : Prog Row Key Event Input Error α}
    {f : α → Prog Row Key Event Input Error β}
    (clears : p.Clears bad (fun value c => (f value).Clears bad post c) c) :
    (p.bind f).Clears bad post c :=
  clears.ending (fun _ _ rest => rest) fun _ _ => trivial

theorem weaken {post post' : α → Clearance → Prop} {p : Prog Row Key Event Input Error α}
    (clears : p.Clears bad post c) (implies : ∀ value c, post value c → post' value c) :
    p.Clears bad post' c := by
  have same : p.ending .pure .throw = p := by
    clear clears
    induction p with
    | pure | throw => rfl
    | input next ih => exact congrArg Prog.input (funext ih)
    | emit event next ih => exact congrArg (Prog.emit event) ih
    | commit next ih => exact congrArg Prog.commit (funext ih)
    | rollback next ih => exact congrArg Prog.rollback ih
    | statement exec next ih => exact congrArg (Prog.statement exec) (funext ih)
  rw [← same]
  exact clears.ending implies fun _ _ => trivial

/-- The transaction whose body clears. -/
theorem transaction {post : α → Clearance → Prop} {p : Prog Row Key Event Input Error α}
    (clears : p.Clears bad (fun value c => c = .pending ∧ post value .committed) c) :
    p.transaction.Clears bad post c := by
  apply clears.ending
  · rintro value _ ⟨rfl, rest⟩
    constructor
    · intro error
      trivial
    · exact rest
  · intro error c
    trivial

/-- The statement that clears. -/
theorem clearing {post : β → Clearance → Prop} {exec : Statement Row Key Error β}
    (clearing : exec.Clears bad) (rest : ∀ b, post b .pending) :
    (query exec : Prog Row Key Event Input Error β).Clears bad post .due :=
  ⟨fun _ => trivial, .inl ⟨clearing, fun _ o _ => rest o.result⟩⟩

theorem getOrThrow {post : α → Clearance → Prop} {value : Option α} {error : Error}
    (hit : ∀ b, value = some b → post b c) :
    (Prog.getOrThrow value error : Prog Row Key Event Input Error α).Clears bad post c := by
  cases value with
  | none => trivial
  | some b => exact hit b rfl

theorem require {post : Unit → Clearance → Prop} {test : Bool} {error : Error}
    (passed : test = true → post () c) :
    (Prog.require test error : Prog Row Key Event Input Error Unit).Clears bad post c := by
  cases test with
  | false => trivial
  | true => exact passed rfl

/-- A lookup ahead of it. -/
theorem found {post : β → Clearance → Prop} {answer : List Row → Option β} {error : Error}
    (hit : ∀ view b, answer view = some b → post b .due) :
    (Prog.found (.read answer) error : Prog Row Key Event Input Error β).Clears bad post .due := by
  apply bind
  constructor
  · intro error
    trivial
  · right
    intro view o ran
    cases ran
    exact getOrThrow (hit view)

/-- A run on its own: the view is clear where the program has come that far, and keys stay unique. -/
theorem holds {post : α → Clearance → Prop} {p : Prog Row Key Event Input Error α} {rows : List Row}
    {W : List (Write Row Key)} (clears : p.Clears bad post c) (unique : UniqueKeys rows)
    (now : c = .pending → ∀ row ∈ applyAll rows W, ¬ bad row) :
    p.Holds (fun _ => True) (fun value rows W => UniqueKeys rows ∧
      ∃ c, post value c ∧ (c = .pending → ∀ row ∈ applyAll rows W, ¬ bad row)) (fun _ _ _ => True) rows W := by
  induction p generalizing c rows W with
  | pure value => exact ⟨unique, c, clears, now⟩
  | throw error => trivial
  | input next ih => exact fun x => ih x (clears x) unique now
  | emit event next ih => exact ⟨trivial, ih clears unique now⟩
  | rollback next ih => exact ih clears unique (by simp)
  | commit next ih =>
      cases c with
      | due => exact clears.elim
      | pending | committed =>
          refine ⟨fun error => ih _ (clears.1 error) unique (by simp), trivial, ?_⟩
          exact ih _ clears.2 (unique.applyAll W) (by simp)
  | statement exec next ih =>
      cases c with
      | due =>
          obtain ⟨refused, answered⟩ := clears
          refine ⟨fun error => ih _ (refused error) unique (by simp), fun o ran => ?_⟩
          rcases answered with ⟨clearing, rest⟩ | rest
          · apply ih _ (rest _ o ran) unique
            intro _
            rw [applyAll_append]
            exact clearing _ o ran
          · exact ih _ (rest _ o ran) unique (by simp)
      | pending =>
          obtain ⟨refused, keeps, answered⟩ := clears
          refine ⟨fun error => ih _ (refused error) unique now, fun o ran => ?_⟩
          apply ih _ (answered _ o ran) unique
          intro _
          rw [applyAll_append]
          exact keeps _ o (now rfl) ran
      | committed => exact clears.elim

end Clears

/-- What is due of a program is due of it without its answer. -/
theorem ClearingDue.call {bad : Row → Prop} {p : Prog Row Key Event Input Error α}
    (due : p.ClearingDue bad) : (p.bind fun _ => Prog.pure ()).ClearingDue bad :=
  Clears.bind due

/-- The program leaves off where it took up. -/
def Stays (bad : Row → Prop) (c : Clearance) (p : Prog Row Key Event Input Error α) : Prop :=
  p.Clears bad (fun _ c' => c' = c) c

namespace Stays

variable {bad : Row → Prop} {c : Clearance}

theorem andThen {post : β → Clearance → Prop} {p : Prog Row Key Event Input Error α}
    {f : α → Prog Row Key Event Input Error β} (stays : p.Stays bad c)
    (rest : ∀ value, (f value).Clears bad post c) : (p.bind f).Clears bad post c := by
  apply stays.ending
  · rintro value _ rfl
    exact rest value
  · intro error c
    trivial

theorem bind {p : Prog Row Key Event Input Error α} {f : α → Prog Row Key Event Input Error β}
    (stays : p.Stays bad c) (rest : ∀ value, (f value).Stays bad c) : (p.bind f).Stays bad c :=
  stays.andThen rest

theorem pure (value : α) : (Prog.pure value : Prog Row Key Event Input Error α).Stays bad c := rfl

theorem due (exec : Statement Row Key Error β) :
    (Prog.query exec : Prog Row Key Event Input Error β).Stays bad .due :=
  ⟨fun _ => trivial, .inr fun _ _ _ => rfl⟩

theorem keep {exec : Statement Row Key Error β} (keeps : exec.KeepsClear bad) :
    (Prog.query exec : Prog Row Key Event Input Error β).Stays bad .pending :=
  ⟨fun _ => trivial, keeps, fun _ _ _ => rfl⟩

/-- A statement that only reads. -/
theorem read (answer : List Row → β) (open_ : c ≠ .committed) :
    (Prog.query (.read answer) : Prog Row Key Event Input Error β).Stays bad c := by
  cases c with
  | due => exact due _
  | pending =>
      apply keep
      intro view o clear ran row member
      cases ran
      exact clear row member
  | committed => exact absurd rfl open_

theorem require (test : Bool) (error : Error) :
    (Prog.require test error : Prog Row Key Event Input Error Unit).Stays bad c :=
  Clears.require fun _ => rfl

theorem getOrThrow (value : Option α) (error : Error) :
    (Prog.getOrThrow value error : Prog Row Key Event Input Error α).Stays bad c :=
  Clears.getOrThrow fun _ _ => rfl

theorem ofExcept (value : Except Error α) :
    (Prog.ofExcept value : Prog Row Key Event Input Error α).Stays bad c := by
  cases value with
  | error error => trivial
  | ok value => rfl

theorem forEach {body : β → Prog Row Key Event Input Error Unit} (items : List β)
    (round : ∀ item, (body item).Stays bad c) : (Prog.forEach items body).Stays bad c := by
  induction items with
  | nil => rfl
  | cons item rest ih => exact bind (round item) fun _ => ih

theorem collect {body : β → Prog Row Key Event Input Error γ} (items : List β)
    (round : ∀ item, (body item).Stays bad c) : (Prog.collect items body).Stays bad c := by
  induction items with
  | nil => rfl
  | cons item rest ih =>
      apply bind (round item)
      intro first
      apply bind ih
      intro more
      rfl

end Stays
end Prog

/-- What a thread has cleared when it has come that far. -/
def Thread.Cleared (bad : Row → Prop) (rows : List Row) (t : Thread Row Key Event Input Error α) :
    Clearance → Prop
  | .due => True
  | .pending => ∀ row ∈ applyAll rows t.pending, ¬ bad row
  | .committed => t.pending = [] ∧ ∀ row ∈ rows, ¬ bad row

/-- The thread is at this point, with what that says of its program and of the rows. -/
structure Thread.Clearing (bad : Row → Prop) (rows : List Row)
    (t : Thread Row Key Event Input Error α) (c : Clearance) : Prop where
  ahead : t.prog.Clears bad (fun _ c => c = .committed) c
  cleared : t.Cleared bad rows c

namespace System

variable [DecidableEq ι] {bad : Row → Prop} {d : ι} {s u : System ι Row Key Event Input Error α}

/-- Another thread commits bad rows only while the clearing one has yet to clear them. -/
def Timely (bad : Row → Prop) (d : ι) (s : System ι Row Key Event Input Error α) :
    Action ι Input Error → Prop
  | .run i _ => i ≠ d → (s.threads i).prog.commits = true →
      (∃ row, .put row ∈ (s.threads i).pending ∧ bad row) → (s.threads d).prog.ClearingDue bad
  | .fail .. => True

omit [DecidableEq ι] in
theorem timely_of_due {action : Action ι Input Error} (due : (s.threads d).prog.ClearingDue bad) :
    Timely bad d s action := by
  cases action with
  | run => exact fun _ _ _ => due
  | fail => trivial

/-- A commit without bad rows leaves clear what was. -/
theorem cleared_commit {t : Thread Row Key Event Input Error α} {rows : List Row}
    {W : List (Write Row Key)} {c : Clearance} (cleared : t.Cleared bad rows c)
    (harmless : ∀ row, .put row ∈ W → ¬ bad row) : t.Cleared bad (applyAll rows W) c := by
  cases c with
  | due => trivial
  | pending =>
      intro row member
      rcases mem_applyAll_cases member with own | ⟨other, untouched⟩
      · have written : key row ∈ touched t.pending := List.mem_map.mpr ⟨_, own, rfl⟩
        exact cleared row ((mem_applyAll_touched rows (applyAll rows W) written).mpr member)
      · rcases mem_applyAll_cases other with stored | ⟨old, _⟩
        · exact harmless row stored
        · exact cleared row ((mem_applyAll_untouched _ untouched).mpr old)
  | committed =>
      obtain ⟨clean, clear⟩ := cleared
      refine ⟨clean, ?_⟩
      intro row member
      rcases mem_applyAll_cases member with stored | ⟨old, _⟩
      · exact harmless row stored
      · exact clear row old

/-- What a step of the clearing thread itself does to it. -/
theorem clearing_own {action : Action ι Input Error} {c : Clearance}
    (clearing : (s.threads d).Clearing bad s.rows c) (own : action.actor = d)
    (stepped : s.step action = some u) : ∃ c', (u.threads d).Clearing bad u.rows c' := by
  obtain ⟨ahead, cleared⟩ := clearing
  cases action with
  | run i value =>
      obtain rfl : i = d := own
      cases here : (s.threads i).prog with
      | pure | throw => simp [step, here] at stepped
      | input next =>
          simp only [step, here, Option.some.injEq] at stepped
          subst stepped
          rw [here] at ahead
          refine ⟨c, ?_, ?_⟩
          · simpa using ahead value
          · cases c with
            | due => trivial
            | pending | committed => simpa [Thread.Cleared] using cleared
      | emit event next =>
          simp only [step, here, Option.some.injEq] at stepped
          subst stepped
          rw [here] at ahead
          have rest : next.Clears bad _ c := ahead
          refine ⟨c, ?_, ?_⟩
          · simpa using rest
          · cases c with
            | due => trivial
            | pending | committed => simpa [Thread.Cleared] using cleared
      | rollback next =>
          simp only [step, here, Option.some.injEq] at stepped
          subst stepped
          rw [here] at ahead
          have rest : next.Clears bad _ .due := ahead
          refine ⟨.due, ?_, trivial⟩
          simpa using rest
      | commit next =>
          simp only [step, here, Option.some.injEq] at stepped
          subst stepped
          rw [here] at ahead
          cases c with
          | due => exact ahead.elim
          | pending =>
              refine ⟨.committed, ?_, ?_⟩
              · simpa using ahead.2
              · simpa [Thread.Cleared] using cleared
          | committed =>
              refine ⟨.committed, ?_, ?_⟩
              · simpa using ahead.2
              · simpa [Thread.Cleared, cleared.1] using cleared.2
      | statement exec next =>
          rw [here] at ahead
          simp only [step, here] at stepped
          split at stepped
          · cases stepped
            cases c with
            | due =>
                refine ⟨.due, ?_, trivial⟩
                simpa using ahead.1 _
            | pending =>
                refine ⟨.pending, ?_, ?_⟩
                · simpa using ahead.1 _
                · simpa [Thread.Cleared] using cleared
            | committed => exact ahead.elim
          · rename_i o answered
            split at stepped
            · contradiction
            · cases stepped
              cases c with
              | due =>
                  rcases ahead.2 with ⟨clearing, rest⟩ | rest
                  · refine ⟨.pending, ?_, ?_⟩
                    · simpa using rest _ o answered
                    · simpa [Thread.Cleared, applyAll_append] using clearing _ o answered
                  · refine ⟨.due, ?_, trivial⟩
                    simpa using rest _ o answered
              | pending =>
                  refine ⟨.pending, ?_, ?_⟩
                  · simpa using ahead.2.2 _ o answered
                  · simpa [Thread.Cleared, applyAll_append] using ahead.2.1 _ o cleared answered
              | committed => exact ahead.elim
  | fail i error =>
      obtain rfl : i = d := own
      cases here : (s.threads i).prog with
      | pure | throw | input | emit | rollback => simp [step, here] at stepped
      | commit next =>
          simp only [step, here, Option.some.injEq] at stepped
          subst stepped
          rw [here] at ahead
          refine ⟨.due, ?_, trivial⟩
          cases c with
          | due => exact ahead.elim
          | pending | committed => simpa using ahead.1 error
      | statement exec next =>
          simp only [step, here, Option.some.injEq] at stepped
          subst stepped
          rw [here] at ahead
          cases c with
          | due =>
              refine ⟨.due, ?_, trivial⟩
              simpa using ahead.1 error
          | pending =>
              refine ⟨.pending, ?_, ?_⟩
              · simpa using ahead.1 error
              · simpa [Thread.Cleared] using cleared
          | committed => exact ahead.elim

theorem clearing_step {action : Action ι Input Error}
    (clearing : ∃ c, (s.threads d).Clearing bad s.rows c) (timely : Timely bad d s action)
    (stepped : s.step action = some u) : ∃ c, (u.threads d).Clearing bad u.rows c := by
  obtain ⟨c, clearing⟩ := clearing
  obtain ⟨effect, others⟩ := step_effect stepped
  by_cases own : action.actor = d
  · exact clearing_own clearing own stepped
  · rw [others d (Ne.symm own)]
    obtain ⟨ahead, cleared⟩ := clearing
    cases effect with
    | moved rows | ran _ _ _ _ _ rows => exact ⟨c, ahead, rows ▸ cleared⟩
    | committed value next acts here rows =>
        rw [rows]
        by_cases harmful : ∃ row, .put row ∈ (s.threads action.actor).pending ∧ bad row
        · rw [acts] at timely
          have due := timely (by rw [acts] at own; exact own) (by rw [here]; rfl) harmful
          exact ⟨.due, due, trivial⟩
        · refine ⟨c, ahead, cleared_commit cleared ?_⟩
          intro row stored worse
          exact harmful ⟨row, stored, worse⟩

/-- Where others commit bad rows only ahead of the clearing statement, none is left once
the clearing program has succeeded. -/
theorem cleared_at_end {allowed : System ι Row Key Event Input Error α → Action ι Input Error → Prop}
    (timely : ∀ s action, allowed s action → Timely bad d s action)
    (run : Reaches allowed s u) (due : (s.threads d).prog.ClearingDue bad)
    (succeeded : (u.threads d).prog.succeeded) : ∀ row ∈ u.rows, ¬ bad row := by
  have clearing : ∃ c, (u.threads d).Clearing bad u.rows c :=
    run.invariant (P := fun s => ∃ c, (s.threads d).Clearing bad s.rows c)
      (fun clearing permitted stepped => clearing_step clearing (timely _ _ permitted) stepped)
      ⟨.due, due, trivial⟩
  obtain ⟨c, ahead, cleared⟩ := clearing
  cases here : (u.threads d).prog with
  | pure value =>
      rw [here] at ahead
      obtain rfl : c = .committed := ahead
      exact cleared.2
  | _ => rw [here] at succeeded; contradiction

/-- While only others run, what is due stays so. -/
theorem Reaches.ahead {allowed : System ι Row Key Event Input Error α → Action ι Input Error → Prop}
    {actions : List (Action ι Input Error)} (others : ∀ action ∈ actions, action.actor ≠ d)
    (permits : ∀ {t : System ι Row Key Event Input Error α} {action}, t.threads d = s.threads d → allowed t action)
    (ran : s.runs actions = some u) : Reaches allowed s u := by
  apply Reaches.of_runs_keeping (I := fun t => t.threads d = s.threads d) _ _ rfl ran
  · intro t action t' member same stepped
    exact ((step_effect stepped).2 d (Ne.symm (others action member))).trans same
  · intro t action _ same
    exact permits same

end System
end Kurul.Store
