import Kurul.Store.Program

/-! Database programs run one after the other, any statement of which may fail. A
program is verified by what has to hold at each of its commits and of the events that
leave it; between two commits nothing else moves. -/
namespace Kurul.Store

variable {Row Key Event Input Error α β γ : Type} [Keyed Row Key] [DecidableEq Key]

/-- What is seen of a run from outside. -/
inductive Occurrence (Row Key Event : Type) where
  | committed (before : List Row) (writes : List (Write Row Key))
  | emitted (event : Event) (rows : List Row)

/-- What a run is given at one of its turns: the value it may ask for, and the refusal of
its statement or commit. -/
structure Choice (Input Error : Type) where
  value : Input
  fault : Option Error := none

structure Session (Row Key Event : Type) where
  rows : List Row
  pending : List (Write Row Key) := []
  log : List (Occurrence Row Key Event) := []
  turn : Nat := 0

namespace Prog

def run (oracle : Nat → Choice Input Error) :
    Prog Row Key Event Input Error α → Session Row Key Event →
      Except Error α × Session Row Key Event
  | .pure value, s => (.ok value, s)
  | .throw error, s => (.error error, s)
  | .input next, s => (next (oracle s.turn).value).run oracle { s with turn := s.turn + 1 }
  | .emit event next, s => next.run oracle { s with log := s.log ++ [.emitted event s.rows] }
  | .commit next, s =>
      match (oracle s.turn).fault with
      | some error => (next (.error error)).run oracle { s with pending := [], turn := s.turn + 1 }
      | none => (next (.ok ())).run oracle
          { rows := applyAll s.rows s.pending
            log := s.log ++ [.committed s.rows s.pending]
            turn := s.turn + 1 }
  | .rollback next, s => next.run oracle { s with pending := [] }
  | .statement exec next, s =>
      match (oracle s.turn).fault with
      | some error => (next (.error error)).run oracle { s with turn := s.turn + 1 }
      | none =>
          match exec (applyAll s.rows s.pending) with
          | .error error => (next (.error error)).run oracle { s with turn := s.turn + 1 }
          | .ok o => (next (.ok o.result)).run oracle
              { s with pending := s.pending ++ o.writes, turn := s.turn + 1 }

/-- From these rows and uncommitted writes, whatever the program is given, each
occurrence is fine, and it ends in `ok` or in `failed`. -/
def Holds (fine : Occurrence Row Key Event → Prop)
    (ok : α → List Row → List (Write Row Key) → Prop)
    (failed : Error → List Row → List (Write Row Key) → Prop) :
    Prog Row Key Event Input Error α → List Row → List (Write Row Key) → Prop
  | .pure value, rows, W => ok value rows W
  | .throw error, rows, W => failed error rows W
  | .input next, rows, W => ∀ x, (next x).Holds fine ok failed rows W
  | .emit event next, rows, W => fine (.emitted event rows) ∧ next.Holds fine ok failed rows W
  | .commit next, rows, W => (∀ error, (next (.error error)).Holds fine ok failed rows []) ∧
      fine (.committed rows W) ∧ (next (.ok ())).Holds fine ok failed (applyAll rows W) []
  | .rollback next, rows, _ => next.Holds fine ok failed rows []
  | .statement exec next, rows, W => (∀ error, (next (.error error)).Holds fine ok failed rows W) ∧
      ∀ o, exec (applyAll rows W) = .ok o →
        (next (.ok o.result)).Holds fine ok failed rows (W ++ o.writes)

namespace Holds

variable {fine : Occurrence Row Key Event → Prop}
  {ok : α → List Row → List (Write Row Key) → Prop}
  {failed : Error → List Row → List (Write Row Key) → Prop}
  {rows : List Row} {W : List (Write Row Key)}

/-- What holds of a program holds of every run of it. -/
theorem run {p : Prog Row Key Event Input Error α} {s : Session Row Key Event}
    (holds : p.Holds fine ok failed s.rows s.pending) (oracle : Nat → Choice Input Error) :
    (match (p.run oracle s).1 with
      | .ok value => ok value (p.run oracle s).2.rows (p.run oracle s).2.pending
      | .error error => failed error (p.run oracle s).2.rows (p.run oracle s).2.pending) ∧
    ∃ more, (p.run oracle s).2.log = s.log ++ more ∧ ∀ o ∈ more, fine o := by
  induction p generalizing s with
  | pure value => exact ⟨holds, [], (List.append_nil _).symm, by simp⟩
  | throw error => exact ⟨holds, [], (List.append_nil _).symm, by simp⟩
  | input next ih =>
      exact ih _ (s := { s with turn := s.turn + 1 }) (holds _)
  | emit event next ih =>
      obtain ⟨ends, more, log, kept⟩ :=
        ih (s := { s with log := s.log ++ [.emitted event s.rows] }) holds.2
      refine ⟨ends, .emitted event s.rows :: more, by simp [Prog.run, log], ?_⟩
      simpa using ⟨holds.1, kept⟩
  | commit next ih =>
      obtain ⟨refused, now, rest⟩ := holds
      simp only [Prog.run]
      cases (oracle s.turn).fault with
      | some error => exact ih _ (s := { s with pending := [], turn := s.turn + 1 }) (refused error)
      | none =>
          obtain ⟨ends, more, log, kept⟩ := ih _ (s := {
            rows := applyAll s.rows s.pending
            log := s.log ++ [.committed s.rows s.pending]
            turn := s.turn + 1 }) rest
          refine ⟨ends, .committed s.rows s.pending :: more, by simp [log], ?_⟩
          simpa using ⟨now, kept⟩
  | rollback next ih => exact ih (s := { s with pending := [] }) holds
  | statement exec next ih =>
      obtain ⟨refused, answered⟩ := holds
      simp only [Prog.run]
      cases (oracle s.turn).fault with
      | some error => exact ih _ (s := { s with turn := s.turn + 1 }) (refused error)
      | none =>
          cases ran : exec (applyAll s.rows s.pending) with
          | error error => exact ih _ (s := { s with turn := s.turn + 1 }) (refused error)
          | ok o =>
              exact ih _ (s := { s with pending := s.pending ++ o.writes, turn := s.turn + 1 })
                (answered o ran)

theorem ending {ok' : β → List Row → List (Write Row Key) → Prop}
    {failed' : Error → List Row → List (Write Row Key) → Prop} {p : Prog Row Key Event Input Error α}
    {next : α → Prog Row Key Event Input Error β} {handler : Error → Prog Row Key Event Input Error β}
    (holds : p.Holds fine ok failed rows W)
    (succeeds : ∀ value rows W, ok value rows W → (next value).Holds fine ok' failed' rows W)
    (fails : ∀ error rows W, failed error rows W → (handler error).Holds fine ok' failed' rows W) :
    (p.ending next handler).Holds fine ok' failed' rows W := by
  induction p generalizing rows W with
  | pure value => exact succeeds _ _ _ holds
  | throw error => exact fails _ _ _ holds
  | input next ih => exact fun x => ih x (holds x)
  | emit event next ih => exact ⟨holds.1, ih holds.2⟩
  | commit next ih => exact ⟨fun error => ih _ (holds.1 error), holds.2.1, ih _ holds.2.2⟩
  | rollback next ih => exact ih holds
  | statement exec next ih =>
      exact ⟨fun error => ih _ (holds.1 error), fun o ran => ih _ (holds.2 o ran)⟩

theorem weaken {ok' : α → List Row → List (Write Row Key) → Prop}
    {failed' : Error → List Row → List (Write Row Key) → Prop} {p : Prog Row Key Event Input Error α}
    (holds : p.Holds fine ok failed rows W)
    (succeeds : ∀ value rows W, ok value rows W → ok' value rows W)
    (fails : ∀ error rows W, failed error rows W → failed' error rows W) :
    p.Holds fine ok' failed' rows W := by
  induction p generalizing rows W with
  | pure value => exact succeeds _ _ _ holds
  | throw error => exact fails _ _ _ holds
  | input next ih => exact fun x => ih x (holds x)
  | emit event next ih => exact ⟨holds.1, ih holds.2⟩
  | commit next ih => exact ⟨fun error => ih _ (holds.1 error), holds.2.1, ih _ holds.2.2⟩
  | rollback next ih => exact ih holds
  | statement exec next ih =>
      exact ⟨fun error => ih _ (holds.1 error), fun o ran => ih _ (holds.2 o ran)⟩

theorem bind {ok' : β → List Row → List (Write Row Key) → Prop}
    {p : Prog Row Key Event Input Error α} {next : α → Prog Row Key Event Input Error β}
    (holds : p.Holds fine (fun value rows W => (next value).Holds fine ok' failed rows W) failed rows W) :
    (p.bind next).Holds fine ok' failed rows W :=
  holds.ending (fun _ _ _ rest => rest) fun _ _ _ refused => refused

/-- `try … catch`. -/
theorem catching {p : Prog Row Key Event Input Error α}
    {handler : Error → Prog Row Key Event Input Error α}
    (holds : p.Holds fine ok (fun error rows W => (handler error).Holds fine ok failed rows W) rows W) :
    (p.catching handler).Holds fine ok failed rows W :=
  holds.ending (fun _ _ _ rest => rest) fun _ _ _ handled => handled

theorem query_or {ok : β → List Row → List (Write Row Key) → Prop} {exec : Statement Row Key Error β}
    (refused : ∀ error, failed error rows W)
    (answered : ∀ o, exec (applyAll rows W) = .ok o → ok o.result rows (W ++ o.writes)) :
    (Prog.query exec : Prog Row Key Event Input Error β).Holds fine ok failed rows W :=
  ⟨refused, answered⟩

theorem read_or {ok : β → List Row → List (Write Row Key) → Prop} {answer : List Row → β}
    (refused : ∀ error, failed error rows W) (rest : ok (answer (applyAll rows W)) rows W) :
    (Prog.query (Statement.read answer) : Prog Row Key Event Input Error β).Holds fine ok failed
      rows W := by
  apply query_or refused
  intro o ran
  cases ran
  simpa using rest

/-- A lookup that went on found its row. -/
theorem found_or {ok : β → List Row → List (Write Row Key) → Prop} {answer : List Row → Option β}
    {error : Error} (refused : ∀ error, failed error rows W)
    (hit : ∀ b, answer (applyAll rows W) = some b → ok b rows W) :
    (Prog.found (Statement.read answer) error : Prog Row Key Event Input Error β).Holds fine ok
      failed rows W := by
  apply bind
  apply read_or refused
  cases answered : answer (applyAll rows W) with
  | none => exact refused error
  | some b => exact hit b answered

theorem require_or {ok : Unit → List Row → List (Write Row Key) → Prop} {test : Bool} {error : Error}
    (refused : failed error rows W) (passed : test = true → ok () rows W) :
    (Prog.require test error : Prog Row Key Event Input Error Unit).Holds fine ok failed rows W := by
  cases test with
  | false => exact refused
  | true => exact passed rfl

theorem ofExcept_or {ok : β → List Row → List (Write Row Key) → Prop} {value : Except Error β}
    (refused : ∀ error, failed error rows W) (succeeded : ∀ b, value = .ok b → ok b rows W) :
    (Prog.ofExcept value : Prog Row Key Event Input Error β).Holds fine ok failed rows W := by
  cases value with
  | error error => exact refused error
  | ok b => exact succeeded b rfl

theorem transaction_or {p : Prog Row Key Event Input Error α}
    (holds : p.Holds fine
      (fun value rows W => (∀ error, failed error rows []) ∧ fine (.committed rows W) ∧
        ok value (applyAll rows W) [])
      (fun error rows _ => failed error rows []) rows W) :
    p.transaction.Holds fine ok failed rows W :=
  holds.ending (fun _ _ _ rest => rest) fun _ _ _ refused => refused

section Careless

/-! The same where nothing has to hold after a failure. -/

theorem query {ok : β → List Row → List (Write Row Key) → Prop} {exec : Statement Row Key Error β}
    (answered : ∀ o, exec (applyAll rows W) = .ok o → ok o.result rows (W ++ o.writes)) :
    (Prog.query exec : Prog Row Key Event Input Error β).Holds fine ok (fun _ _ _ => True) rows W :=
  query_or (fun _ => trivial) answered

theorem read {ok : β → List Row → List (Write Row Key) → Prop} {answer : List Row → β}
    (rest : ok (answer (applyAll rows W)) rows W) :
    (Prog.query (Statement.read answer) : Prog Row Key Event Input Error β).Holds fine ok
      (fun _ _ _ => True) rows W :=
  read_or (fun _ => trivial) rest

theorem found {ok : β → List Row → List (Write Row Key) → Prop} {answer : List Row → Option β}
    {error : Error} (hit : ∀ b, answer (applyAll rows W) = some b → ok b rows W) :
    (Prog.found (Statement.read answer) error : Prog Row Key Event Input Error β).Holds fine ok
      (fun _ _ _ => True) rows W :=
  found_or (fun _ => trivial) hit

theorem require {ok : Unit → List Row → List (Write Row Key) → Prop} {test : Bool} {error : Error}
    (passed : test = true → ok () rows W) :
    (Prog.require test error : Prog Row Key Event Input Error Unit).Holds fine ok
      (fun _ _ _ => True) rows W :=
  require_or trivial passed

theorem ofExcept {ok : β → List Row → List (Write Row Key) → Prop} {value : Except Error β}
    (succeeded : ∀ b, value = .ok b → ok b rows W) :
    (Prog.ofExcept value : Prog Row Key Event Input Error β).Holds fine ok (fun _ _ _ => True)
      rows W :=
  ofExcept_or (fun _ => trivial) succeeded

theorem transaction {p : Prog Row Key Event Input Error α}
    (holds : p.Holds fine
      (fun value rows W => fine (.committed rows W) ∧ ok value (applyAll rows W) [])
      (fun _ _ _ => True) rows W) :
    p.transaction.Holds fine ok (fun _ _ _ => True) rows W :=
  transaction_or (holds.weaken (fun _ _ _ kept => ⟨fun _ => trivial, kept⟩) fun _ _ _ _ => trivial)

end Careless

/-- A loop keeps what every round of it keeps. -/
theorem forEach {I : List Row → List (Write Row Key) → Prop}
    {body : β → Prog Row Key Event Input Error Unit} {items : List β} (start : I rows W)
    (round : ∀ item ∈ items, ∀ rows W, I rows W →
      (body item).Holds fine (fun _ rows W => I rows W) failed rows W) :
    (Prog.forEach items body).Holds fine (fun _ rows W => I rows W) failed rows W := by
  induction items generalizing rows W with
  | nil => exact start
  | cons item rest ih =>
      apply bind
      apply (round item List.mem_cons_self rows W start).weaken _ fun _ _ _ refused => refused
      intro _ rows W kept
      exact ih kept fun other member => round other (List.mem_cons_of_mem _ member)

/-- A body answering without writes for every item. -/
theorem collect {R : β → γ → Prop} {body : β → Prog Row Key Event Input Error γ} {items : List β}
    (round : ∀ item ∈ items, (body item).Holds fine
      (fun c rows' W' => R item c ∧ rows' = rows ∧ W' = W) failed rows W) :
    (Prog.collect items body).Holds fine
      (fun cs rows' W' => List.Forall₂ R items cs ∧ rows' = rows ∧ W' = W) failed rows W := by
  induction items with
  | nil => exact ⟨.nil, rfl, rfl⟩
  | cons item rest ih =>
      apply bind
      apply (round item List.mem_cons_self).weaken _ fun _ _ _ refused => refused
      rintro c _ _ ⟨first, rfl, rfl⟩
      apply bind
      apply (ih fun other member => round other (List.mem_cons_of_mem _ member)).weaken _
        fun _ _ _ refused => refused
      rintro cs _ _ ⟨more, rfl, rfl⟩
      exact ⟨.cons first more, rfl, rfl⟩

/-- What every commit of a run keeps holds of the rows it leaves. -/
theorem keeping {I : List Row → Prop} {p : Prog Row Key Event Input Error α}
    {s : Session Row Key Event} (holds : p.Holds fine ok failed s.rows s.pending)
    (kept : ∀ rows W, I rows → fine (.committed rows W) → I (applyAll rows W)) (start : I s.rows)
    (oracle : Nat → Choice Input Error) : I (p.run oracle s).2.rows := by
  induction p generalizing s with
  | pure value => exact start
  | throw error => exact start
  | input next ih => exact ih _ (s := { s with turn := s.turn + 1 }) (holds _) start
  | emit event next ih =>
      exact ih (s := { s with log := s.log ++ [.emitted event s.rows] }) holds.2 start
  | commit next ih =>
      obtain ⟨refused, now, rest⟩ := holds
      simp only [Prog.run]
      cases (oracle s.turn).fault with
      | some error => exact ih _ (s := { s with pending := [], turn := s.turn + 1 }) (refused error) start
      | none => exact ih _ (s := {
            rows := applyAll s.rows s.pending
            log := s.log ++ [.committed s.rows s.pending]
            turn := s.turn + 1 }) rest (kept _ _ start now)
  | rollback next ih => exact ih (s := { s with pending := [] }) holds start
  | statement exec next ih =>
      obtain ⟨refused, answered⟩ := holds
      simp only [Prog.run]
      cases (oracle s.turn).fault with
      | some error => exact ih _ (s := { s with turn := s.turn + 1 }) (refused error) start
      | none =>
          cases ran : exec (applyAll s.rows s.pending) with
          | error error => exact ih _ (s := { s with turn := s.turn + 1 }) (refused error) start
          | ok o =>
              exact ih _ (s := { s with pending := s.pending ++ o.writes, turn := s.turn + 1 })
                (answered o ran) start

end Holds

/-- Programs one after the other, each in a transaction scope of its own. -/
def runAll (oracle : Nat → Choice Input Error) :
    List (Prog Row Key Event Input Error Unit) → Session Row Key Event → Session Row Key Event
  | [], s => s
  | p :: rest, s => runAll oracle rest (p.run oracle { s with pending := [] }).2

end Prog
end Kurul.Store
