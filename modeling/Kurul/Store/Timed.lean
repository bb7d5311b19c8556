import Kurul.Store.Sequential
import Mathlib

/-! Programs run alone on a clock that does not go back. What a program has looked at stays
what it is until its own next commit, and only the time moves on. -/
namespace Kurul.Store

variable {Row Key Event Input Error α β γ T : Type} [Keyed Row Key] [DecidableEq Key] [Preorder T]

/-- From these rows and writes at this time, with the refusals that may come from outside,
the program ends as it should. -/
def Prog.Timely (time : Input → T) (faults : Error → Prop) (ok : α → T → List Row → List (Write Row Key) → Prop)
    (failed : Error → T → List Row → List (Write Row Key) → Prop) :
    Prog Row Key Event Input Error α → T → List Row → List (Write Row Key) → Prop
  | .pure value, now, rows, W => ok value now rows W
  | .throw error, now, rows, W => failed error now rows W
  | .input next, now, rows, W =>
      ∀ x, now ≤ time x → (next x).Timely time faults ok failed (time x) rows W
  | .emit _ next, now, rows, W => next.Timely time faults ok failed now rows W
  | .rollback next, now, rows, _ => next.Timely time faults ok failed now rows []
  | .commit next, now, rows, W =>
      (∀ error, faults error → (next (.error error)).Timely time faults ok failed now rows []) ∧
      (next (.ok ())).Timely time faults ok failed now (applyAll rows W) []
  | .statement exec next, now, rows, W =>
      (∀ error, faults error ∨ exec (applyAll rows W) = .error error →
        (next (.error error)).Timely time faults ok failed now rows W) ∧
      ∀ o, exec (applyAll rows W) = .ok o →
        (next (.ok o.result)).Timely time faults ok failed now rows (W ++ o.writes)

/-- What a run is given from one of its turns on: values whose times do not go back, and
refusals that may come. -/
structure Given (time : Input → T) (faults : Error → Prop) (oracle : Nat → Choice Input Error)
    (turn : Nat) (now : T) : Prop where
  later : ∀ n, turn ≤ n → now ≤ time (oracle n).value
  forward : ∀ n m, turn ≤ n → n ≤ m → time (oracle n).value ≤ time (oracle m).value
  faults : ∀ n, turn ≤ n → ∀ error, (oracle n).fault = some error → faults error

omit [Keyed Row Key] [DecidableEq Key] in
theorem Given.next {time : Input → T} {faults : Error → Prop} {oracle : Nat → Choice Input Error}
    {turn : Nat} {now : T} (given : Given time faults oracle turn now) :
    Given time faults oracle (turn + 1) now :=
  ⟨fun n le => given.later n (by omega), fun n m le => given.forward n m (by omega),
    fun n le => given.faults n (by omega)⟩

omit [Keyed Row Key] [DecidableEq Key] in
theorem Given.ask {time : Input → T} {faults : Error → Prop} {oracle : Nat → Choice Input Error}
    {turn : Nat} {now : T} (given : Given time faults oracle turn now) :
    Given time faults oracle (turn + 1) (time (oracle turn).value) :=
  ⟨fun n le => given.forward turn n (Nat.le_refl _) (by omega), fun n m le => given.forward n m (by omega),
    fun n le => given.faults n (by omega)⟩

namespace Prog.Timely

variable {time : Input → T} {faults : Error → Prop}
  {ok : α → T → List Row → List (Write Row Key) → Prop}
  {failed : Error → T → List Row → List (Write Row Key) → Prop}
  {now : T} {rows : List Row} {W : List (Write Row Key)}

/-- The end of a run, at a time no later than any after it. -/
theorem run {p : Prog Row Key Event Input Error α} {s : Session Row Key Event}
    {oracle : Nat → Choice Input Error}
    (timely : p.Timely time faults ok failed now s.rows s.pending)
    (given : Given time faults oracle s.turn now) :
    ∃ now', now ≤ now' ∧ Given time faults oracle (p.run oracle s).2.turn now' ∧
      ((∃ value, (p.run oracle s).1 = .ok value ∧
        ok value now' (p.run oracle s).2.rows (p.run oracle s).2.pending) ∨
      ∃ error, (p.run oracle s).1 = .error error ∧
        failed error now' (p.run oracle s).2.rows (p.run oracle s).2.pending) := by
  induction p generalizing s now with
  | pure value => exact ⟨now, le_rfl, given, .inl ⟨value, rfl, timely⟩⟩
  | throw error => exact ⟨now, le_rfl, given, .inr ⟨error, rfl, timely⟩⟩
  | input next ih =>
      have first := given.later s.turn (Nat.le_refl _)
      obtain ⟨now', later, rest⟩ := ih _ (s := { s with turn := s.turn + 1 }) (timely _ first) given.ask
      exact ⟨now', le_trans first later, rest⟩
  | emit event next ih =>
      exact ih (s := { s with log := s.log ++ [.emitted event s.rows] }) timely given
  | rollback next ih => exact ih (s := { s with pending := [] }) timely given
  | commit next ih =>
      obtain ⟨refused, rest⟩ := timely
      simp only [Prog.run]
      cases fault : (oracle s.turn).fault with
      | some error =>
          exact ih _ (s := { s with pending := [], turn := s.turn + 1 })
            (refused error (given.faults _ (Nat.le_refl _) error fault)) given.next
      | none => exact ih _ (s := {
            rows := applyAll s.rows s.pending
            log := s.log ++ [.committed s.rows s.pending]
            turn := s.turn + 1 }) rest given.next
  | statement exec next ih =>
      obtain ⟨refused, answered⟩ := timely
      simp only [Prog.run]
      cases fault : (oracle s.turn).fault with
      | some error =>
          exact ih _ (s := { s with turn := s.turn + 1 })
            (refused error (.inl (given.faults _ (Nat.le_refl _) error fault))) given.next
      | none =>
          cases ran : exec (applyAll s.rows s.pending) with
          | error error =>
              exact ih _ (s := { s with turn := s.turn + 1 }) (refused error (.inr ran)) given.next
          | ok o =>
              exact ih _ (s := { s with pending := s.pending ++ o.writes, turn := s.turn + 1 })
                (answered o ran) given.next

theorem ending {ok' : β → T → List Row → List (Write Row Key) → Prop}
    {failed' : Error → T → List Row → List (Write Row Key) → Prop}
    {p : Prog Row Key Event Input Error α} {next : α → Prog Row Key Event Input Error β}
    {handler : Error → Prog Row Key Event Input Error β}
    (timely : p.Timely time faults ok failed now rows W)
    (succeeds : ∀ value now rows W, ok value now rows W →
      (next value).Timely time faults ok' failed' now rows W)
    (fails : ∀ error now rows W, failed error now rows W →
      (handler error).Timely time faults ok' failed' now rows W) :
    (p.ending next handler).Timely time faults ok' failed' now rows W := by
  induction p generalizing now rows W with
  | pure value => exact succeeds _ _ _ _ timely
  | throw error => exact fails _ _ _ _ timely
  | input next ih => exact fun x later => ih x (timely x later)
  | emit event next ih => exact ih timely
  | rollback next ih => exact ih timely
  | commit next ih =>
      exact ⟨fun error fault => ih _ (timely.1 error fault), ih _ timely.2⟩
  | statement exec next ih =>
      exact ⟨fun error refused => ih _ (timely.1 error refused), fun o ran => ih _ (timely.2 o ran)⟩

theorem bind {ok' : β → T → List Row → List (Write Row Key) → Prop}
    {p : Prog Row Key Event Input Error α} {next : α → Prog Row Key Event Input Error β}
    (timely : p.Timely time faults
      (fun value now rows W => (next value).Timely time faults ok' failed now rows W) failed now rows W) :
    (p.bind next).Timely time faults ok' failed now rows W :=
  timely.ending (fun _ _ _ _ rest => rest) fun _ _ _ _ refused => refused

theorem catching {p : Prog Row Key Event Input Error α}
    {handler : Error → Prog Row Key Event Input Error α}
    (timely : p.Timely time faults ok
      (fun error now rows W => (handler error).Timely time faults ok failed now rows W) now rows W) :
    (p.catching handler).Timely time faults ok failed now rows W :=
  timely.ending (fun _ _ _ _ rest => rest) fun _ _ _ _ handled => handled

theorem weaken {ok' : α → T → List Row → List (Write Row Key) → Prop}
    {failed' : Error → T → List Row → List (Write Row Key) → Prop}
    {p : Prog Row Key Event Input Error α} (timely : p.Timely time faults ok failed now rows W)
    (succeeds : ∀ value now rows W, ok value now rows W → ok' value now rows W)
    (fails : ∀ error now rows W, failed error now rows W → failed' error now rows W) :
    p.Timely time faults ok' failed' now rows W := by
  induction p generalizing now rows W with
  | pure value => exact succeeds _ _ _ _ timely
  | throw error => exact fails _ _ _ _ timely
  | input next ih => exact fun x later => ih x (timely x later)
  | emit event next ih => exact ih timely
  | rollback next ih => exact ih timely
  | commit next ih =>
      exact ⟨fun error fault => ih _ (timely.1 error fault), ih _ timely.2⟩
  | statement exec next ih =>
      exact ⟨fun error refused => ih _ (timely.1 error refused), fun o ran => ih _ (timely.2 o ran)⟩

theorem query {ok : β → T → List Row → List (Write Row Key) → Prop} {exec : Statement Row Key Error β}
    (refused : ∀ error, faults error ∨ exec (applyAll rows W) = .error error → failed error now rows W)
    (answered : ∀ o, exec (applyAll rows W) = .ok o → ok o.result now rows (W ++ o.writes)) :
    (Prog.query exec : Prog Row Key Event Input Error β).Timely time faults ok failed now rows W :=
  ⟨refused, answered⟩

theorem read {ok : β → T → List Row → List (Write Row Key) → Prop} {answer : List Row → β}
    (refused : ∀ error, faults error → failed error now rows W)
    (rest : ok (answer (applyAll rows W)) now rows W) :
    (Prog.query (Statement.read answer) : Prog Row Key Event Input Error β).Timely time faults ok
      failed now rows W := by
  apply query
  · rintro error (fault | ran)
    · exact refused error fault
    · cases ran
  · intro o ran
    cases ran
    simpa using rest

/-- A lookup that went on found its row. -/
theorem found {ok : β → T → List Row → List (Write Row Key) → Prop} {answer : List Row → Option β}
    {error : Error} (refused : ∀ fault, faults fault → failed fault now rows W)
    (missed : failed error now rows W) (hit : ∀ b, answer (applyAll rows W) = some b → ok b now rows W) :
    (Prog.found (Statement.read answer) error : Prog Row Key Event Input Error β).Timely time faults
      ok failed now rows W := by
  apply bind
  apply read refused
  cases answered : answer (applyAll rows W) with
  | none => exact missed
  | some b => exact hit b answered

theorem require {ok : Unit → T → List Row → List (Write Row Key) → Prop} {test : Bool} {error : Error}
    (refused : test = false → failed error now rows W) (passed : test = true → ok () now rows W) :
    (Prog.require test error : Prog Row Key Event Input Error Unit).Timely time faults ok failed
      now rows W := by
  cases test with
  | false => exact refused rfl
  | true => exact passed rfl

theorem transaction {p : Prog Row Key Event Input Error α}
    (timely : p.Timely time faults
      (fun value now rows W => (∀ error, faults error → failed error now rows []) ∧ ok value now (applyAll rows W) [])
      (fun error now rows _ => failed error now rows []) now rows W) :
    p.transaction.Timely time faults ok failed now rows W :=
  timely.ending (fun _ _ _ _ rest => rest) fun _ _ _ _ refused => refused

/-- A loop keeps what every round of it keeps. -/
theorem forEach {I : T → List Row → List (Write Row Key) → Prop}
    {body : β → Prog Row Key Event Input Error Unit} {items : List β} (start : I now rows W)
    (round : ∀ item ∈ items, ∀ now rows W, I now rows W →
      (body item).Timely time faults (fun _ => I) failed now rows W) :
    (Prog.forEach items body).Timely time faults (fun _ => I) failed now rows W := by
  induction items generalizing now rows W with
  | nil => exact start
  | cons item rest ih =>
      apply bind
      apply (round item List.mem_cons_self now rows W start).weaken
      · intro _ now rows W kept
        exact ih kept fun other member => round other (List.mem_cons_of_mem _ member)
      · intro _ _ _ _ refused
        exact refused

end Prog.Timely
end Kurul.Store
