import Kurul.Store.Referential
import Kurul.Store.Sequential

/-! An account kept along a run: what a commit adds to it, and what an event takes off. A
program is verified by the account it leaves, whether it ends or fails. -/
namespace Kurul.Store

variable {Row Key Event Input Error σ α β : Type} [Keyed Row Key] [DecidableEq Key]

structure Ledger (Row Key Event σ : Type) where
  commit : List Row → List (Write Row Key) → σ → σ
  emit : Event → σ → σ

namespace Ledger

variable (L : Ledger Row Key Event σ)

def entry (account : σ) : Occurrence Row Key Event → σ
  | .committed before W => L.commit before W account
  | .emitted event _ => L.emit event account

/-- The account after the occurrences. -/
def balance (account : σ) (log : List (Occurrence Row Key Event)) : σ := log.foldl L.entry account

end Ledger

namespace Prog

/-- From these rows, uncommitted writes and account, whatever the program is given, it ends
in `ok` or in `failed`; a `frail` account only meets statements that succeed. -/
def Accounts (L : Ledger Row Key Event σ) (frail : σ → Prop)
    (ok : α → List Row → List (Write Row Key) → σ → Prop)
    (failed : List Row → List (Write Row Key) → σ → Prop) :
    Prog Row Key Event Input Error α → List Row → List (Write Row Key) → σ → Prop
  | .pure value, rows, W, account => ok value rows W account
  | .throw _, rows, W, account => failed rows W account
  | .input next, rows, W, account => ∀ x, (next x).Accounts L frail ok failed rows W account
  | .emit event next, rows, W, account => next.Accounts L frail ok failed rows W (L.emit event account)
  | .rollback next, rows, _, account => next.Accounts L frail ok failed rows [] account
  | .commit next, rows, W, account =>
      (¬ frail account → ∀ error, (next (.error error)).Accounts L frail ok failed rows [] account) ∧
      (next (.ok ())).Accounts L frail ok failed (applyAll rows W) [] (L.commit rows W account)
  | .statement exec next, rows, W, account =>
      (¬ frail account → ∀ error, (next (.error error)).Accounts L frail ok failed rows W account) ∧
      ∀ o, exec (applyAll rows W) = .ok o →
        (next (.ok o.result)).Accounts L frail ok failed rows (W ++ o.writes) account

/-- In this run, no statement fails that meets a frail account. -/
def Spares (L : Ledger Row Key Event σ) (frail : σ → Prop) (oracle : Nat → Choice Input Error) :
    Prog Row Key Event Input Error α → Session Row Key Event → σ → Prop
  | .pure _, _, _ => True
  | .throw _, _, _ => True
  | .input next, s, account => (next (oracle s.turn).value).Spares L frail oracle { s with turn := s.turn + 1 } account
  | .emit event next, s, account =>
      next.Spares L frail oracle { s with log := s.log ++ [.emitted event s.rows] } (L.emit event account)
  | .rollback next, s, account => next.Spares L frail oracle { s with pending := [] } account
  | .commit next, s, account =>
      match (oracle s.turn).fault with
      | some error => ¬ frail account ∧
          (next (.error error)).Spares L frail oracle { s with pending := [], turn := s.turn + 1 } account
      | none => (next (.ok ())).Spares L frail oracle
          { rows := applyAll s.rows s.pending
            log := s.log ++ [.committed s.rows s.pending]
            turn := s.turn + 1 } (L.commit s.rows s.pending account)
  | .statement exec next, s, account =>
      match (oracle s.turn).fault with
      | some error => ¬ frail account ∧
          (next (.error error)).Spares L frail oracle { s with turn := s.turn + 1 } account
      | none =>
          match exec (applyAll s.rows s.pending) with
          | .error error => ¬ frail account ∧
              (next (.error error)).Spares L frail oracle { s with turn := s.turn + 1 } account
          | .ok o => (next (.ok o.result)).Spares L frail oracle
              { s with pending := s.pending ++ o.writes, turn := s.turn + 1 } account

variable {L : Ledger Row Key Event σ} {frail : σ → Prop}
  {ok : α → List Row → List (Write Row Key) → σ → Prop} {failed : List Row → List (Write Row Key) → σ → Prop}
  {rows : List Row} {W : List (Write Row Key)} {account : σ}

theorem spares_sound (p : Prog Row Key Event Input Error α) (oracle : Nat → Choice Input Error)
    (s : Session Row Key Event) (account : σ) : p.Spares L (fun _ => False) oracle s account := by
  induction p generalizing s account with
  | pure value => trivial
  | throw error => trivial
  | input next ih => exact ih _ _ _
  | emit event next ih => exact ih _ _
  | rollback next ih => exact ih _ _
  | commit next ih =>
      simp only [Spares]
      cases (oracle s.turn).fault with
      | some error => exact ⟨id, ih _ _ _⟩
      | none => exact ih _ _ _
  | statement exec next ih =>
      simp only [Spares]
      cases (oracle s.turn).fault with
      | some error => exact ⟨id, ih _ _ _⟩
      | none =>
          cases exec (applyAll s.rows s.pending) with
          | error error => exact ⟨id, ih _ _ _⟩
          | ok o => exact ih _ _ _

/-- What a run keeps of its rows, whatever it writes. -/
theorem run_rows {I : List Row → Prop} (kept : ∀ rows W, I rows → I (applyAll rows W))
    (p : Prog Row Key Event Input Error α) (oracle : Nat → Choice Input Error) {s : Session Row Key Event}
    (start : I s.rows) : I (p.run oracle s).2.rows := by
  induction p generalizing s with
  | pure value => exact start
  | throw error => exact start
  | input next ih => exact ih _ (s := { s with turn := s.turn + 1 }) start
  | emit event next ih => exact ih (s := { s with log := s.log ++ [.emitted event s.rows] }) start
  | rollback next ih => exact ih (s := { s with pending := [] }) start
  | commit next ih =>
      simp only [Prog.run]
      cases (oracle s.turn).fault with
      | some error => exact ih _ (s := { s with pending := [], turn := s.turn + 1 }) start
      | none => exact ih _ (s := {
            rows := applyAll s.rows s.pending
            log := s.log ++ [.committed s.rows s.pending]
            turn := s.turn + 1 }) (kept _ _ start)
  | statement exec next ih =>
      simp only [Prog.run]
      cases (oracle s.turn).fault with
      | some error => exact ih _ (s := { s with turn := s.turn + 1 }) start
      | none =>
          cases exec (applyAll s.rows s.pending) with
          | error error => exact ih _ (s := { s with turn := s.turn + 1 }) start
          | ok o =>
              exact ih _ (s := { s with pending := s.pending ++ o.writes, turn := s.turn + 1 }) start

namespace Accounts

/-- The account of a run is the balance of what it logged. -/
theorem run {p : Prog Row Key Event Input Error α} {s : Session Row Key Event}
    (accounts : p.Accounts L frail ok failed s.rows s.pending account) (oracle : Nat → Choice Input Error)
    (spared : p.Spares L frail oracle s account) :
    ∃ more, (p.run oracle s).2.log = s.log ++ more ∧
      (match (p.run oracle s).1 with
        | .ok value => ok value (p.run oracle s).2.rows (p.run oracle s).2.pending (L.balance account more)
        | .error _ => failed (p.run oracle s).2.rows (p.run oracle s).2.pending (L.balance account more)) := by
  induction p generalizing s account with
  | pure value => exact ⟨[], (List.append_nil _).symm, accounts⟩
  | throw error => exact ⟨[], (List.append_nil _).symm, accounts⟩
  | input next ih => exact ih _ (s := { s with turn := s.turn + 1 }) (accounts _) spared
  | rollback next ih => exact ih (s := { s with pending := [] }) accounts spared
  | emit event next ih =>
      obtain ⟨more, log, ends⟩ := ih (s := { s with log := s.log ++ [.emitted event s.rows] }) accounts spared
      exact ⟨.emitted event s.rows :: more, by simp [Prog.run, log], ends⟩
  | commit next ih =>
      obtain ⟨refused, rest⟩ := accounts
      simp only [Spares] at spared
      simp only [Prog.run]
      cases fault : (oracle s.turn).fault with
      | some error =>
          rw [fault] at spared
          exact ih _ (s := { s with pending := [], turn := s.turn + 1 }) (refused spared.1 error) spared.2
      | none =>
          rw [fault] at spared
          obtain ⟨more, log, ends⟩ := ih _ (s := {
            rows := applyAll s.rows s.pending
            log := s.log ++ [.committed s.rows s.pending]
            turn := s.turn + 1 }) rest spared
          exact ⟨.committed s.rows s.pending :: more, by simp [log], ends⟩
  | statement exec next ih =>
      obtain ⟨refused, answered⟩ := accounts
      simp only [Spares] at spared
      simp only [Prog.run]
      cases fault : (oracle s.turn).fault with
      | some error =>
          rw [fault] at spared
          exact ih _ (s := { s with turn := s.turn + 1 }) (refused spared.1 error) spared.2
      | none =>
          rw [fault] at spared
          cases ran : exec (applyAll s.rows s.pending) with
          | error error =>
              rw [ran] at spared
              exact ih _ (s := { s with turn := s.turn + 1 }) (refused spared.1 error) spared.2
          | ok o =>
              rw [ran] at spared
              exact ih _ (s := { s with pending := s.pending ++ o.writes, turn := s.turn + 1 })
                (answered o ran) spared

theorem weaken {ok' : α → List Row → List (Write Row Key) → σ → Prop}
    {failed' : List Row → List (Write Row Key) → σ → Prop} {p : Prog Row Key Event Input Error α}
    (accounts : p.Accounts L frail ok failed rows W account)
    (succeeds : ∀ value rows W account, ok value rows W account → ok' value rows W account)
    (fails : ∀ rows W account, failed rows W account → failed' rows W account) :
    p.Accounts L frail ok' failed' rows W account := by
  induction p generalizing rows W account with
  | pure value => exact succeeds _ _ _ _ accounts
  | throw error => exact fails _ _ _ accounts
  | input next ih => exact fun x => ih x (accounts x)
  | emit event next ih => exact ih accounts
  | rollback next ih => exact ih accounts
  | commit next ih =>
      obtain ⟨refused, rest⟩ := accounts
      exact ⟨fun sound error => ih _ (refused sound error), ih _ rest⟩
  | statement exec next ih =>
      obtain ⟨refused, answered⟩ := accounts
      exact ⟨fun sound error => ih _ (refused sound error), fun o ran => ih _ (answered o ran)⟩

theorem ending {ok' : β → List Row → List (Write Row Key) → σ → Prop}
    {failed' : List Row → List (Write Row Key) → σ → Prop} {p : Prog Row Key Event Input Error α}
    {next : α → Prog Row Key Event Input Error β} {handler : Error → Prog Row Key Event Input Error β}
    (accounts : p.Accounts L frail ok failed rows W account)
    (succeeds : ∀ value rows W account, ok value rows W account →
      (next value).Accounts L frail ok' failed' rows W account)
    (fails : ∀ error rows W account, failed rows W account →
      (handler error).Accounts L frail ok' failed' rows W account) :
    (p.ending next handler).Accounts L frail ok' failed' rows W account := by
  induction p generalizing rows W account with
  | pure value => exact succeeds _ _ _ _ accounts
  | throw error => exact fails _ _ _ _ accounts
  | input next ih => exact fun x => ih x (accounts x)
  | emit event next ih => exact ih accounts
  | rollback next ih => exact ih accounts
  | commit next ih =>
      obtain ⟨refused, rest⟩ := accounts
      exact ⟨fun sound error => ih _ (refused sound error), ih _ rest⟩
  | statement exec next ih =>
      obtain ⟨refused, answered⟩ := accounts
      exact ⟨fun sound error => ih _ (refused sound error), fun o ran => ih _ (answered o ran)⟩

theorem andThen {ok' : β → List Row → List (Write Row Key) → σ → Prop} {p : Prog Row Key Event Input Error α}
    {next : α → Prog Row Key Event Input Error β} (accounts : p.Accounts L frail ok failed rows W account)
    (succeeds : ∀ value rows W account, ok value rows W account →
      (next value).Accounts L frail ok' failed rows W account) :
    (p.bind next).Accounts L frail ok' failed rows W account :=
  accounts.ending succeeds fun _ _ _ _ refused => refused

theorem bind {ok' : β → List Row → List (Write Row Key) → σ → Prop} {p : Prog Row Key Event Input Error α}
    {next : α → Prog Row Key Event Input Error β}
    (accounts : p.Accounts L frail (fun value rows W account => (next value).Accounts L frail ok' failed rows W account)
      failed rows W account) : (p.bind next).Accounts L frail ok' failed rows W account :=
  accounts.andThen fun _ _ _ _ rest => rest

/-- `try … catch`. -/
theorem catching {p : Prog Row Key Event Input Error α} {handler : Error → Prog Row Key Event Input Error α}
    (caught : List Row → List (Write Row Key) → σ → Prop)
    (accounts : p.Accounts L frail ok caught rows W account)
    (fails : ∀ error rows W account, caught rows W account →
      (handler error).Accounts L frail ok failed rows W account) :
    (p.catching handler).Accounts L frail ok failed rows W account :=
  accounts.ending (fun _ _ _ _ rest => rest) fails

theorem query {ok : β → List Row → List (Write Row Key) → σ → Prop} {exec : Statement Row Key Error β}
    (refused : ¬ frail account → failed rows W account)
    (answered : ∀ o, exec (applyAll rows W) = .ok o → ok o.result rows (W ++ o.writes) account) :
    (Prog.query exec : Prog Row Key Event Input Error β).Accounts L frail ok failed rows W account :=
  ⟨fun sound _ => refused sound, answered⟩

theorem read {ok : β → List Row → List (Write Row Key) → σ → Prop} {answer : List Row → β}
    (refused : ¬ frail account → failed rows W account) (rest : ok (answer (applyAll rows W)) rows W account) :
    (Prog.query (Statement.read answer) : Prog Row Key Event Input Error β).Accounts L frail ok failed
      rows W account := by
  apply query refused
  intro o ran
  cases ran
  simpa using rest

theorem found {ok : β → List Row → List (Write Row Key) → σ → Prop} {answer : List Row → Option β}
    {error : Error} (refused : failed rows W account)
    (hit : ∀ b, answer (applyAll rows W) = some b → ok b rows W account) :
    (Prog.found (Statement.read answer) error : Prog Row Key Event Input Error β).Accounts L frail ok failed
      rows W account := by
  apply bind
  apply read fun _ => refused
  cases answered : answer (applyAll rows W) with
  | none => exact refused
  | some b => exact hit b answered

theorem require {ok : Unit → List Row → List (Write Row Key) → σ → Prop} {test : Bool} {error : Error}
    (refused : failed rows W account) (passed : test = true → ok () rows W account) :
    (Prog.require test error : Prog Row Key Event Input Error Unit).Accounts L frail ok failed rows W account := by
  cases test with
  | false => exact refused
  | true => exact passed rfl

theorem transaction {p : Prog Row Key Event Input Error α}
    (accounts : p.Accounts L frail
      (fun value rows W account => (¬ frail account → failed rows [] account) ∧
        ok value (applyAll rows W) [] (L.commit rows W account))
      (fun rows _ account => failed rows [] account) rows W account) :
    p.transaction.Accounts L frail ok failed rows W account := by
  apply accounts.ending
  · rintro value rows W account ⟨refused, rest⟩
    exact ⟨fun sound _ => refused sound, rest⟩
  · intro error rows W account refused
    exact refused

theorem forEach {I : List β → List Row → List (Write Row Key) → σ → Prop}
    {body : β → Prog Row Key Event Input Error Unit} {items : List β} (done : List β) (start : I done rows W account)
    (round : ∀ done item rows W account, item ∈ items → I done rows W account →
      (body item).Accounts L frail (fun _ rows W account => I (done ++ [item]) rows W account) failed rows W account) :
    (Prog.forEach items body).Accounts L frail (fun _ rows W account => I (done ++ items) rows W account) failed
      rows W account := by
  induction items generalizing done rows W account with
  | nil =>
      rw [List.append_nil]
      exact start
  | cons item rest ih =>
      apply (round done item rows W account List.mem_cons_self start).andThen
      intro _ rows W account kept
      have later := ih (done ++ [item]) kept fun done other rows W account member =>
        round done other rows W account (List.mem_cons_of_mem _ member)
      rwa [List.append_assoc, List.singleton_append] at later

/-- A body answering without writes for every item. -/
theorem collect {γ : Type} {R : β → γ → Prop} {body : β → Prog Row Key Event Input Error γ} {items : List β}
    (round : ∀ item ∈ items, (body item).Accounts L frail
      (fun c rows' W' account' => R item c ∧ rows' = rows ∧ W' = W ∧ account' = account) failed rows W account) :
    (Prog.collect items body).Accounts L frail (fun cs rows' W' account' =>
      List.Forall₂ R items cs ∧ rows' = rows ∧ W' = W ∧ account' = account) failed rows W account := by
  induction items with
  | nil => exact ⟨.nil, rfl, rfl, rfl⟩
  | cons item rest ih =>
      apply (round item List.mem_cons_self).andThen
      rintro c _ _ _ ⟨first, rfl, rfl, rfl⟩
      apply (ih fun other member => round other (List.mem_cons_of_mem _ member)).andThen
      rintro cs _ _ _ ⟨more, rfl, rfl, rfl⟩
      exact ⟨.cons first more, rfl, rfl, rfl⟩

end Accounts
end Prog
end Kurul.Store
