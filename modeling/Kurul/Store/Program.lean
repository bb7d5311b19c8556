import Kurul.Store.Rows

/-! Database programs: statements that read what their transaction sees, commit
and rollback points, published events and values supplied from outside. A
program is data, so one definition is run alone in `Kurul.Store.Sequential` and
interleaved with others in `Kurul.Store.Interleaving`. -/
namespace Kurul.Store

/-- Row-lock strengths. A check that a referenced row exists takes the weakest,
an update that keeps the key the middle one, `FOR UPDATE` and deletion the
strongest. -/
inductive LockMode where
  | keyShare
  | noKeyUpdate
  | update
  deriving DecidableEq

def LockMode.conflicts : LockMode → LockMode → Bool
  | .keyShare, .update | .update, .keyShare => true
  | .keyShare, _ | _, .keyShare => false
  | .noKeyUpdate, _ | .update, _ => true

/-- The row locks of one transaction. -/
abbrev Held (Key : Type) := List (Key × LockMode)

def Write.lock {Row Key : Type} [Keyed Row Key] : Write Row Key → Key × LockMode
  | .put row => (key row, .noKeyUpdate)
  | .del k => (k, .update)

/-- What a statement that succeeds answers, writes and locks beyond its writes. -/
structure Outcome (Row Key β : Type) where
  result : β
  writes : List (Write Row Key) := []
  locks : Held Key := []

def Outcome.footprint {Row Key β : Type} [Keyed Row Key] (o : Outcome Row Key β) : Held Key :=
  o.locks ++ o.writes.map Write.lock

/-- A statement sees the committed rows under its own transaction's writes. -/
abbrev Statement (Row Key Error β : Type) := List Row → Except Error (Outcome Row Key β)

/-- A statement that only reads. -/
def Statement.read {Row Key Error β : Type} (answer : List Row → β) : Statement Row Key Error β :=
  fun rows => .ok { result := answer rows }

inductive Prog (Row Key Event Input Error α : Type) : Type 1 where
  | pure (value : α)
  | throw (error : Error)
  | input (next : Input → Prog Row Key Event Input Error α)
  | emit (event : Event) (next : Prog Row Key Event Input Error α)
  | commit (next : Except Error Unit → Prog Row Key Event Input Error α)
  | rollback (next : Prog Row Key Event Input Error α)
  | statement {β : Type} (exec : Statement Row Key Error β)
      (next : Except Error β → Prog Row Key Event Input Error α)

variable {Row Key Event Input Error α β γ : Type}

namespace Prog

/-- The program continued: with `ok` where it succeeds, with `failed` where it throws. -/
def ending (ok : α → Prog Row Key Event Input Error β)
    (failed : Error → Prog Row Key Event Input Error β) :
    Prog Row Key Event Input Error α → Prog Row Key Event Input Error β
  | .pure value => ok value
  | .throw error => failed error
  | .input next => .input fun x => (next x).ending ok failed
  | .emit event next => .emit event (next.ending ok failed)
  | .commit next => .commit fun answer => (next answer).ending ok failed
  | .rollback next => .rollback (next.ending ok failed)
  | .statement exec next => .statement exec fun answer => (next answer).ending ok failed

def bind (p : Prog Row Key Event Input Error α) (f : α → Prog Row Key Event Input Error β) :
    Prog Row Key Event Input Error β :=
  p.ending f .throw

/-- `try … catch`. -/
def catching (p : Prog Row Key Event Input Error α)
    (handler : Error → Prog Row Key Event Input Error α) : Prog Row Key Event Input Error α :=
  p.ending .pure handler

instance : Monad (Prog Row Key Event Input Error) where
  pure := .pure
  bind := bind

@[simp] theorem pure_eq (value : α) :
    (Pure.pure value : Prog Row Key Event Input Error α) = .pure value := rfl

@[simp] theorem bind_eq (p : Prog Row Key Event Input Error α)
    (f : α → Prog Row Key Event Input Error β) : p >>= f = p.bind f := rfl

@[simp] theorem pure_bind (value : α) (f : α → Prog Row Key Event Input Error β) :
    (Prog.pure value).bind f = f value := rfl

@[simp] theorem throw_bind (error : Error) (f : α → Prog Row Key Event Input Error β) :
    (Prog.throw error).bind f = .throw error := rfl

def ofExcept : Except Error α → Prog Row Key Event Input Error α
  | .ok value => .pure value
  | .error error => .throw error

/-- One statement; its failure is the program's. -/
def query (exec : Statement Row Key Error β) : Prog Row Key Event Input Error β :=
  .statement exec ofExcept

/-- Opens a transaction around the program: its end commits, its failure rolls back. -/
def transaction (p : Prog Row Key Event Input Error α) : Prog Row Key Event Input Error α :=
  p.ending (fun value => .commit fun answer => ofExcept (answer.map fun _ => value))
    fun error => .rollback (.throw error)

/-- Refuses with `error` unless the test holds. -/
def require (test : Bool) (error : Error) : Prog Row Key Event Input Error Unit :=
  if test then .pure () else .throw error

/-- The value of an option, or a refusal. -/
def getOrThrow (value : Option α) (error : Error) : Prog Row Key Event Input Error α :=
  match value with
  | some found => .pure found
  | none => .throw error

/-- A lookup whose miss is refused. -/
def found (exec : Statement Row Key Error (Option β)) (error : Error) :
    Prog Row Key Event Input Error β := do
  let row ← query exec
  getOrThrow row error

/-- `for … of`. -/
def forEach : List β → (β → Prog Row Key Event Input Error Unit) → Prog Row Key Event Input Error Unit
  | [], _ => .pure ()
  | item :: rest, body => (body item).bind fun _ => forEach rest body

/-- What a body answers for every item, one after the other. -/
def collect : List β → (β → Prog Row Key Event Input Error γ) → Prog Row Key Event Input Error (List γ)
  | [], _ => .pure []
  | item :: rest, body =>
      (body item).bind fun first => (collect rest body).bind fun more => .pure (first :: more)

/-- No statement is left, whatever the answers will be. -/
def Over : Prog Row Key Event Input Error α → Prop
  | .pure _ | .throw _ => True
  | .input next => ∀ value, (next value).Over
  | .emit _ next | .rollback next => next.Over
  | .commit next => ∀ answer, (next answer).Over
  | .statement _ _ => False

/-- The next step commits. -/
def commits : Prog Row Key Event Input Error α → Bool
  | .commit _ => true
  | _ => false

theorem of_commits {p : Prog Row Key Event Input Error α} (commits : p.commits) :
    ∃ next, p = .commit next := by
  cases p with
  | commit next => exact ⟨next, rfl⟩
  | _ => contradiction

/-- The program has come to its end and succeeded. -/
def succeeded : Prog Row Key Event Input Error α → Bool
  | .pure _ => true
  | _ => false

end Prog

end Kurul.Store
