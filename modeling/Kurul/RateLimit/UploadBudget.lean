import Kurul.Store.FixedWindow

/-! The upload byte budget: the bytes of each client, counted in Redis, and in this process for every charge
that Redis does not answer. -/
namespace Kurul.UploadBudget

open FixedWindow (Window)

def UPLOAD_BUDGET_FALLBACK_MAX_ENTRIES : Nat := 10000

structure ByteBudgetVerdict where
  allowed : Bool
  retryAfterSeconds : Nat
deriving DecidableEq

/-- One round trip. The flag of the answer is one where the charge is within the limit. -/
def CHARGE_SCRIPT (now : Nat) (key : String) (bytes windowSeconds limit : Nat) (store : Redis.Store String) :
    (Nat × Int) × Redis.Store String :=
  let counted := Redis.countWindow now key bytes windowSeconds store
  (if counted.1.1 > limit then (0, counted.1.2) else (1, counted.1.2), counted.2)

/-- `InMemoryByteBudget.chargeSync` -/
def chargeSync (now : Nat) (key : String) (bytes limit windowSeconds : Nat) (windows : List (String × Window)) :
    ByteBudgetVerdict × List (String × Window) :=
  let counted := FixedWindow.charge UPLOAD_BUDGET_FALLBACK_MAX_ENTRIES now key bytes (windowSeconds * 1000) windows
  (⟨decide (counted.1.total ≤ limit), FixedWindow.waiting now windowSeconds (windows.lookup key)⟩, counted.2)

/-- What `RedisByteBudget.charge` makes of an answer of the script. -/
def verdictOf (windowSeconds : Nat) (answer : Nat × Int) : ByteBudgetVerdict :=
  ⟨decide (answer.1 = 1), FixedWindow.reported answer.2 windowSeconds⟩

/-- What comes back from Redis: the script's answer, or an error, with the script run or not. -/
inductive Reply where
  | answered
  | failed (ran : Bool)
deriving DecidableEq

/-- A `RedisByteBudget` with its fallback, and the store it asks. -/
structure Budget where
  store : Redis.Store String
  windows : List (String × Window)
  degraded : Bool

/-- `RedisByteBudget.charge` -/
def charge (now : Nat) (key : String) (bytes limit windowSeconds : Nat) (reply : Reply) (budget : Budget) :
    ByteBudgetVerdict × Budget :=
  let script := CHARGE_SCRIPT now key bytes windowSeconds limit budget.store
  match reply with
  | .answered => (verdictOf windowSeconds script.1, { budget with store := script.2, degraded := false })
  | .failed ran =>
      let fallback := chargeSync now key bytes limit windowSeconds budget.windows
      (fallback.1, { store := if ran then script.2 else budget.store, windows := fallback.2, degraded := true })

section Specs

variable {now bytes limit windowSeconds : Nat} {key : String} {store : Redis.Store String}
  {windows : List (String × Window)}
  {window : Option Window} {raised : Window}

theorem script_eq (same : FixedWindow.Matches now window (store key))
    (raised_ : FixedWindow.charged now bytes (windowSeconds * 1000) window = raised) :
    verdictOf windowSeconds (CHARGE_SCRIPT now key bytes windowSeconds limit store).1 =
      ⟨decide (raised.total ≤ limit),
        FixedWindow.reported (((raised.expiresAt - now + 500) / 1000 : Nat) : Int) windowSeconds⟩ ∧
    (CHARGE_SCRIPT now key bytes windowSeconds limit store).2 =
      Function.update store key (some ⟨raised.total, some raised.expiresAt⟩) := by
  rw [CHARGE_SCRIPT, FixedWindow.countWindow_spec same raised_]
  refine ⟨?_, rfl⟩
  by_cases beyond : raised.total > limit
  · have above : ¬raised.total ≤ limit := by omega
    simp [verdictOf, beyond, above]
  · have within : raised.total ≤ limit := by omega
    simp [verdictOf, beyond, within]

theorem chargeSync_fst (raised_ : FixedWindow.charged now bytes (windowSeconds * 1000) (windows.lookup key) = raised) :
    (chargeSync now key bytes limit windowSeconds windows).1 =
      ⟨decide (raised.total ≤ limit), FixedWindow.waiting now windowSeconds (windows.lookup key)⟩ := by
  rw [chargeSync, FixedWindow.charge_fst, raised_]

end Specs

end Kurul.UploadBudget
