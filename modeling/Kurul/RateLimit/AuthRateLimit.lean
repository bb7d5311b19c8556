import Kurul.Store.FixedWindow

/-! The auth rate limiter: a counter for each client and path in Redis, and one in this process for the
time that Redis does not answer. -/
namespace Kurul.AuthRateLimit

open FixedWindow (Window)

def AUTH_RATE_LIMIT_KEY_PREFIX : String := "kurul:auth-rate-limit:"

def FALLBACK_MAX_ENTRIES : Nat := 10000

/-- A window in seconds and the requests it lets through. -/
structure Rule where
  window : Nat
  max : Nat

structure Verdict where
  allowed : Bool
  retryAfter : Option Nat
deriving DecidableEq

/-- One round trip. The flag of the answer is one where the request is let through. -/
def CONSUME_SCRIPT (now : Nat) (key : String) (window max : Nat) (store : Redis.Store String) :
    (Nat × Int) × Redis.Store String :=
  let counted := Redis.countWindow now key 1 window store
  (if counted.1.1 > max then (0, counted.1.2) else (1, -1), counted.2)

def redisKey (raw : String) : String := AUTH_RATE_LIMIT_KEY_PREFIX ++ raw

/-- `consume` while Redis answers. -/
def consume (now : Nat) (raw : String) (rule : Rule) (store : Redis.Store String) : Verdict × Redis.Store String :=
  let result := CONSUME_SCRIPT now (redisKey raw) rule.window rule.max store
  (if result.1.1 = 1 then ⟨true, none⟩ else ⟨false, some (FixedWindow.reported result.1.2 rule.window)⟩, result.2)

/-- `consume` while it does not. -/
def consumeInMemory (now : Nat) (fallbackKey : String) (rule : Rule) (fallbackCounters : List (String × Window)) :
    Verdict × List (String × Window) :=
  let counted := FixedWindow.charge FALLBACK_MAX_ENTRIES now fallbackKey 1 (rule.window * 1000) fallbackCounters
  (if counted.1.total > rule.max then
      ⟨false, some (FixedWindow.waiting now rule.window (fallbackCounters.lookup fallbackKey))⟩
    else ⟨true, none⟩, counted.2)

variable {now : Nat} {raw : String} {rule : Rule} {store : Redis.Store String} {fallbackCounters : List (String × Window)}
  {window : Option Window} {raised : Window}

theorem consume_eq (same : FixedWindow.Matches now window (store (redisKey raw)))
    (raised_ : FixedWindow.charged now 1 (rule.window * 1000) window = raised) :
    consume now raw rule store =
      (if raised.total > rule.max then
          ⟨false, some (FixedWindow.reported (((raised.expiresAt - now + 500) / 1000 : Nat) : Int) rule.window)⟩
        else ⟨true, none⟩,
      Function.update store (redisKey raw) (some ⟨raised.total, some raised.expiresAt⟩)) := by
  rw [consume, CONSUME_SCRIPT, FixedWindow.countWindow_spec same raised_]
  by_cases beyond : raised.total > rule.max
  · simp [beyond]
  · simp [beyond]

theorem consumeInMemory_eq
    (raised_ : FixedWindow.charged now 1 (rule.window * 1000) (fallbackCounters.lookup (redisKey raw)) = raised) :
    (consumeInMemory now (redisKey raw) rule fallbackCounters).1 =
      if raised.total > rule.max then
        ⟨false, some (FixedWindow.waiting now rule.window (fallbackCounters.lookup (redisKey raw)))⟩
      else ⟨true, none⟩ := by
  rw [consumeInMemory, FixedWindow.charge_fst, raised_]

end Kurul.AuthRateLimit
