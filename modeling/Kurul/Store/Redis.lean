import Mathlib

/-! Counters with an expiry in a Redis store, and the commands that scripts run on them. Times are in
milliseconds, expiries are given in seconds. -/
namespace Kurul.Redis

structure Entry where
  value : Nat
  expiresAt : Option Nat
deriving DecidableEq

abbrev Store (Key : Type) := Key → Option Entry

/-- From the instant of its expiry on, a key is absent. -/
def alive (now : Nat) (entry : Option Entry) : Option Entry := entry.filter fun entry => entry.expiresAt.all (now < ·)

section Alive

variable {now later value expiresAt : Nat} {entry : Option Entry}

theorem alive_open (still : now < expiresAt) : alive now (some ⟨value, some expiresAt⟩) = some ⟨value, some expiresAt⟩ :=
  Option.filter_some_pos (decide_eq_true still)

theorem alive_over (over_ : ¬now < expiresAt) : alive now (some ⟨value, some expiresAt⟩) = none :=
  Option.filter_some_neg (by simpa using over_)

theorem alive_lasting : alive now (some ⟨value, none⟩) = some ⟨value, none⟩ := rfl

theorem alive_later (order : now ≤ later) : alive later (alive now entry) = alive later entry := by
  cases entry with
  | none => rfl
  | some entry =>
      obtain ⟨value, expiry⟩ := entry
      cases expiry with
      | none => rfl
      | some expiresAt =>
          by_cases still : now < expiresAt
          · rw [alive_open still]
          · rw [alive_over still, alive_over (by omega)]
            rfl

end Alive

variable {Key : Type} [DecidableEq Key]

def incrBy (now : Nat) (key : Key) (amount : Nat) (store : Store Key) : Nat × Store Key :=
  let entry := match alive now (store key) with
    | some entry => { entry with value := entry.value + amount }
    | none => ⟨amount, none⟩
  (entry.value, Function.update store key (some entry))

/-- The seconds a key has left, rounded to the nearest one. -/
def ttl (now : Nat) (key : Key) (store : Store Key) : Int :=
  match alive now (store key) with
  | none => -2
  | some entry =>
      match entry.expiresAt with
      | none => -1
      | some expiresAt => ((expiresAt - now + 500) / 1000 : Nat)

def expire (now : Nat) (key : Key) (seconds : Nat) (store : Store Key) : Store Key :=
  Function.update store key ((alive now (store key)).map fun entry =>
    { entry with expiresAt := some (now + seconds * 1000) })

/-- A counter of one window: it is raised first, and opens its window where it has none. Gives the new
count and the seconds left. -/
def countWindow (now : Nat) (key : Key) (amount seconds : Nat) (store : Store Key) : (Nat × Int) × Store Key :=
  let (count, store) := incrBy now key amount store
  let left := ttl now key store
  if left < 0 then ((count, seconds), expire now key seconds store) else ((count, left), store)

variable {now value expiresAt amount seconds : Nat} {key other : Key} {store : Store Key}

theorem countWindow_frame (apart : other ≠ key) : (countWindow now key amount seconds store).2 other = store other := by
  have raised : (incrBy now key amount store).2 other = store other := Function.update_of_ne apart _ _
  unfold countWindow
  dsimp only
  split
  · exact (Function.update_of_ne apart _ _).trans raised
  · exact raised

theorem countWindow_open (found : alive now (store key) = some ⟨value, some expiresAt⟩) (still : now < expiresAt) :
    countWindow now key amount seconds store =
      ((value + amount, (((expiresAt - now + 500) / 1000 : Nat) : Int)),
        Function.update store key (some ⟨value + amount, some expiresAt⟩)) := by
  have raised : incrBy now key amount store =
      (value + amount, Function.update store key (some ⟨value + amount, some expiresAt⟩)) := by
    rw [incrBy, found]
  have left : ttl now key (Function.update store key (some ⟨value + amount, some expiresAt⟩)) =
      ((expiresAt - now + 500) / 1000 : Nat) := by
    rw [ttl, Function.update_self, alive_open still]
  rw [countWindow, raised]
  dsimp only
  rw [left, if_neg (by omega)]

theorem countWindow_fresh (absent : alive now (store key) = none) :
    countWindow now key amount seconds store =
      ((amount, (seconds : Int)), Function.update store key (some ⟨amount, some (now + seconds * 1000)⟩)) := by
  have raised : incrBy now key amount store = (amount, Function.update store key (some ⟨amount, none⟩)) := by
    rw [incrBy, absent]
  have left : ttl now key (Function.update store key (some ⟨amount, none⟩)) = -1 := by
    rw [ttl, Function.update_self, alive_lasting]
  rw [countWindow, raised]
  dsimp only
  rw [left, if_pos (by decide), expire, Function.update_self, alive_lasting, Function.update_idem]
  rfl

end Kurul.Redis
