import Kurul.Store.InsertionMap
import Kurul.Store.Redis

/-! Counters over fixed windows, kept in a bounded map or in a Redis store, and what the two have in
common. -/
namespace Kurul.FixedWindow

open InsertionMap (Distinct delete set lookup_set lookup_delete)

/-- A running total and the end of its window, in milliseconds. -/
structure Window where
  total : Nat
  expiresAt : Nat
deriving DecidableEq

/-- The window as long as it is open. -/
def live (now : Nat) (window : Option Window) : Option Window := window.filter fun window => now < window.expiresAt

/-- The window that an amount is counted in, and its total. -/
def charged (now amount duration : Nat) (before : Option Window) : Window :=
  match live now before with
  | some window => { window with total := window.total + amount }
  | none => ⟨amount, now + duration⟩

section Live

variable {now later amount duration : Nat} {window : Window} {before : Option Window}

theorem live_open (still : now < window.expiresAt) : live now (some window) = some window :=
  Option.filter_some_pos (decide_eq_true still)

theorem live_over (over_ : ¬now < window.expiresAt) : live now (some window) = none :=
  Option.filter_some_neg (by simpa using over_)

theorem live_some (found : live now before = some window) : before = some window ∧ now < window.expiresAt := by
  obtain ⟨same, still⟩ := Option.filter_eq_some_iff.mp found
  exact ⟨same, of_decide_eq_true still⟩

theorem live_later (order : now ≤ later) : live later (live now before) = live later before := by
  cases before with
  | none => rfl
  | some window =>
      by_cases still : now < window.expiresAt
      · rw [live_open still]
      · rw [live_over still, live_over (by omega)]
        rfl

theorem charged_open (found : live now before = some window) :
    charged now amount duration before = { window with total := window.total + amount } := by
  rw [charged, found]

theorem charged_fresh (none_ : live now before = none) : charged now amount duration before = ⟨amount, now + duration⟩ := by
  rw [charged, none_]

end Live

section Bounded

variable {K : Type} [DecidableEq K]

/-- The first entry whose window is over, or else the oldest. -/
def victim (now : Nat) (entries : List (K × Window)) : Option K :=
  ((entries.find? fun entry => entry.2.expiresAt ≤ now).or entries.head?).map Prod.fst

def evictOne (now : Nat) (entries : List (K × Window)) : List (K × Window) :=
  match victim now entries with
  | some key => delete entries key
  | none => entries

/-- The total is raised in place while its window is open; a fresh window goes to the end of the map, and
a new key may cost another its place. -/
def charge (cap now : Nat) (key : K) (amount duration : Nat) (entries : List (K × Window)) :
    Window × List (K × Window) :=
  match entries.lookup key with
  | some window =>
      if now < window.expiresAt then
        let raised := { window with total := window.total + amount }
        (raised, set entries key raised)
      else (⟨amount, now + duration⟩, set (delete entries key) key ⟨amount, now + duration⟩)
  | none =>
      let entries := if cap ≤ entries.length then evictOne now entries else entries
      (⟨amount, now + duration⟩, set entries key ⟨amount, now + duration⟩)

/-- The key that a charge costs its place. -/
def evicted (cap now : Nat) (key : K) (entries : List (K × Window)) : Option K :=
  if entries.lookup key = none ∧ cap ≤ entries.length then victim now entries else none

variable {cap now amount duration : Nat} {key other : K} {entries : List (K × Window)} {window : Window}

theorem charge_fst : (charge cap now key amount duration entries).1 = charged now amount duration (entries.lookup key) := by
  unfold charge
  cases entries.lookup key with
  | none => rfl
  | some window =>
      by_cases still : now < window.expiresAt
      · rw [charged_open (live_open still)]
        simp [still]
      · rw [charged_fresh (live_over still)]
        simp [still]

theorem lookup_evictOne : (evictOne now entries).lookup other =
    if victim now entries = some other then none else entries.lookup other := by
  unfold evictOne
  cases victim now entries with
  | none => simp
  | some key =>
      simp only [Option.some.injEq, eq_comm (a := key)]
      exact lookup_delete

/-- A charge leaves the charged window under its key, and takes away nothing but the evicted key. -/
theorem lookup_charge : (charge cap now key amount duration entries).2.lookup other =
    if other = key then some (charged now amount duration (entries.lookup key))
    else if evicted cap now key entries = some other then none else entries.lookup other := by
  have first : (charge cap now key amount duration entries).1 = charged now amount duration (entries.lookup key) :=
    charge_fst
  rw [← first]
  unfold charge evicted
  cases found : entries.lookup key with
  | some window =>
      by_cases still : now < window.expiresAt
      · simp [still, lookup_set]
      · simp only [still, if_false, lookup_set, lookup_delete]
        by_cases same : other = key <;> simp [same]
  | none =>
      by_cases full : cap ≤ entries.length
      · simp [full, lookup_set, lookup_evictOne]
      · simp [full, lookup_set]

omit [DecidableEq K] in
theorem victim_mem (gone : victim now entries = some key) : key ∈ entries.map Prod.fst := by
  obtain ⟨entry, chosen, rfl⟩ := Option.map_eq_some_iff.mp gone
  rcases Option.or_eq_some_iff.mp chosen with found | ⟨_, first⟩
  · exact List.mem_map.mpr ⟨entry, List.mem_of_find?_eq_some found, rfl⟩
  · exact List.mem_map.mpr ⟨entry, List.mem_of_head? first, rfl⟩

/-- An open window is given up only where every window is open. -/
theorem victim_open (distinct : Distinct entries) (gone : victim now entries = some key)
    (found : entries.lookup key = some window) (still : now < window.expiresAt) :
    ∀ entry ∈ entries, now < entry.2.expiresAt := by
  obtain ⟨entry, chosen, rfl⟩ := Option.map_eq_some_iff.mp gone
  rcases Option.or_eq_some_iff.mp chosen with ended | ⟨none_, _⟩
  · have listed : (entry.1, entry.2) ∈ entries := List.mem_of_find?_eq_some ended
    have expired := List.find?_some ended
    rw [distinct.lookup_of_mem listed] at found
    cases found
    simp only [decide_eq_true_eq] at expired
    omega
  · intro entry' listed
    have all := List.find?_eq_none.mp none_ entry' listed
    simpa using all

theorem distinct_charge (distinct : Distinct entries) : Distinct (charge cap now key amount duration entries).2 := by
  unfold charge
  cases entries.lookup key with
  | some window =>
      dsimp only
      split
      · exact distinct.set
      · exact distinct.delete.set
  | none =>
      dsimp only
      apply Distinct.set
      split
      · unfold evictOne
        split
        · exact distinct.delete
        · exact distinct
      · exact distinct

theorem length_evictOne (some_ : entries ≠ []) : (evictOne now entries).length < entries.length := by
  unfold evictOne
  cases gone : victim now entries with
  | some key => exact InsertionMap.length_delete_lt (victim_mem gone)
  | none =>
      cases entries with
      | nil => exact absurd rfl some_
      | cons entry rest => simp [victim] at gone

theorem length_charge (room : 0 < cap) (bounded : entries.length ≤ cap) :
    (charge cap now key amount duration entries).2.length ≤ cap := by
  unfold charge
  cases found : entries.lookup key with
  | some window =>
      have present : (entries.lookup key).isSome := by simp [found]
      dsimp only
      split
      · rw [InsertionMap.length_set_present present]
        exact bounded
      · have listed : key ∈ entries.map Prod.fst := List.mem_map.mpr ⟨_, InsertionMap.mem_keys_of_lookup found, rfl⟩
        have fewer := InsertionMap.length_delete_lt listed
        rw [InsertionMap.length_set_absent (by rw [lookup_delete, if_pos rfl])]
        omega
  | none =>
      dsimp only
      split
      · rename_i full
        have some_ : entries ≠ [] := List.ne_nil_of_length_pos (by omega)
        have fewer : (evictOne now entries).length < entries.length := length_evictOne some_
        rw [InsertionMap.length_set_absent]
        · omega
        · rw [lookup_evictOne, found]
          split <;> rfl
      · rw [InsertionMap.length_set_absent found]
        omega

end Bounded

section Shared

variable {K : Type} [DecidableEq K] {now later amount seconds : Nat} {key other : K} {store : Redis.Store K}
  {window : Option Window} {entry : Option Redis.Entry}

/-- A window and a Redis counter that count the same. -/
def Matches (now : Nat) (window : Option Window) (entry : Option Redis.Entry) : Prop :=
  Redis.alive now entry = (live now window).map fun window => ⟨window.total, some window.expiresAt⟩

theorem Matches.mono (same : Matches now window entry) (order : now ≤ later) : Matches later window entry := by
  unfold Matches at *
  rw [← Redis.alive_later order, same, ← live_later order]
  cases live now window with
  | none => rfl
  | some window =>
      rw [Option.map_some]
      by_cases still : later < window.expiresAt
      · rw [Redis.alive_open still, live_open still]
        rfl
      · rw [Redis.alive_over still, live_over still]
        rfl

theorem matches_some {window : Window} : Matches now (some window) (some ⟨window.total, some window.expiresAt⟩) := by
  unfold Matches
  by_cases still : now < window.expiresAt
  · rw [Redis.alive_open still, live_open still]
    rfl
  · rw [Redis.alive_over still, live_over still]
    rfl

/-- Counting in the store is counting in the window; the seconds left are those of the window, rounded. -/
theorem countWindow_spec {raised : Window} (same : Matches now window (store key))
    (raised_ : charged now amount (seconds * 1000) window = raised) :
    Redis.countWindow now key amount seconds store =
      ((raised.total, (((raised.expiresAt - now + 500) / 1000 : Nat) : Int)),
        Function.update store key (some ⟨raised.total, some raised.expiresAt⟩)) := by
  subst raised_
  cases found : live now window with
  | some before =>
      rw [Matches, found, Option.map_some] at same
      rw [charged_open found, Redis.countWindow_open same (live_some found).2]
  | none =>
      rw [Matches, found, Option.map_none] at same
      have whole : (now + seconds * 1000 - now + 500) / 1000 = seconds := by omega
      rw [charged_fresh found, Redis.countWindow_fresh same]
      dsimp only
      rw [whole]

end Shared

section Waiting

variable {now amount seconds limit : Nat} {before : Option Window}

/-- The whole seconds to wait on a refusal: none is reported, or at least one and no more than the window
still runs. -/
def Fair (now : Nat) (window : Window) (allowed : Bool) (retryAfter : Nat) : Prop :=
  allowed = false → 1 ≤ retryAfter ∧ retryAfter ≤ (window.expiresAt - now + 999) / 1000

instance (now : Nat) (window : Window) (allowed : Bool) (retryAfter : Nat) :
    Decidable (Fair now window allowed retryAfter) :=
  inferInstanceAs (Decidable (_ → _))

/-- Seconds from a rounded count of them: none of them left is answered by the whole window. -/
def reported (left : Int) (seconds : Nat) : Nat := if left > 0 then left.toNat else seconds

/-- Seconds of a window that is open, rounded up, and the whole of one that opens. -/
def waiting (now seconds : Nat) (before : Option Window) : Nat :=
  match live now before with
  | some window => max 1 ((window.expiresAt - now + 999) / 1000)
  | none => seconds

/-- A charge beyond the limit comes half a second before the end of its window or earlier, unless it names a
window of one second, and opens no window of none. -/
def Timely (now amount seconds limit : Nat) (before : Option Window) : Prop :=
  match live now before with
  | some window => limit < window.total + amount → 500 ≤ window.expiresAt - now ∨ seconds = 1
  | none => limit < amount → 0 < seconds

instance : Decidable (Timely now amount seconds limit before) :=
  decidable_of_iff
    ((∀ window ∈ live now before, limit < window.total + amount → 500 ≤ window.expiresAt - now ∨ seconds = 1) ∧
      (live now before = none → limit < amount → 0 < seconds))
    (by unfold Timely; cases live now before <;> simp)

theorem both_fair_iff {raised : Window} {allowed : Bool} (raised_ : charged now amount (seconds * 1000) before = raised)
    (allowed_ : allowed = false ↔ limit < raised.total) :
    (Fair now raised allowed (reported (((raised.expiresAt - now + 500) / 1000 : Nat) : Int) seconds) ∧
      Fair now raised allowed (waiting now seconds before)) ↔ Timely now amount seconds limit before := by
  unfold Fair Timely waiting reported
  rw [allowed_]
  subst raised_
  cases found : live now before with
  | some window =>
      have still := (live_some found).2
      rw [charged_open found]
      dsimp only
      by_cases beyond : limit < window.total + amount
      · simp only [beyond, forall_const]
        split <;> omega
      · simp only [beyond, IsEmpty.forall_iff, and_self]
  | none =>
      rw [charged_fresh found]
      dsimp only
      by_cases beyond : limit < amount
      · simp only [beyond, forall_const]
        split <;> omega
      · simp only [beyond, IsEmpty.forall_iff, and_self]

end Waiting

end Kurul.FixedWindow
