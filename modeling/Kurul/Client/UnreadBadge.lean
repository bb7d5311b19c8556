import Kurul.Machine

/-! The unread badge: a number that is read again on every signal, and that the user's own
actions also correct when their responses come back. -/
namespace Kurul.Client

structure BellRow (κ : Type) where
  id : κ
  readAt : Bool := false
  deriving DecidableEq

inductive ReadAction (κ : Type) where
  | openNotification (id : κ)
  | markAllRead
  deriving DecidableEq

/-- An action on its way, and whether the server did it once it has answered. -/
structure ReadCall (κ : Type) where
  action : ReadAction κ
  answer : Option Bool := none
  deriving DecidableEq

structure UnreadBadge (κ : Type) where
  /-- The user's notifications in the workspace. -/
  rows : List (BellRow κ)
  /-- Signals that are not delivered yet. -/
  signals : Nat := 0
  count : Nat := 0
  /-- The count read on its way, with its answer once it is served; one that is replaced is
  aborted. -/
  read : Option (Option Nat) := none
  calls : List (ReadCall κ) := []
  deriving DecidableEq

inductive BadgeMove (κ : Type) where
  | stored (ids : List κ)
  | openNotification (id : κ) (readAt : Bool)
  | markAllRead
  | serve (index : Nat)
  | returned (index : Nat)
  | lost (index : Nat)
  | unreadChanged
  | reload
  | serveRead
  | loaded
  deriving DecidableEq

namespace UnreadBadge

variable {κ : Type} [DecidableEq κ]

/-- `NotificationService.unreadCount`. -/
def unreadCount (rows : List (BellRow κ)) : Nat := rows.countP (!·.readAt)

/-- `NotificationService.markRead`: whether the notification is there, and the rows after it. -/
def markRead (rows : List (BellRow κ)) (id : κ) : Bool × List (BellRow κ) :=
  (rows.any (·.id = id), rows.map fun row => if row.id = id then { row with readAt := true } else row)

def markAll (rows : List (BellRow κ)) : List (BellRow κ) := rows.map fun row => { row with readAt := true }

/-- What the action does on the server, and whether it succeeds. -/
def perform (rows : List (BellRow κ)) : ReadAction κ → Bool × List (BellRow κ)
  | .openNotification id => markRead rows id
  | .markAllRead => (true, markAll rows)

/-- The local correction: `setUnreadCount`. -/
def correct (count : Nat) : ReadAction κ → Nat
  | .openNotification _ => count - 1
  | .markAllRead => 0

/-- The rows after a commit, which is announced where the count moved. -/
def commit (s : UnreadBadge κ) (rows : List (BellRow κ)) : UnreadBadge κ :=
  { s with rows, signals := s.signals + if unreadCount rows = unreadCount s.rows then 0 else 1 }

def mount (rows : List (BellRow κ)) : UnreadBadge κ := { rows, read := some none }

def step (s : UnreadBadge κ) : BadgeMove κ → Option (UnreadBadge κ)
  | .stored ids => if ids.Nodup ∧ ∀ id ∈ ids, ∀ row ∈ s.rows, row.id ≠ id then
      some (s.commit (s.rows ++ ids.map ({ id := · }))) else none
  -- A row that is read already is opened without a request.
  | .openNotification id readAt =>
      some (if readAt then s else { s with calls := s.calls ++ [{ action := .openNotification id }] })
  | .markAllRead => some { s with calls := s.calls ++ [{ action := .markAllRead }] }
  | .serve index => (s.calls[index]?).bind fun call => if call.answer.isNone then
      let (done, rows) := perform s.rows call.action
      some { s.commit rows with calls := s.calls.set index { call with answer := some done } } else none
  | .returned index => (s.calls[index]?).bind fun call => call.answer.map fun done =>
      { s with
        count := if done then correct s.count call.action else s.count
        calls := s.calls.eraseIdx index }
  | .lost index => (s.calls[index]?).map fun _ => { s with calls := s.calls.eraseIdx index }
  | .unreadChanged => if 0 < s.signals then some { s with signals := s.signals - 1, read := some none } else none
  -- A room that is dropped, the poll that stands in for it, and a hidden tab that comes back.
  | .reload => some { s with read := some none }
  | .serveRead => s.read.bind fun answer =>
      if answer.isNone then some { s with read := some (some (unreadCount s.rows)) } else none
  | .loaded => s.read.bind fun answer => answer.map fun count => { s with count, read := none }

/-- Every request has completed, and every signal has been handled. -/
structure Quiet (s : UnreadBadge κ) : Prop where
  signals : s.signals = 0
  read : s.read = none
  calls : s.calls = []

/-- Where no count read is to come, the badge is right. -/
def Settled (s : UnreadBadge κ) : Prop := s.signals = 0 → s.read = none → s.count = unreadCount s.rows

/-- A local correction comes before a count read, or where nothing is unread. -/
def Corrects (s : UnreadBadge κ) : BadgeMove κ → Prop
  | .returned index => ∀ call ∈ s.calls[index]?, call.answer = some true →
      0 < s.signals ∨ s.read.isSome ∨ unreadCount s.rows = 0
  | _ => True

/-- An answer that no signal is going to replace is the count as it is. -/
def Fresh (s : UnreadBadge κ) : Prop := s.signals = 0 → ∀ count, s.read = some (some count) → count = unreadCount s.rows

variable {s next : UnreadBadge κ} {move : BadgeMove κ}

omit [DecidableEq κ] in
theorem commit_quiet {rows : List (BellRow κ)} (quiet : (s.commit rows).signals = 0) :
    s.signals = 0 ∧ unreadCount rows = unreadCount s.rows := by
  simp only [commit] at quiet
  split at quiet
  · exact ⟨quiet, ‹_›⟩
  · cases quiet

omit [DecidableEq κ] in
/-- A correction leaves a right count right only at zero. -/
theorem correct_fixed {count unread : Nat} {action : ReadAction κ} (before : count = unread)
    (after : correct count action = unread) : unread = 0 := by
  cases action with
  | openNotification id =>
      change count - 1 = unread at after
      omega
  | markAllRead => exact after.symm

theorem Fresh.step (fresh : s.Fresh) (stepped : s.step move = some next) : next.Fresh := by
  cases move with
  | stored ids =>
      simp only [UnreadBadge.step] at stepped
      split at stepped
      · cases stepped
        intro quiet count answered
        obtain ⟨before, same⟩ := commit_quiet quiet
        exact (fresh before count answered).trans same.symm
      · cases stepped
  | openNotification id readAt =>
      cases stepped
      cases readAt <;> exact fresh
  | markAllRead =>
      cases stepped
      exact fresh
  | serve index =>
      obtain ⟨call, _, stepped⟩ := Option.bind_eq_some_iff.mp stepped
      split at stepped
      · cases stepped
        intro quiet count answered
        obtain ⟨before, same⟩ := commit_quiet quiet
        exact (fresh before count answered).trans same.symm
      · cases stepped
  | returned index =>
      obtain ⟨call, _, stepped⟩ := Option.bind_eq_some_iff.mp stepped
      obtain ⟨done, _, rfl⟩ := Option.map_eq_some_iff.mp stepped
      exact fresh
  | lost index =>
      obtain ⟨call, _, rfl⟩ := Option.map_eq_some_iff.mp stepped
      exact fresh
  | unreadChanged =>
      simp only [UnreadBadge.step] at stepped
      split at stepped
      · cases stepped
        simp [Fresh]
      · cases stepped
  | reload =>
      cases stepped
      simp [Fresh]
  | serveRead =>
      obtain ⟨answer, _, stepped⟩ := Option.bind_eq_some_iff.mp stepped
      split at stepped
      · cases stepped
        simp [Fresh]
      · cases stepped
  | loaded =>
      obtain ⟨answer, _, stepped⟩ := Option.bind_eq_some_iff.mp stepped
      obtain ⟨count, _, rfl⟩ := Option.map_eq_some_iff.mp stepped
      simp [Fresh]

/-- The badge stays right exactly where its corrections come before a count read. -/
theorem settled_step_iff (fresh : s.Fresh) (settled : s.Settled) (stepped : s.step move = some next) :
    next.Settled ↔ s.Corrects move := by
  cases move with
  | stored ids =>
      simp only [UnreadBadge.step] at stepped
      split at stepped
      · cases stepped
        refine iff_of_true ?_ trivial
        intro quiet none_
        obtain ⟨before, same⟩ := commit_quiet quiet
        exact (settled before none_).trans same.symm
      · cases stepped
  | openNotification id readAt =>
      cases stepped
      refine iff_of_true ?_ trivial
      cases readAt <;> exact settled
  | markAllRead =>
      cases stepped
      exact iff_of_true settled trivial
  | serve index =>
      obtain ⟨call, _, stepped⟩ := Option.bind_eq_some_iff.mp stepped
      split at stepped
      · cases stepped
        refine iff_of_true ?_ trivial
        intro quiet none_
        obtain ⟨before, same⟩ := commit_quiet quiet
        exact (settled before none_).trans same.symm
      · cases stepped
  | returned index =>
      obtain ⟨call, there, stepped⟩ := Option.bind_eq_some_iff.mp stepped
      obtain ⟨done, answered, rfl⟩ := Option.map_eq_some_iff.mp stepped
      cases done with
      | false =>
          refine iff_of_true settled ?_
          intro other same answered'
          obtain rfl := Option.some.inj (there.symm.trans same)
          cases answered.symm.trans answered'
      | true =>
          constructor
          · intro right other _ _
            by_contra none_
            simp only [not_or, Nat.not_lt, Nat.le_zero, Option.not_isSome_iff_eq_none] at none_
            obtain ⟨quiet, idle, unread⟩ := none_
            exact unread (correct_fixed (settled quiet idle) (right quiet idle))
          · intro corrects quiet idle
            rcases corrects call there answered with pending | reading | unread
            · exact absurd quiet pending.ne'
            · exact absurd idle (Option.isSome_iff_ne_none.mp reading)
            · have zero : s.count = 0 := (settled quiet idle).trans unread
              change correct s.count call.action = unreadCount s.rows
              rw [zero, unread]
              cases call.action <;> rfl
  | lost index =>
      obtain ⟨call, _, rfl⟩ := Option.map_eq_some_iff.mp stepped
      exact iff_of_true settled trivial
  | unreadChanged =>
      simp only [UnreadBadge.step] at stepped
      split at stepped
      · cases stepped
        exact iff_of_true (by simp [Settled]) trivial
      · cases stepped
  | reload =>
      cases stepped
      exact iff_of_true (by simp [Settled]) trivial
  | serveRead =>
      obtain ⟨answer, _, stepped⟩ := Option.bind_eq_some_iff.mp stepped
      split at stepped
      · cases stepped
        exact iff_of_true (by simp [Settled]) trivial
      · cases stepped
  | loaded =>
      obtain ⟨answer, reading, stepped⟩ := Option.bind_eq_some_iff.mp stepped
      obtain ⟨count, rfl, rfl⟩ := Option.map_eq_some_iff.mp stepped
      exact iff_of_true (fun quiet _ => fresh quiet count reading) trivial

/-- The runs in which the badge is right whenever no count read is to come. -/
theorem always_settled_iff (rows : List (BellRow κ)) (moves : List (BadgeMove κ)) (s : UnreadBadge κ)
    (ran : Machine.run step (mount rows) moves = some s) :
    Machine.Always step Settled (mount rows) moves ↔ Machine.Meets step Corrects (mount rows) moves := by
  apply Machine.always_iff_meets (I := Fresh)
  · exact fun _ _ _ fresh stepped => fresh.step stepped
  · exact fun _ _ _ fresh settled stepped => settled_step_iff fresh settled stepped
  · simp [Fresh, mount]
  · simp [Settled, mount]
  · exact ran

/-- Where every correction comes before a count read, the badge settles on the server's count. -/
theorem badge_settles (rows : List (BellRow κ)) (moves : List (BadgeMove κ)) (s : UnreadBadge κ)
    (ran : Machine.run step (mount rows) moves = some s) (corrects : Machine.Meets step Corrects (mount rows) moves)
    (quiet : s.Quiet) : s.count = unreadCount s.rows := by
  have always := (always_settled_iff rows moves s ran).mpr corrects
  exact (Machine.always_last always ran) quiet.signals quiet.read

/-- Two notifications; one is opened, and its response comes back after the refetch that its
signal started. -/
def overtaken : List (BadgeMove Nat) := [
  .serveRead, .loaded, .openNotification 0 false, .serve 0, .unreadChanged, .serveRead, .loaded, .returned 0]

/-- The badge says that nothing is unread. -/
theorem badge_stays_off :
    ¬ ∀ (rows : List (BellRow Nat)) (moves : List (BadgeMove Nat)) (s : UnreadBadge Nat),
      Machine.run step (mount rows) moves = some s → s.Quiet → s.count = unreadCount s.rows := by
  intro claim
  have ran : Machine.run step (mount [{ id := 0 }, { id := 1 }]) overtaken =
      some { rows := [{ id := 0, readAt := true }, { id := 1 }] } := by
    decide +kernel
  exact absurd (claim _ overtaken _ ran ⟨rfl, rfl, rfl⟩) (by decide)

instance (s : UnreadBadge κ) (move : BadgeMove κ) : Decidable (s.Corrects move) :=
  match move with
  | .returned index => inferInstanceAs (Decidable (∀ call ∈ s.calls[index]?, call.answer = some true →
      0 < s.signals ∨ s.read.isSome ∨ unreadCount s.rows = 0))
  | .stored _ | .openNotification .. | .markAllRead | .serve _ | .lost _ | .unreadChanged | .reload | .serveRead
  | .loaded => inferInstanceAs (Decidable True)

/-- The response comes back before the signal. -/
def inTurn : List (BadgeMove Nat) := [
  .serveRead, .loaded, .openNotification 0 false, .serve 0, .returned 0, .unreadChanged, .serveRead, .loaded]

theorem badge_settles_in_turn :
    ∃ s, Machine.run step (mount [{ id := 0 }, { id := 1 }]) inTurn = some s ∧ s.count = unreadCount s.rows := by
  have ran : Machine.run step (mount [{ id := 0 }, { id := 1 }]) inTurn =
      some { rows := [{ id := 0, readAt := true }, { id := 1 }], count := 1 } := by
    decide +kernel
  refine ⟨_, ran, badge_settles _ inTurn _ ran ?_ ⟨rfl, rfl, rfl⟩⟩
  exact Machine.meets_of_checks (fun s move => decide (s.Corrects move)) (fun _ _ => of_decide_eq_true)
    (by decide +kernel)

end UnreadBadge
end Kurul.Client
