import Kurul.Machine

/-! The board's room and its resyncs over time. Changes are numbered as they are committed,
and a drain knows how many there were when it started. -/
namespace Kurul.Client

def RESYNC_DEBOUNCE_MS : Nat := 400
def RESYNC_FRESH_WINDOW_MS : Nat := 3000

structure BoardSync where
  now : Nat
  loading : Bool := true
  /-- whether the server has the socket in the room, and whether the join's answer is on its way -/
  inRoom : Bool := false
  joining : Bool := false
  lastDrainStartedAt : Nat
  resyncTimer : Option Nat := none
  resyncRunning : Option Nat := none
  resyncQueued : Bool := false
  /-- the drain of the load effect, and those of other reloads -/
  load : Option Nat := some 0
  reloads : List Nat := []
  committed : Nat := 0
  /-- the changes committed while the client was outside the room -/
  outside : List Nat := []
  applied : List Nat := []
  deriving DecidableEq

inductive SyncMove where
  | tick (ms : Nat)
  | commit
  | join
  | joined
  | disconnect
  | fire
  | finishResync
  /-- the filters change or the user tries again, the latter with a skeleton -/
  | startLoad (skeleton : Bool)
  | reveal
  | finishLoad
  | reload
  | finishReload (drain : Nat)
  deriving DecidableEq

namespace BoardSync

variable (s : BoardSync)

/-- `requestResync`: dropped behind a recent drain, queued behind a running one. -/
def requestResync : BoardSync :=
  if s.now - s.lastDrainStartedAt < RESYNC_FRESH_WINDOW_MS then s
  else if s.resyncRunning.isSome then { s with resyncQueued := true }
  else { s with resyncTimer := some (s.now + RESYNC_DEBOUNCE_MS) }

def runResync : BoardSync :=
  { s with resyncRunning := some s.committed, resyncQueued := false, lastDrainStartedAt := s.now }

/-- The board is on screen. -/
def setLoaded : BoardSync := if s.loading then { s with loading := false, lastDrainStartedAt := s.now } else s

def step : SyncMove → Option BoardSync
  | .tick ms => some { s with now := s.now + ms }
  | .commit => some { s with
      committed := s.committed + 1
      outside := if s.inRoom then s.outside else s.committed :: s.outside }
  | .join => if s.loading || s.inRoom then none else some { s with inRoom := true, joining := true }
  | .joined => if s.joining then some { s with joining := false }.requestResync else none
  | .disconnect => some { s with inRoom := false, joining := false }
  | .fire =>
      if s.resyncTimer.any (· ≤ s.now) then some { s with resyncTimer := none }.runResync else none
  | .finishResync => s.resyncRunning.map fun drain =>
      let done := { s with applied := drain :: s.applied, resyncRunning := none }
      if s.resyncQueued then { done with resyncQueued := false }.requestResync else done
  | .startLoad skeleton =>
      let started := { s with load := some s.committed }
      some (if skeleton then { started with loading := true, inRoom := false, joining := false } else started)
  | .reveal => if s.load.isSome then some s.setLoaded else none
  | .finishLoad => s.load.map fun drain => { s.setLoaded with applied := drain :: s.applied, load := none }
  | .reload => some { s with reloads := s.committed :: s.reloads }
  | .finishReload drain =>
      if drain ∈ s.reloads then some { s with
        applied := drain :: s.applied
        reloads := s.reloads.erase drain }
      else none

/-- The board has just been mounted and its first load has started. -/
structure Mounted : Prop where
  room : s.inRoom = false ∧ s.joining = false
  resync : s.resyncTimer = none ∧ s.resyncRunning = none ∧ s.resyncQueued = false
  outside : s.outside = []

/-- In the room, with no timer armed and no request in flight. -/
structure Quiet : Prop where
  room : s.inRoom = true ∧ s.joining = false
  resync : s.resyncTimer = none ∧ s.resyncRunning = none
  reads : s.load = none ∧ s.reloads = []

/-- The drains that are applied or under way. -/
def drains : List Nat := s.applied ++ s.resyncRunning.toList ++ s.load.toList ++ s.reloads

/-- A drain that started after every change missed so far is applied or under way. -/
def Caught : Prop := ∀ change ∈ s.outside, ∃ drain ∈ s.drains, change < drain

/-- A resync is asked for behind the freshness window, or with nothing missed. -/
def AsksInTime : SyncMove → Prop
  | .joined => RESYNC_FRESH_WINDOW_MS ≤ s.now - s.lastDrainStartedAt ∨ s.Caught
  | .finishResync => s.resyncQueued = true → RESYNC_FRESH_WINDOW_MS ≤ s.now - s.lastDrainStartedAt ∨ s.Caught
  | _ => True

instance : Decidable s.Caught := inferInstanceAs (Decidable (∀ change ∈ s.outside, ∃ drain ∈ s.drains, change < drain))

instance : (move : SyncMove) → Decidable (s.AsksInTime move)
  | .joined => inferInstanceAs (Decidable (_ ∨ s.Caught))
  | .finishResync => inferInstanceAs (Decidable (_ → _ ∨ s.Caught))
  | .tick _ | .commit | .join | .disconnect | .fire | .startLoad _ | .reveal | .finishLoad | .reload
  | .finishReload _ => isTrue trivial

/-- What has been missed is caught, or a resync for it is still to come. -/
structure Pending : Prop where
  known : ∀ change ∈ s.outside, change < s.committed
  single : s.resyncTimer.isSome → s.resyncRunning = none
  queued : s.resyncQueued = true → s.resyncRunning.isSome
  coming : s.Caught ∨ s.inRoom = false ∨ s.joining = true ∨ s.resyncTimer.isSome ∨ s.resyncQueued = true

variable {s} {next : BoardSync} {move : SyncMove}

theorem Mounted.pending (mounted : s.Mounted) : s.Pending := by
  obtain ⟨⟨out, _⟩, ⟨timer, running, queued⟩, outside⟩ := mounted
  refine ⟨by simp [outside], by simp [timer], by simp [queued], .inr (.inl out)⟩

/-- A drain that starts now catches everything. -/
theorem caught_of_mem (known : ∀ change ∈ s.outside, change < s.committed) (now : s.committed ∈ s.drains) :
    s.Caught := fun change missed => ⟨s.committed, now, known change missed⟩

theorem Caught.mono {other : BoardSync} (caught : s.Caught) (outside : other.outside = s.outside)
    (drains : ∀ drain ∈ s.drains, drain ∈ other.drains) : other.Caught := by
  intro change missed
  obtain ⟨drain, under, after⟩ := caught change (outside ▸ missed)
  exact ⟨drain, drains drain under, after⟩

/-- Asked in time, a resync is to come for what is not caught. -/
theorem Pending.request (known : ∀ change ∈ s.outside, change < s.committed)
    (single : s.resyncTimer.isSome → s.resyncRunning = none)
    (queued : s.resyncQueued = true → s.resyncRunning.isSome)
    (inTime : RESYNC_FRESH_WINDOW_MS ≤ s.now - s.lastDrainStartedAt ∨ s.Caught) :
    s.requestResync.Pending := by
  unfold requestResync
  split
  · rename_i fresh
    refine ⟨known, single, queued, .inl ?_⟩
    rcases inTime with behind | caught
    · omega
    · exact caught
  · split
    · rename_i running
      exact ⟨known, single, fun _ => running, .inr (.inr (.inr (.inr rfl)))⟩
    · rename_i idle
      refine ⟨known, fun _ => by simpa using idle, queued, ?_⟩
      exact .inr (.inr (.inr (.inl rfl)))

theorem setLoaded_frame : s.setLoaded.outside = s.outside ∧ s.setLoaded.committed = s.committed ∧
    s.setLoaded.inRoom = s.inRoom ∧ s.setLoaded.joining = s.joining ∧
    s.setLoaded.resyncTimer = s.resyncTimer ∧ s.setLoaded.resyncRunning = s.resyncRunning ∧
    s.setLoaded.resyncQueued = s.resyncQueued ∧ s.setLoaded.applied = s.applied ∧
    s.setLoaded.load = s.load ∧ s.setLoaded.reloads = s.reloads := by
  unfold setLoaded
  split <;> exact ⟨rfl, rfl, rfl, rfl, rfl, rfl, rfl, rfl, rfl, rfl⟩

theorem Pending.step (pending : s.Pending) (inTime : s.AsksInTime move) (stepped : s.step move = some next) :
    next.Pending := by
  obtain ⟨known, single, queued, coming⟩ := pending
  cases move with
  | tick ms =>
      cases stepped
      exact ⟨known, single, queued, coming⟩
  | commit =>
      cases stepped
      refine ⟨?_, single, queued, ?_⟩
      · intro change missed
        dsimp only at missed ⊢
        split at missed
        · exact Nat.lt_succ_of_lt (known change missed)
        · rcases List.mem_cons.mp missed with rfl | before
          · exact Nat.lt_succ_self _
          · exact Nat.lt_succ_of_lt (known change before)
      · by_cases inside : s.inRoom
        · rcases coming with caught | more
          · exact .inl (caught.mono (by simp [inside]) fun _ under => under)
          · exact .inr more
        · exact .inr (.inl (by simpa using inside))
  | join =>
      simp only [BoardSync.step] at stepped
      split at stepped
      · cases stepped
      · cases stepped
        exact ⟨known, single, queued, .inr (.inr (.inl rfl))⟩
  | joined =>
      simp only [BoardSync.step] at stepped
      split at stepped
      · cases stepped
        exact Pending.request (s := { s with joining := false }) known single queued inTime
      · cases stepped
  | disconnect =>
      cases stepped
      exact ⟨known, single, queued, .inr (.inl rfl)⟩
  | fire =>
      simp only [BoardSync.step] at stepped
      split at stepped
      · cases stepped
        refine ⟨known, by simp [runResync], by simp [runResync], .inl (caught_of_mem known ?_)⟩
        simp [drains, runResync]
      · cases stepped
  | finishResync =>
      obtain ⟨drain, running, same⟩ := Option.map_eq_some_iff.mp stepped
      subst same
      have after : ∀ drain' ∈ s.drains, drain' ∈
          ({ s with applied := drain :: s.applied, resyncRunning := none } : BoardSync).drains := by
        intro drain' under
        simp only [drains, running, Option.toList_some, Option.toList_none, List.mem_append,
          List.mem_cons, List.not_mem_nil, or_false] at under ⊢
        grind
      dsimp only
      split
      · rename_i wanted
        apply Pending.request (s := { s with
          applied := drain :: s.applied, resyncRunning := none, resyncQueued := false }) known
          (fun _ => rfl) (by simp)
        rcases inTime wanted with behind | caught
        · exact .inl behind
        · exact .inr (caught.mono rfl after)
      · rename_i wanted
        refine ⟨known, fun _ => rfl, fun yes => absurd yes wanted, ?_⟩
        rcases coming with caught | more
        · exact .inl (caught.mono rfl after)
        · exact .inr more
  | startLoad skeleton =>
      cases stepped
      have caught : ({ s with load := some s.committed } : BoardSync).Caught :=
        caught_of_mem known (by simp [drains])
      cases skeleton with
      | false => exact ⟨known, single, queued, .inl caught⟩
      | true => exact ⟨known, single, queued, .inl (caught.mono rfl fun _ under => under)⟩
  | reveal =>
      simp only [BoardSync.step] at stepped
      split at stepped
      · cases stepped
        unfold setLoaded
        split <;> exact ⟨known, single, queued, coming⟩
      · cases stepped
  | finishLoad =>
      obtain ⟨drain, loading, same⟩ := Option.map_eq_some_iff.mp stepped
      subst same
      obtain ⟨outside, committed, room, joining, timer, running, wanted, applied, load, reloads⟩ :=
        setLoaded_frame (s := s)
      refine ⟨?_, ?_, ?_, ?_⟩
      · dsimp only
        rw [outside, committed]
        exact known
      · dsimp only
        rw [timer, running]
        exact single
      · dsimp only
        rw [wanted, running]
        exact queued
      · dsimp only
        rw [room, joining, timer, wanted]
        refine coming.imp_left fun caught => caught.mono outside ?_
        intro drain' under
        simp only [drains, loading, running, reloads, Option.toList_some, Option.toList_none, List.mem_append,
          List.mem_cons, List.not_mem_nil, or_false] at under ⊢
        grind
  | reload =>
      cases stepped
      refine ⟨known, single, queued, .inl (caught_of_mem known ?_)⟩
      simp [drains]
  | finishReload drain =>
      simp only [BoardSync.step] at stepped
      split at stepped
      · cases stepped
        refine ⟨known, single, queued, coming.imp_left fun caught => caught.mono rfl ?_⟩
        intro drain' under
        simp only [drains, List.mem_append, List.mem_cons] at under ⊢
        by_cases same : drain' = drain
        · exact .inl (.inl (.inl (.inl same)))
        · rcases under with ((before | running) | load) | reload
          · exact .inl (.inl (.inl (.inr before)))
          · exact .inl (.inl (.inr running))
          · exact .inl (.inr load)
          · exact .inr ((List.mem_erase_of_ne same).mpr reload)
      · cases stepped

end BoardSync

/-- Where every resync is asked for behind the freshness window or with nothing missed, a
quiet board has applied a drain that started after each change it missed. -/
theorem reconnects_cover_gaps {s t : BoardSync} (mounted : s.Mounted) {moves : List SyncMove}
    (ran : Machine.run BoardSync.step s moves = some t)
    (inTime : Machine.Meets BoardSync.step BoardSync.AsksInTime s moves) (quiet : t.Quiet) :
    ∀ change ∈ t.outside, ∃ drain ∈ t.applied, change < drain := by
  have pending : t.Pending := by
    refine Machine.run_keeps ?_ mounted.pending inTime ran
    exact fun _ _ _ pending inTime stepped => pending.step inTime stepped
  obtain ⟨⟨room, joining⟩, ⟨timer, running⟩, load, reloads⟩ := quiet
  have caught : t.Caught := by
    rcases pending.coming with caught | outside | joins | armed | queued
    · exact caught
    · rw [room] at outside
      cases outside
    · rw [joining] at joins
      cases joins
    · rw [timer] at armed
      cases armed
    · have runs := pending.queued queued
      rw [running] at runs
      cases runs
  intro change missed
  obtain ⟨drain, under, after⟩ := caught change missed
  refine ⟨drain, ?_, after⟩
  simpa [BoardSync.drains, running, load, reloads] using under

def mountedBoard : BoardSync := { now := 0, lastDrainStartedAt := 0 }

theorem mountedBoard_mounted : mountedBoard.Mounted := ⟨⟨rfl, rfl⟩, ⟨rfl, rfl, rfl⟩, rfl⟩

/-- A drop long after the load, with a change behind it. -/
def longAfterLoad : List SyncMove := [
  .finishLoad, .join, .joined, .tick 5000, .disconnect, .commit, .join, .joined, .tick 400, .fire, .finishResync]

theorem longAfterLoad_inTime :
    Machine.Meets BoardSync.step BoardSync.AsksInTime mountedBoard longAfterLoad := by
  apply Machine.meets_of_checks fun s move => decide (s.AsksInTime move)
  · exact fun _ _ => of_decide_eq_true
  · decide +kernel

theorem reconnects_cover_gaps_longAfterLoad : ∃ t, Machine.run BoardSync.step mountedBoard longAfterLoad = some t ∧
    t.outside = [0] ∧ ∃ drain ∈ t.applied, 0 < drain := by
  have ran : Machine.run BoardSync.step mountedBoard longAfterLoad = some {
      now := 5400, loading := false, inRoom := true, lastDrainStartedAt := 5400, load := none
      committed := 1, outside := [0], applied := [1, 0] } := by decide +kernel
  refine ⟨_, ran, rfl, ?_⟩
  exact reconnects_cover_gaps mountedBoard_mounted ran longAfterLoad_inTime
    ⟨⟨rfl, rfl⟩, ⟨rfl, rfl⟩, ⟨rfl, rfl⟩⟩ 0 List.mem_cons_self

/-- The socket drops right after the load and is back within the freshness window. -/
def dropAfterLoad : List SyncMove := [.finishLoad, .join, .joined, .disconnect, .commit, .join, .joined]

/-- A change committed while the client was out that no drain of its brings. -/
theorem gap_stays_uncovered : ¬ ∀ (s t : BoardSync) (moves : List SyncMove), s.Mounted →
    Machine.run BoardSync.step s moves = some t → t.Quiet →
      ∀ change ∈ t.outside, ∃ drain ∈ t.applied, change < drain := by
  intro claim
  have ran : Machine.run BoardSync.step mountedBoard dropAfterLoad = some {
      now := 0, loading := false, inRoom := true, lastDrainStartedAt := 0, load := none
      committed := 1, outside := [0], applied := [0] } := by decide +kernel
  have covered := claim mountedBoard _ dropAfterLoad mountedBoard_mounted ran
    ⟨⟨rfl, rfl⟩, ⟨rfl, rfl⟩, ⟨rfl, rfl⟩⟩ 0 List.mem_cons_self
  revert covered
  decide

end Kurul.Client
