import Kurul.Machine

/-! The socket that all hooks share, and the two timers that bring it back. The library is taken at its word about
what its calls and events do to a socket. -/
namespace Kurul.Client.Socket

open Machine

/-- What a socket is doing. Between its retries the manager waits; after the last one it rests. -/
inductive Phase where
  | inactive | attempting | connected | waiting | resting
  deriving DecidableEq

/-- Sockets are numbered as they are built. A timer holds the socket it was armed for. -/
structure State where
  phases : Nat → Phase
  built : Nat
  socket : Option Nat
  coolDownTimer : Option (Option Nat)
  refusalTimer : Option Nat
  refusals : Nat
  /-- `connectSocket` has been called since the last `disconnectSocket`. No function reads or sets it; `step` keeps
  the account of what was called. -/
  wanted : Bool
  /-- `connect()` has been called on a socket that was connected or attempting. -/
  twice : Bool

def start : State where
  phases _ := .inactive
  built := 0
  socket := none
  coolDownTimer := none
  refusalTimer := none
  refusals := 0
  wanted := false
  twice := false

inductive Move where
  | getSocket | connectSocket | disconnectSocket
  | accepted (client : Nat)
  | refused (client : Nat)
  | dropped (client : Nat)
  | retried (client : Nat)
  | gaveUp (client : Nat)
  | serverDisconnected (client : Nat)
  | coolDownFires
  | refusalFires

namespace State

variable (s : State)

def active (client : Nat) : Bool := s.phases client ≠ .inactive

def setPhase (client : Nat) (phase : Phase) : State := { s with phases := Function.update s.phases client phase }

/-- `client.connect()` -/
def connect (client : Nat) : State :=
  match s.phases client with
  | .attempting | .connected => { s with twice := true }
  | _ => s.setPhase client .attempting

def onReconnectFailed : State :=
  if s.coolDownTimer.isSome then s else { s with coolDownTimer := some s.socket }

def onConnectionRefused : State :=
  match s.socket with
  | none => s
  | some client =>
      if s.active client || s.refusalTimer.isSome then s
      else { s with refusals := s.refusals + 1, refusalTimer := some client }

def onConnected : State := { s with refusals := 0 }

def getSocket : State :=
  match s.socket with
  | none => { s with socket := some s.built, built := s.built + 1 }
  | some _ => s

def openIdle (client : Nat) : State :=
  if !s.active client && s.phases client ≠ .connected then s.connect client else s

def connectSocket : State :=
  let s := s.getSocket
  match s.socket with
  | none => s
  | some client => s.openIdle client

def disposed (client : Nat) : State :=
  { s with coolDownTimer := none, refusalTimer := none, refusals := 0, socket := none }.setPhase client .inactive

/-- The `disconnect` of a connected client is still heard; by then there is no socket to bring back. -/
def disconnectSocket : State :=
  match s.socket with
  | none => s
  | some client =>
      if s.phases client = .connected then (s.disposed client).onConnectionRefused else s.disposed client

/-- A handler runs for the socket it is registered on, and `disconnectSocket` takes it off. -/
def heard (client : Nat) (handler : State → State) : State := if s.socket = some client then handler s else s

/-- What the timer of a rest does when it goes off. -/
def coolDown (client : Option Nat) : State :=
  match client with
  | none => s
  | some client => if s.socket = some client && s.phases client ≠ .connected then s.connect client else s

def retryRefused (client : Nat) : State :=
  if s.socket = some client && s.phases client ≠ .connected && !s.active client then s.connect client else s

end State

open State

def step (s : State) : Move → Option State
  | .getSocket => some s.getSocket
  | .connectSocket => some { s.connectSocket with wanted := true }
  | .disconnectSocket => some { s.disconnectSocket with wanted := false }
  | .accepted client =>
      if s.phases client = .attempting then some ((s.setPhase client .connected).heard client onConnected) else none
  | .refused client =>
      if s.phases client = .attempting then some ((s.setPhase client .inactive).heard client onConnectionRefused) else none
  | .dropped client =>
      if s.phases client = .attempting ∨ s.phases client = .connected then
        some ((s.setPhase client .waiting).heard client onConnectionRefused)
      else none
  | .retried client => if s.phases client = .waiting then some (s.setPhase client .attempting) else none
  | .gaveUp client =>
      if s.phases client = .waiting then some ((s.setPhase client .resting).heard client onReconnectFailed) else none
  | .serverDisconnected client =>
      if s.phases client = .connected then some ((s.setPhase client .inactive).heard client onConnectionRefused) else none
  | .coolDownFires => s.coolDownTimer.map fun client => { s with coolDownTimer := none }.coolDown client
  | .refusalFires => s.refusalTimer.map fun client => { s with refusalTimer := none }.retryRefused client

/-- Going off now, the timer would call `connect()` on the socket. -/
def WillConnect (s : State) (client : Nat) : Prop :=
  (s.coolDownTimer = some (some client) ∧ s.phases client ≠ .connected) ∨
    (s.refusalTimer = some client ∧ s.active client = false)

/-- The current socket is connected or on its way, or a timer will set it going. -/
def Alive (s : State) : Prop := ∃ client, s.socket = some client ∧
  (s.phases client = .connected ∨ s.phases client = .attempting ∨ s.phases client = .waiting ∨ WillConnect s client)

structure Laws (s : State) : Prop where
  alive : s.wanted = true → Alive s
  once : s.twice = false

/-- There is no socket, and nothing is armed. -/
structure Gone (s : State) : Prop where
  socket : s.socket = none
  inactive : ∀ client, s.phases client = .inactive
  coolDown : s.coolDownTimer = none
  refusal : s.refusalTimer = none
  wanted : s.wanted = false
  once : s.twice = false

/-- There is this socket. It rests exactly while the timer of its rest is armed, and where it is wanted and
inactive the other timer is. -/
structure Shared (s : State) (client : Nat) : Prop where
  socket : s.socket = some client
  others : ∀ other, other ≠ client → s.phases other = .inactive
  coolDown : s.coolDownTimer = if s.phases client = .resting then some (some client) else none
  refusal : ∀ other, s.refusalTimer = some other → other = client
  wanted : s.wanted = true → s.phases client = .inactive → s.refusalTimer = some client
  once : s.twice = false

def Kept (s : State) : Prop := Gone s ∨ ∃ client, Shared s client

section Steps

variable {s t : State} {client : Nat} {phase : Phase} {move : Move}

theorem setPhase_self : (s.setPhase client phase).phases client = phase := Function.update_self _ _ _

theorem setPhase_other {other : Nat} (apart : other ≠ client) : (s.setPhase client phase).phases other = s.phases other :=
  Function.update_of_ne apart _ _

theorem laws_of_kept (kept : Kept s) : Laws s := by
  rcases kept with gone | ⟨client, shared⟩
  · refine ⟨fun wanted => ?_, gone.once⟩
    rw [gone.wanted] at wanted
    cases wanted
  · refine ⟨fun wanted => ⟨client, shared.socket, ?_⟩, shared.once⟩
    have coolDown := shared.coolDown
    cases doing : s.phases client with
    | inactive => exact Or.inr (Or.inr (Or.inr (Or.inr ⟨shared.wanted wanted doing, by simp [active, doing]⟩)))
    | attempting => exact Or.inr (Or.inl rfl)
    | connected => exact Or.inl rfl
    | waiting => exact Or.inr (Or.inr (Or.inl rfl))
    | resting =>
        rw [if_pos doing] at coolDown
        exact Or.inr (Or.inr (Or.inr (Or.inl ⟨coolDown, by simp [doing]⟩)))

theorem Shared.is (shared : Shared s client) {other : Nat} (busy : s.phases other ≠ .inactive) : other = client := by
  by_contra apart
  exact busy (shared.others other apart)

/-- A socket that does not rest takes up something else than resting. -/
theorem Shared.setPhase (shared : Shared s client) (before : s.phases client ≠ .resting) (after : phase ≠ .resting)
    (armed : s.wanted = true → phase = .inactive → s.refusalTimer = some client) :
    Shared (s.setPhase client phase) client where
  socket := shared.socket
  others other apart := (setPhase_other apart).trans (shared.others other apart)
  coolDown := by
    have coolDown := shared.coolDown
    rw [if_neg before] at coolDown
    simpa [State.setPhase, after] using coolDown
  refusal := shared.refusal
  wanted wanted inactive := armed wanted (by simpa [State.setPhase] using inactive)
  once := shared.once

theorem Shared.onConnected (shared : Shared s client) : Shared s.onConnected client := { shared with }

/-- While the socket is active a refusal is none. -/
theorem onConnectionRefused_active (shared : Shared s client) (busy : s.phases client ≠ .inactive) :
    s.onConnectionRefused = s := by
  simp [onConnectionRefused, shared.socket, active, busy]

/-- Whatever made the socket inactive, the timer is armed afterwards. -/
theorem Shared.refused (shared : Shared s client) (before : s.phases client ≠ .resting) :
    Shared (s.setPhase client .inactive).onConnectionRefused client := by
  have coolDown := shared.coolDown
  rw [if_neg before] at coolDown
  cases armed : s.refusalTimer with
  | some other =>
      have same : (s.setPhase client .inactive).onConnectionRefused = s.setPhase client .inactive := by
        simp [onConnectionRefused, State.setPhase, shared.socket, armed]
      rw [same]
      refine shared.setPhase before (by simp) fun _ _ => ?_
      rw [armed, shared.refusal other armed]
  | none =>
      have made : (s.setPhase client .inactive).onConnectionRefused =
          { s.setPhase client .inactive with refusals := s.refusals + 1, refusalTimer := some client } := by
        simp [onConnectionRefused, State.setPhase, shared.socket, armed, active]
      rw [made]
      exact {
        socket := shared.socket
        others := fun other apart => (setPhase_other apart).trans (shared.others other apart)
        coolDown := by simpa [State.setPhase] using coolDown
        refusal := fun other same => (Option.some.inj same).symm
        wanted := fun _ _ => rfl
        once := shared.once }

theorem Shared.gaveUp (shared : Shared s client) (before : s.phases client ≠ .resting) :
    Shared (s.setPhase client .resting).onReconnectFailed client := by
  have coolDown := shared.coolDown
  rw [if_neg before] at coolDown
  have made : (s.setPhase client .resting).onReconnectFailed =
      { s.setPhase client .resting with coolDownTimer := some (some client) } := by
    simp [onReconnectFailed, State.setPhase, coolDown, shared.socket]
  rw [made]
  exact {
    socket := shared.socket
    others := fun other apart => (setPhase_other apart).trans (shared.others other apart)
    coolDown := by simp [State.setPhase]
    refusal := shared.refusal
    wanted := fun _ inactive => by simp [State.setPhase] at inactive
    once := shared.once }

/-- `connect()` on a socket that neither is connected nor tries to be, with no timer of a rest left. -/
theorem Shared.connect (socket : s.socket = some client) (others : ∀ other, other ≠ client → s.phases other = .inactive)
    (coolDown : s.coolDownTimer = none) (refusal : ∀ other, s.refusalTimer = some other → other = client)
    (once : s.twice = false) (idle : s.phases client = .inactive ∨ s.phases client = .resting) :
    Shared (s.connect client) client := by
  have made : s.connect client = s.setPhase client .attempting := by
    rcases idle with idle | idle <;> rw [State.connect, idle]
  rw [made]
  exact {
    socket := socket
    others := fun other apart => (setPhase_other apart).trans (others other apart)
    coolDown := by simpa [State.setPhase] using coolDown
    refusal := refusal
    wanted := fun _ inactive => by simp [State.setPhase] at inactive
    once := once }

theorem Gone.getSocket (gone : Gone s) : Shared s.getSocket s.built := by
  have made : s.getSocket = { s with socket := some s.built, built := s.built + 1 } := by
    rw [State.getSocket, gone.socket]
  rw [made]
  exact {
    socket := rfl
    others := fun other _ => gone.inactive other
    coolDown := by simpa [gone.inactive s.built] using gone.coolDown
    refusal := fun other armed => by
      rw [gone.refusal] at armed
      cases armed
    wanted := fun wanted _ => by
      rw [gone.wanted] at wanted
      cases wanted
    once := gone.once }

theorem Kept.getSocket (kept : Kept s) : ∃ client, Shared s.getSocket client := by
  rcases kept with gone | ⟨client, shared⟩
  · exact ⟨s.built, gone.getSocket⟩
  · have same : s.getSocket = s := by rw [State.getSocket, shared.socket]
    rw [same]
    exact ⟨client, shared⟩

theorem Shared.openIdle (shared : Shared s client) : Shared { s.openIdle client with wanted := true } client := by
  by_cases idle : s.phases client = .inactive
  · have coolDown := shared.coolDown
    rw [if_neg (by simp [idle])] at coolDown
    have opened := Shared.connect shared.socket shared.others coolDown shared.refusal shared.once (Or.inl idle)
    have made : s.openIdle client = s.connect client := by simp [State.openIdle, active, idle]
    have attempting : (s.connect client).phases client = .attempting := by
      rw [State.connect, idle]
      exact setPhase_self
    rw [made]
    exact { opened with wanted := fun _ inactive => absurd (attempting.symm.trans inactive) (by decide) }
  · have made : s.openIdle client = s := by simp [State.openIdle, active, idle]
    rw [made]
    exact { shared with wanted := fun _ inactive => absurd inactive idle }

theorem Kept.connectSocket (kept : Kept s) : Kept { s.connectSocket with wanted := true } := by
  obtain ⟨client, shared⟩ := kept.getSocket
  have made : s.connectSocket = s.getSocket.openIdle client := by
    rw [State.connectSocket]
    rw [shared.socket]
  rw [made]
  exact Or.inr ⟨client, shared.openIdle⟩

theorem Shared.disposed (shared : Shared s client) : Gone { s.disposed client with wanted := false } where
  socket := rfl
  inactive other := by
    by_cases same : other = client
    · rw [same]
      exact setPhase_self
    · exact (setPhase_other same).trans (shared.others other same)
  coolDown := rfl
  refusal := rfl
  wanted := rfl
  once := shared.once

theorem Kept.disconnectSocket (kept : Kept s) : Kept { s.disconnectSocket with wanted := false } := by
  rcases kept with gone | ⟨client, shared⟩
  · have made : s.disconnectSocket = s := by rw [State.disconnectSocket, gone.socket]
    rw [made]
    exact Or.inl { gone with wanted := rfl }
  · have silent : (s.disposed client).onConnectionRefused = s.disposed client := rfl
    have made : s.disconnectSocket = s.disposed client := by
      rw [State.disconnectSocket, shared.socket]
      dsimp only
      rw [silent, ite_self]
    rw [made]
    exact Or.inl shared.disposed

/-- A library event is one of the socket there is, and is heard. -/
theorem Kept.event (kept : Kept s) (client : Nat) (busy : s.phases client ≠ .inactive) : Shared s client := by
  rcases kept with gone | ⟨other, shared⟩
  · exact absurd (gone.inactive client) busy
  · rw [shared.is busy]
    exact shared

theorem heard_current {handler : State → State} (socket : s.socket = some client) : s.heard client handler = handler s := by
  rw [heard, if_pos socket]

theorem heard_setPhase {handler : State → State} (socket : s.socket = some client) :
    (s.setPhase client phase).heard client handler = handler (s.setPhase client phase) := heard_current socket

theorem Kept.coolDownFires (kept : Kept s) {held : Option Nat} (armed : s.coolDownTimer = some held) :
    Kept ({ s with coolDownTimer := none }.coolDown held) := by
  rcases kept with gone | ⟨client, shared⟩
  · rw [gone.coolDown] at armed
    cases armed
  · have coolDown := shared.coolDown
    rw [armed] at coolDown
    split at coolDown
    · rename_i resting
      cases coolDown
      have fires : { s with coolDownTimer := none }.coolDown (some client) =
        { s with coolDownTimer := none }.connect client := by
        simp [State.coolDown, shared.socket, resting]
      rw [fires]
      exact Or.inr ⟨client, Shared.connect shared.socket shared.others rfl shared.refusal shared.once (Or.inr resting)⟩
    · cases coolDown

theorem Kept.refusalFires (kept : Kept s) {held : Nat} (armed : s.refusalTimer = some held) :
    Kept ({ s with refusalTimer := none }.retryRefused held) := by
  rcases kept with gone | ⟨client, shared⟩
  · rw [gone.refusal] at armed
    cases armed
  · obtain rfl := shared.refusal held armed
    refine Or.inr ⟨held, ?_⟩
    by_cases idle : s.phases held = .inactive
    · have fires : { s with refusalTimer := none }.retryRefused held = { s with refusalTimer := none }.connect held := by
        simp [retryRefused, shared.socket, active, idle]
      have coolDown := shared.coolDown
      rw [if_neg (by simp [idle])] at coolDown
      rw [fires]
      exact Shared.connect shared.socket shared.others coolDown (fun _ armed => by cases armed) shared.once (Or.inl idle)
    · have rests : { s with refusalTimer := none }.retryRefused held = { s with refusalTimer := none } := by
        simp [retryRefused, active, idle]
      rw [rests]
      exact { shared with
        refusal := fun _ armed => by cases armed
        wanted := fun _ inactive => absurd inactive idle }

theorem Kept.step (kept : Kept s) (stepped : step s move = some t) : Kept t := by
  cases move with
  | getSocket =>
      cases stepped
      obtain ⟨client, shared⟩ := kept.getSocket
      exact Or.inr ⟨client, shared⟩
  | connectSocket =>
      cases stepped
      exact kept.connectSocket
  | disconnectSocket =>
      cases stepped
      exact kept.disconnectSocket
  | accepted client =>
      obtain ⟨doing, same⟩ := Option.ite_none_right_eq_some.mp stepped
      cases same
      have shared := kept.event client (by simp [doing])
      rw [heard_setPhase shared.socket]
      exact Or.inr ⟨client, (shared.setPhase (by simp [doing]) (by simp) (by simp)).onConnected⟩
  | refused client =>
      obtain ⟨doing, same⟩ := Option.ite_none_right_eq_some.mp stepped
      cases same
      have shared := kept.event client (by simp [doing])
      rw [heard_setPhase shared.socket]
      exact Or.inr ⟨client, shared.refused (by simp [doing])⟩
  | dropped client =>
      obtain ⟨doing, same⟩ := Option.ite_none_right_eq_some.mp stepped
      cases same
      have busy : s.phases client ≠ .inactive ∧ s.phases client ≠ .resting := by
        rcases doing with doing | doing <;> simp [doing]
      have shared : Shared (s.setPhase client .waiting) client :=
        (kept.event client busy.1).setPhase busy.2 (by simp) (by simp)
      rw [heard_current shared.socket, onConnectionRefused_active shared (by simp [State.setPhase])]
      exact Or.inr ⟨client, shared⟩
  | retried client =>
      obtain ⟨doing, same⟩ := Option.ite_none_right_eq_some.mp stepped
      cases same
      have shared := kept.event client (by simp [doing])
      exact Or.inr ⟨client, shared.setPhase (by simp [doing]) (by simp) (by simp)⟩
  | gaveUp client =>
      obtain ⟨doing, same⟩ := Option.ite_none_right_eq_some.mp stepped
      cases same
      have shared := kept.event client (by simp [doing])
      rw [heard_setPhase shared.socket]
      exact Or.inr ⟨client, shared.gaveUp (by simp [doing])⟩
  | serverDisconnected client =>
      obtain ⟨doing, same⟩ := Option.ite_none_right_eq_some.mp stepped
      cases same
      have shared := kept.event client (by simp [doing])
      rw [heard_setPhase shared.socket]
      exact Or.inr ⟨client, shared.refused (by simp [doing])⟩
  | coolDownFires =>
      obtain ⟨held, armed, rfl⟩ := Option.map_eq_some_iff.mp stepped
      exact kept.coolDownFires armed
  | refusalFires =>
      obtain ⟨held, armed, rfl⟩ := Option.map_eq_some_iff.mp stepped
      exact kept.refusalFires armed

end Steps

/-- In every run, as long as it is wanted the socket is alive, and `connect()` never comes twice. -/
theorem socket_stays_alive (moves : List Move) : Always step Laws start moves :=
  always_of_kept (fun _ _ _ kept stepped => Kept.step kept stepped) (fun _ => laws_of_kept)
    (Or.inl ⟨rfl, fun _ => rfl, rfl, rfl, rfl, rfl⟩) moves

/-- The socket is called for, refused and brought back, dropped after a while until the manager gives up, and called
for by another hook while it rests. -/
def restless : List Move := [.connectSocket, .refused 0, .refusalFires, .accepted 0, .connectSocket, .dropped 0, .retried 0,
  .dropped 0, .gaveUp 0, .connectSocket]

theorem restless_alive : ∃ s, run step start restless = some s ∧ s.wanted = true ∧ s.phases 0 = .resting ∧ Laws s ∧
    Alive s := by
  have ran : ((run step start restless).map fun s => (s.wanted, s.phases 0)) = some (true, .resting) := by decide
  obtain ⟨s, ran, last⟩ := Option.map_eq_some_iff.mp ran
  obtain ⟨wanted, resting⟩ := Prod.mk.inj last
  have laws := always_last (socket_stays_alive restless) ran
  exact ⟨s, ran, wanted, resting, laws, laws.alive wanted⟩

end Kurul.Client.Socket
