import Kurul.Schema
import Mathlib

/-! The realtime gateway. A handler runs without interruption from one `await` to the
next; sockets, other handlers, evictions and the database move in between. -/
namespace Kurul.Realtime

/-- Room names. No id holds the colon that separates their parts. -/
inductive Room where
  | boardRoom (boardId : Id)
  | userRoom (workspaceId userId : Id)
  deriving DecidableEq

inductive Link where
  | fresh | connected | closed
  deriving DecidableEq

/-- A socket with its rooms and what the gateway keeps on `socket.data`. -/
structure Socket where
  link : Link := .fresh
  userId : Option Id := none
  rooms : List Room := []
  boardWorkspaces : List (Id × Id) := []
  notificationWorkspaces : List Id := []

namespace Socket

/-- A closed socket joins nothing any more. -/
def join (socket : Socket) (room : Room) : Socket :=
  if socket.link = .connected then { socket with rooms := room :: socket.rooms } else socket

def leave (socket : Socket) (room : Room) : Socket :=
  { socket with rooms := socket.rooms.filter (· ≠ room) }

def recordBoard (socket : Socket) (boardId workspaceId : Id) : Socket :=
  { socket with
    boardWorkspaces :=
      (boardId, workspaceId) :: socket.boardWorkspaces.filter (·.1 ≠ boardId) }

def forgetBoard (socket : Socket) (boardId : Id) : Socket :=
  { socket with boardWorkspaces := socket.boardWorkspaces.filter (·.1 ≠ boardId) }

def recordNotifications (socket : Socket) (workspaceId : Id) : Socket :=
  if workspaceId ∈ socket.notificationWorkspaces then socket
  else { socket with
    notificationWorkspaces := socket.notificationWorkspaces ++ [workspaceId] }

def forgetNotifications (socket : Socket) (workspaceId : Id) : Socket :=
  { socket with
    notificationWorkspaces := socket.notificationWorkspaces.filter (· ≠ workspaceId) }

/-- What `evictUserFromWorkspace` does to one socket. -/
def evict (socket : Socket) (workspaceId userId : Id) : Socket :=
  if socket.userId = some userId then
    { socket with
      rooms := socket.rooms.filter fun room =>
        room ≠ .userRoom workspaceId userId ∧
          ∀ entry ∈ socket.boardWorkspaces, entry.2 = workspaceId → room ≠ .boardRoom entry.1
      boardWorkspaces := socket.boardWorkspaces.filter (·.2 ≠ workspaceId)
      notificationWorkspaces := socket.notificationWorkspaces.filter (· ≠ workspaceId) }
  else socket

end Socket

structure Reply where
  ok : Bool
  error : Option String := none
  deriving DecidableEq

def accepted : Reply := { ok := true }

def denied (error : String) : Reply := { ok := false, error := some error }

/-- The packets of a client, by the field the gateway reads from their body: none
where it is absent or not a string. -/
inductive Request where
  | BOARD_JOIN (boardId : Option String)
  | BOARD_LEAVE (boardId : Option String)
  | NOTIFICATIONS_JOIN (workspaceId : Option String)
  | NOTIFICATIONS_LEAVE (workspaceId : Option String)

/-- A call at one of its awaits, with the values it still needs. -/
inductive Handler where
  | boardFind (socket : Nat) (userId boardId : Id)
  | boardFound (socket : Nat) (boardId : Id) (board : Option Id)
  | boardJoined (socket : Nat) (boardId workspaceId : Id)
  | boardLeft (socket : Nat) (boardId : Id)
  | membershipFind (socket : Nat) (userId workspaceId : Id)
  | membershipFound (socket : Nat) (userId workspaceId : Id) (membership : Bool)
  | notificationsJoined (socket : Nat) (workspaceId : Id)
  | notificationsLeft (socket : Nat) (workspaceId : Id)
  | evicting (workspaceId userId : Id) (sockets : Nat → Bool)

structure Gateway where
  /-- The boards of the database, each by its workspace. -/
  workspaceOf : Id → Option Id
  /-- The memberships, by workspace and user. -/
  members : List (Id × Id) := []
  sockets : Nat → Socket := fun _ => {}
  handlers : AList (fun _ : Nat => Handler) := ∅
  replies : List (Nat × Reply) := []

namespace Gateway

def modify (s : Gateway) (i : Nat) (change : Socket → Socket) : Gateway :=
  { s with sockets := Function.update s.sockets i (change (s.sockets i)) }

def await (s : Gateway) (h : Nat) (handler : Handler) : Gateway :=
  { s with handlers := s.handlers.insert h handler }

def finish (s : Gateway) (h : Nat) : Gateway :=
  { s with handlers := s.handlers.erase h }

def reply (s : Gateway) (h : Nat) (answer : Reply) : Gateway :=
  { s with replies := (h, answer) :: s.replies }

/-- The board of this id, if the user is a member of its workspace. -/
def findBoard (s : Gateway) (boardId userId : Id) : Option Id :=
  (s.workspaceOf boardId).filter fun workspaceId => (workspaceId, userId) ∈ s.members

/-- A handler up to its first await. -/
def receive (s : Gateway) (h i : Nat) : Request → Gateway
  | .BOARD_JOIN body =>
      match (s.sockets i).userId with
      | none => s.reply h (denied "unauthenticated")
      | some userId =>
          let boardId := body.getD ""
          if boardId = "" then s.reply h (denied "boardId required")
          else s.await h (.boardFind i userId boardId)
  | .BOARD_LEAVE body =>
      let boardId := body.getD ""
      if boardId = "" then s.reply h accepted
      else (s.modify i (·.leave (.boardRoom boardId))).await h (.boardLeft i boardId)
  | .NOTIFICATIONS_JOIN body =>
      match (s.sockets i).userId with
      | none => s.reply h (denied "unauthenticated")
      | some userId =>
          let workspaceId := body.getD ""
          if workspaceId = "" then s.reply h (denied "workspaceId required")
          else s.await h (.membershipFind i userId workspaceId)
  | .NOTIFICATIONS_LEAVE body =>
      let workspaceId := body.getD ""
      match (s.sockets i).userId with
      | none => s.reply h accepted
      | some userId =>
          if workspaceId = "" then s.reply h accepted
          else (s.modify i (·.leave (.userRoom workspaceId userId))).await h
            (.notificationsLeft i workspaceId)

/-- A handler from one await to the next, or to its end. -/
def resume (s : Gateway) (h : Nat) : Handler → Gateway
  | .boardFind i userId boardId => s.await h (.boardFound i boardId (s.findBoard boardId userId))
  | .boardFound _ _ none => (s.finish h).reply h (denied "board not found")
  | .boardFound i boardId (some workspaceId) =>
      (s.modify i (·.join (.boardRoom boardId))).await h (.boardJoined i boardId workspaceId)
  | .boardJoined i boardId workspaceId =>
      ((s.modify i (·.recordBoard boardId workspaceId)).finish h).reply h accepted
  | .boardLeft i boardId => ((s.modify i (·.forgetBoard boardId)).finish h).reply h accepted
  | .membershipFind i userId workspaceId =>
      s.await h (.membershipFound i userId workspaceId ((workspaceId, userId) ∈ s.members))
  | .membershipFound _ _ _ false => (s.finish h).reply h (denied "workspace not found")
  | .membershipFound i userId workspaceId true =>
      (s.modify i (·.join (.userRoom workspaceId userId))).await h
        (.notificationsJoined i workspaceId)
  | .notificationsJoined i workspaceId =>
      ((s.modify i (·.recordNotifications workspaceId)).finish h).reply h accepted
  | .notificationsLeft i workspaceId =>
      ((s.modify i (·.forgetNotifications workspaceId)).finish h).reply h accepted
  | .evicting workspaceId userId sockets =>
      { s with
        sockets := fun i =>
          if sockets i then (s.sockets i).evict workspaceId userId else s.sockets i }.finish h

end Gateway

inductive Action where
  | connect (socket : Nat) (userId : Id)
  | disconnect (socket : Nat)
  | receive (handler socket : Nat) (request : Request)
  | evictUserFromWorkspace (handler : Nat) (workspaceId userId : Id)
  | resume (handler : Nat)
  | createMember (workspaceId userId : Id)
  | deleteMember (workspaceId userId : Id)

/-- One uninterrupted step; none where the action is not possible. A socket has its
user before any packet of it is handled, and an eviction fetches the sockets that are
connected when it is called. -/
def step (s : Gateway) : Action → Option Gateway
  | .connect i userId =>
      if (s.sockets i).link = .fresh then
        some (s.modify i fun socket => { socket with link := .connected, userId := some userId })
      else none
  | .disconnect i =>
      if (s.sockets i).link = .connected then
        some (s.modify i fun socket => { socket with link := .closed, rooms := [] })
      else none
  | .receive h i request =>
      if (s.sockets i).link = .connected ∧ h ∉ s.handlers then some (s.receive h i request)
      else none
  | .evictUserFromWorkspace h workspaceId userId =>
      if h ∉ s.handlers then
        some (s.await h (.evicting workspaceId userId
          fun i => decide ((s.sockets i).link = .connected)))
      else none
  | .resume h => (s.handlers.lookup h).map (s.resume h)
  | .createMember workspaceId userId =>
      some { s with members := (workspaceId, userId) :: s.members }
  | .deleteMember workspaceId userId =>
      some { s with members := s.members.filter (· ≠ (workspaceId, userId)) }

def run (s : Gateway) : List Action → Option Gateway
  | [] => some s
  | action :: actions => (step s action).bind fun next => run next actions

theorem run_append (s : Gateway) (first second : List Action) :
    run s (first ++ second) = (run s first).bind fun middle => run middle second := by
  induction first generalizing s with
  | nil => rfl
  | cons action actions ih =>
      simp only [List.cons_append, run, Option.bind_assoc]
      congr 1
      funext next
      exact ih next

end Kurul.Realtime
