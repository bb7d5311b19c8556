import Kurul.Realtime.Eviction

/-! Joins and leaves of one socket, their handlers interleaved at the awaits. A join waits
for its access check and a leave does not, so requests that arrive in order need not take
effect in order. -/
namespace Kurul.Realtime

/-- How far a call about a room has come: a join before its check, after it and before its
record, and a leave before it drops the record. -/
inductive Stage where
  | asked | granted | refused | joined | left
  deriving DecidableEq

/-- What the last request about a room was, and for a join what its check has said. -/
inductive Word where
  | none_
  | leave
  | asked (handler : Nat)
  | allowed
  | refused
  deriving DecidableEq

def Word.isJoin : Word → Bool
  | .asked _ | .allowed => true
  | _ => false

/-- Some call stands at this stage. -/
def Underway (calls : Nat → Option Stage) (stage : Stage) : Prop := ∃ h, calls h = some stage

/-- One room of one socket: whether the socket is in it and has it on record, the last word
about it and the calls under way. -/
structure Steady (inside recorded : Prop) (word : Word) (calls : Nat → Option Stage) : Prop where
  asked : ∀ h, word = .asked h → calls h = some .asked
  allowed : word = .allowed → inside ∨ Underway calls .granted
  heard : inside → word.isJoin
  tracked : inside → recorded ∨ Underway calls .joined
  kept : recorded → inside ∨ Underway calls .left

section Moves

variable {calls : Nat → Option Stage} {h : Nat} {stage : Stage} {next : Option Stage}

/-- The other calls stay where they are. -/
theorem Underway.others (other : Underway calls stage) (apart : calls h ≠ some stage) :
    Underway (Function.update calls h next) stage := by
  obtain ⟨k, here⟩ := other
  have different : k ≠ h := by
    rintro rfl
    exact apart here
  exact ⟨k, by rw [Function.update_of_ne different, here]⟩

theorem Underway.own : Underway (Function.update calls h (some stage)) stage :=
  ⟨h, Function.update_self ..⟩

end Moves

namespace Steady

variable {inside recorded : Prop} {word : Word} {calls : Nat → Option Stage} {h : Nat}

theorem start : Steady False False .none_ fun _ => none := by
  constructor <;> simp [Word.isJoin]

theorem ask (steady : Steady inside recorded word calls) (idle : calls h = none) :
    Steady inside recorded (.asked h) (Function.update calls h (some .asked)) := by
  obtain ⟨asked, allowed, held, tracked, kept⟩ := steady
  constructor <;> grind [Word.isJoin, Underway.others, Underway.own]

theorem leave (steady : Steady inside recorded word calls) :
    Steady False recorded .leave (Function.update calls h (some .left)) := by
  obtain ⟨asked, allowed, held, tracked, kept⟩ := steady
  constructor <;> grind [Word.isJoin, Underway.others, Underway.own]

theorem grant (steady : Steady inside recorded word calls) (here : calls h = some .asked) :
    Steady inside recorded (if word = .asked h then .allowed else word)
      (Function.update calls h (some .granted)) := by
  obtain ⟨asked, allowed, held, tracked, kept⟩ := steady
  constructor <;> grind [Word.isJoin, Underway.others, Underway.own]

theorem refuse (steady : Steady inside recorded word calls) (here : calls h = some .asked)
    (outside : word = .asked h → ¬ inside) :
    Steady inside recorded (if word = .asked h then .refused else word)
      (Function.update calls h (some .refused)) := by
  obtain ⟨asked, allowed, held, tracked, kept⟩ := steady
  constructor <;> grind [Word.isJoin, Underway.others, Underway.own]

theorem join (steady : Steady inside recorded word calls) (here : calls h = some .granted)
    (last : word.isJoin) :
    Steady True recorded word (Function.update calls h (some .joined)) := by
  obtain ⟨asked, allowed, held, tracked, kept⟩ := steady
  constructor <;> grind [Underway.others, Underway.own]

theorem record (steady : Steady inside recorded word calls) (here : calls h = some .joined)
    (stands : inside ∨ Underway calls .left) :
    Steady inside True word (Function.update calls h none) := by
  obtain ⟨asked, allowed, held, tracked, kept⟩ := steady
  constructor <;> grind [Underway.others, Underway.own]

theorem forget (steady : Steady inside recorded word calls) (here : calls h = some .left)
    (gone : inside → Underway calls .joined) :
    Steady inside False word (Function.update calls h none) := by
  obtain ⟨asked, allowed, held, tracked, kept⟩ := steady
  constructor <;> grind [Underway.others, Underway.own]

theorem dismiss (steady : Steady inside recorded word calls) (here : calls h = some .refused) :
    Steady inside recorded word (Function.update calls h none) := by
  obtain ⟨asked, allowed, held, tracked, kept⟩ := steady
  constructor <;> grind [Underway.others, Underway.own]

/-- Once no call about the room is left. -/
theorem settled (steady : Steady inside recorded word calls) (done : ∀ h, calls h = none) :
    (inside ↔ word = .allowed) ∧ (recorded ↔ inside) := by
  obtain ⟨asked, allowed, held, tracked, kept⟩ := steady
  cases word <;> grind [Word.isJoin, Underway]

end Steady

/-- The room a request is about, as the gateway names it. -/
def Request.room (userId : Id) : Request → Option Room
  | .BOARD_JOIN body | .BOARD_LEAVE body =>
      if body.getD "" = "" then none else some (.boardRoom (body.getD ""))
  | .NOTIFICATIONS_JOIN body | .NOTIFICATIONS_LEAVE body =>
      if body.getD "" = "" then none else some (.userRoom (body.getD "") userId)

def Request.isJoin : Request → Bool
  | .BOARD_JOIN _ | .NOTIFICATIONS_JOIN _ => true
  | .BOARD_LEAVE _ | .NOTIFICATIONS_LEAVE _ => false

namespace Handler

/-- The socket and the room of a call, and its stage. -/
def about (userId : Id) : Handler → Option (Nat × Room × Stage)
  | .boardFind i _ boardId => some (i, .boardRoom boardId, .asked)
  | .boardFound i boardId board =>
      some (i, .boardRoom boardId, if board.isSome then .granted else .refused)
  | .boardJoined i boardId _ => some (i, .boardRoom boardId, .joined)
  | .boardLeft i boardId => some (i, .boardRoom boardId, .left)
  | .membershipFind i user workspaceId => some (i, .userRoom workspaceId user, .asked)
  | .membershipFound i user workspaceId membership =>
      some (i, .userRoom workspaceId user, if membership then .granted else .refused)
  | .notificationsJoined i workspaceId => some (i, .userRoom workspaceId userId, .joined)
  | .notificationsLeft i workspaceId => some (i, .userRoom workspaceId userId, .left)
  | .evicting .. => none

/-- The stage of a call about this room of this socket. -/
def stageOn (i : Nat) (userId : Id) (room : Room) (handler : Handler) : Option Stage :=
  ((handler.about userId).filter fun call => call.1 = i ∧ call.2.1 = room).map (·.2.2)

/-- What the access check of a join comes to now. -/
def allowedBy (s : Gateway) : Handler → Bool
  | .boardFind _ userId boardId => (s.findBoard boardId userId).isSome
  | .membershipFind _ userId workspaceId => s.members.contains (workspaceId, userId)
  | _ => true

end Handler

/-- The record of the socket names the room. -/
def Socket.Records (socket : Socket) (userId : Id) : Room → Prop
  | .boardRoom boardId => boardId ∈ socket.boardWorkspaces.map Prod.fst
  | .userRoom workspaceId user => user = userId ∧ workspaceId ∈ socket.notificationWorkspaces

namespace Gateway

/-- The calls about a room. -/
def calls (s : Gateway) (i : Nat) (userId : Id) (room : Room) (h : Nat) : Option Stage :=
  (s.handlers.lookup h).bind (Handler.stageOn i userId room)

/-- The last word about a room after one more action. -/
def hear (s : Gateway) (i : Nat) (userId : Id) (words : Room → Word) (action : Action) (room : Room) :
    Word :=
  match action with
  | .receive h j request =>
      if j = i ∧ request.room userId = some room then
        if request.isJoin then .asked h else .leave
      else words room
  | .resume h =>
      if words room = .asked h then
        match s.handlers.lookup h with
        | some handler => if handler.allowedBy s then .allowed else .refused
        | none => words room
      else words room
  | _ => words room

end Gateway

/-- The last word about each room after a run. -/
def lastWords (i : Nat) (userId : Id) (s : Gateway) (words : Room → Word) : List Action → Room → Word
  | [] => words
  | action :: actions =>
      match step s action with
      | some next => lastWords i userId next (s.hear i userId words action) actions
      | none => words

/-- A call about the room stands at this stage. -/
def Gateway.Stands (s : Gateway) (i : Nat) (userId : Id) (room : Room) (stage : Stage) : Prop :=
  ∃ h ∈ s.handlers.keys, s.calls i userId room h = some stage

/-- What keeps a step of a call to the order of the requests. -/
def Stage.InOrder (s : Gateway) (i : Nat) (userId : Id) (room : Room) (word : Word) (h : Nat)
    (allowed : Bool) : Stage → Prop
  | .asked => word = .asked h → allowed = false → room ∉ (s.sockets i).rooms
  | .granted => word.isJoin
  | .refused => True
  | .joined => room ∈ (s.sockets i).rooms ∨ s.Stands i userId room .left
  | .left => room ∈ (s.sockets i).rooms → s.Stands i userId room .joined

/-- Where the gateway keeps to the order of the requests: no join takes effect after a later
leave or a later join that was refused, a last join is not refused on a socket that is in the
room, and neither half of a record is written over a later one. -/
def Handler.InOrder (s : Gateway) (i : Nat) (userId : Id) (words : Room → Word) (h : Nat)
    (handler : Handler) : Prop :=
  ∀ call ∈ handler.about userId, call.1 = i →
    call.2.2.InOrder s i userId call.2.1 (words call.2.1) h (handler.allowedBy s)

def InOrder (s : Gateway) (i : Nat) (userId : Id) (words : Room → Word) : Action → Prop
  | .resume h => ∀ handler ∈ s.handlers.lookup h, handler.InOrder s i userId words h
  | _ => True

def AllInOrder (i : Nat) (userId : Id) (s : Gateway) (words : Room → Word) : List Action → Prop
  | [] => True
  | action :: actions => InOrder s i userId words action ∧
      ∀ next ∈ step s action, AllInOrder i userId next (s.hear i userId words action) actions

section Decidable

variable (s : Gateway) (i : Nat) (userId : Id)

instance (room : Room) (stage : Stage) : Decidable (s.Stands i userId room stage) :=
  inferInstanceAs (Decidable (∃ h ∈ s.handlers.keys, _))

instance (room : Room) (word : Word) (h : Nat) (allowed : Bool) :
    DecidablePred (Stage.InOrder s i userId room word h allowed)
  | .asked | .left => inferInstanceAs (Decidable (_ → _))
  | .granted => inferInstanceAs (Decidable (_ = _))
  | .refused => inferInstanceAs (Decidable True)
  | .joined => inferInstanceAs (Decidable (_ ∨ _))

instance (words : Room → Word) (h : Nat) : DecidablePred (Handler.InOrder s i userId words h) :=
  fun handler => inferInstanceAs (Decidable (∀ call ∈ handler.about userId, _ → _))

instance (words : Room → Word) : DecidablePred (InOrder s i userId words)
  | .resume h => inferInstanceAs (Decidable (∀ handler ∈ s.handlers.lookup h, _))
  | .connect .. | .disconnect .. | .receive .. | .evictUserFromWorkspace .. | .createMember ..
  | .deleteMember .. => inferInstanceAs (Decidable True)

instance : ∀ (s : Gateway) (words : Room → Word) (actions : List Action),
    Decidable (AllInOrder i userId s words actions)
  | _, _, [] => inferInstanceAs (Decidable True)
  | s, words, action :: actions =>
      have : ∀ next, Decidable (AllInOrder i userId next (s.hear i userId words action) actions) :=
        fun next => instDecidableAllInOrder next _ actions
      inferInstanceAs (Decidable (InOrder s i userId words action ∧ ∀ next ∈ step s action, _))

end Decidable

/-- Requests and their handlers, on this socket and on others; the socket stays connected and
nobody is evicted. -/
def Action.Plain (i : Nat) : Action → Prop
  | .disconnect j => j ≠ i
  | .evictUserFromWorkspace .. => False
  | _ => True

/-- The rooms and the record of the socket agree with the last words and the calls under way. -/
structure Gateway.Heard (s : Gateway) (i : Nat) (userId : Id) (words : Room → Word) : Prop where
  connected : (s.sockets i).link = .connected
  user : (s.sockets i).userId = some userId
  fits : ∀ h handler, s.handlers.lookup h = some handler → handler.Fits s ∧ (handler.about userId).isSome
  placed : ∀ entry ∈ (s.sockets i).boardWorkspaces, s.workspaceOf entry.1 = some entry.2
  steady : ∀ room, Steady (room ∈ (s.sockets i).rooms) ((s.sockets i).Records userId room) (words room)
    (s.calls i userId room)

open Gateway

section Steps

variable {s next : Gateway} {i h j : Nat} {userId : Id} {words words' : Room → Word} {room room₀ : Room}
  {handler : Handler} {stage : Stage}

theorem Gateway.Stands.underway (stands : s.Stands i userId room stage) :
    Underway (s.calls i userId room) stage := by
  obtain ⟨h, _, here⟩ := stands
  exact ⟨h, here⟩

theorem Handler.stageOn_eq (about : handler.about userId = some (j, room₀, stage)) :
    handler.stageOn i userId room = if j = i ∧ room₀ = room then some stage else none := by
  simp only [Handler.stageOn, about, Option.filter_some]
  split <;> simp_all

theorem calls_found (found : s.handlers.lookup h = some handler) :
    s.calls i userId room h = handler.stageOn i userId room := by
  simp [calls, found]

theorem calls_await : (s.await h handler).calls i userId room =
    Function.update (s.calls i userId room) h (handler.stageOn i userId room) := by
  funext k
  simp only [calls, lookup_await, Function.update_apply]
  split <;> rfl

theorem calls_finish : (s.finish h).calls i userId room = Function.update (s.calls i userId room) h none := by
  funext k
  simp only [calls, lookup_finish, Function.update_apply]
  split <;> rfl

namespace Gateway.Heard

/-- A word is only changed by the check of the join that it is. -/
theorem deaf (heard : s.Heard i userId words) (found : s.handlers.lookup h = some handler)
    (other : handler.stageOn i userId room ≠ some .asked) :
    s.hear i userId words (.resume h) room = words room := by
  simp only [hear]
  split
  · rename_i last
    exact absurd ((calls_found found).symm.trans ((heard.steady room).asked h last)) other
  · rfl

/-- A step of a call about one room of a socket. -/
theorem turn (heard : s.Heard i userId words) (h j : Nat) (room₀ : Room) (change : Socket → Socket)
    (sockets : next.sockets = Function.update s.sockets j (change (s.sockets j)))
    (boards : next.workspaceOf = s.workspaceOf)
    (link : (change (s.sockets j)).link = (s.sockets j).link)
    (user : (change (s.sockets j)).userId = (s.sockets j).userId)
    (others : ∀ k, k ≠ h → next.handlers.lookup k = s.handlers.lookup k)
    (own : ∀ handler, next.handlers.lookup h = some handler →
      handler.Fits s ∧ (handler.about userId).isSome)
    (placed : j = i → ∀ entry ∈ (change (s.sockets j)).boardWorkspaces,
      s.workspaceOf entry.1 = some entry.2)
    (away : ∀ room, room ≠ room₀ → (room ∈ (change (s.sockets j)).rooms ↔ room ∈ (s.sockets j).rooms) ∧
      ((change (s.sockets j)).Records userId room ↔ (s.sockets j).Records userId room))
    (quiet : ∀ room, ¬ (j = i ∧ room₀ = room) → words' room = words room ∧
      next.calls i userId room = s.calls i userId room)
    (steady : j = i → Steady (room₀ ∈ (change (s.sockets j)).rooms)
      ((change (s.sockets j)).Records userId room₀) (words' room₀) (next.calls i userId room₀)) :
    next.Heard i userId words' := by
  have kept : s.Extends next := by
    apply Extends.of_same boards
    intro k
    rw [sockets, Function.update_apply]
    split
    · rename_i same
      subst same
      exact ⟨link, user⟩
    · exact ⟨rfl, rfl⟩
  have present : (s.sockets i).link ≠ .fresh := by simp [heard.connected]
  have linked : (next.sockets i).link = .connected := by
    rw [sockets, Function.update_apply]
    split
    · rename_i same
      subst same
      rw [link, heard.connected]
    · exact heard.connected
  refine ⟨linked, (kept.2 i present).2.trans heard.user, ?_, ?_, ?_⟩
  · intro k handler found
    by_cases same : k = h
    · subst same
      obtain ⟨fits, some_⟩ := own handler found
      exact ⟨fits.keep kept, some_⟩
    · obtain ⟨fits, some_⟩ := heard.fits k handler (others k same ▸ found)
      exact ⟨fits.keep kept, some_⟩
  · intro entry member
    rw [boards]
    by_cases same : j = i
    · apply placed same entry
      rw [sockets, ← same, Function.update_self] at member
      exact member
    · rw [sockets, Function.update_of_ne (Ne.symm same)] at member
      exact heard.placed entry member
  · intro room
    by_cases about : j = i ∧ room₀ = room
    · obtain ⟨rfl, rfl⟩ := about
      rw [sockets, Function.update_self]
      exact steady rfl
    · obtain ⟨word, calls⟩ := quiet room about
      rw [word, calls]
      have before := heard.steady room
      by_cases same : j = i
      · subst same
        have apart : room ≠ room₀ := by
          rintro rfl
          exact about ⟨rfl, rfl⟩
        obtain ⟨rooms, records⟩ := away room apart
        rw [sockets, Function.update_self, rooms, records]
        exact before
      · rw [sockets, Function.update_of_ne (Ne.symm same)]
        exact before

/-- A call goes on to its next await, or ends. -/
theorem goes_on (heard : s.Heard i userId words) (found : s.handlers.lookup h = some handler)
    (about : handler.about userId = some (j, room₀, stage)) (change : Socket → Socket)
    (stage' : Option Stage)
    (sockets : next.sockets = Function.update s.sockets j (change (s.sockets j)))
    (boards : next.workspaceOf = s.workspaceOf)
    (link : (change (s.sockets j)).link = (s.sockets j).link)
    (user : (change (s.sockets j)).userId = (s.sockets j).userId)
    (others : ∀ k, k ≠ h → next.handlers.lookup k = s.handlers.lookup k)
    (own : ∀ handler, next.handlers.lookup h = some handler →
      handler.Fits s ∧ (handler.about userId).isSome)
    (placed : j = i → ∀ entry ∈ (change (s.sockets j)).boardWorkspaces,
      s.workspaceOf entry.1 = some entry.2)
    (away : ∀ room, room ≠ room₀ → (room ∈ (change (s.sockets j)).rooms ↔ room ∈ (s.sockets j).rooms) ∧
      ((change (s.sockets j)).Records userId room ↔ (s.sockets j).Records userId room))
    (calls : ∀ room, next.calls i userId room =
      Function.update (s.calls i userId room) h (if j = i ∧ room₀ = room then stage' else none))
    (steady : j = i → Steady (room₀ ∈ (change (s.sockets j)).rooms)
      ((change (s.sockets j)).Records userId room₀) (s.hear i userId words (.resume h) room₀)
      (Function.update (s.calls i userId room₀) h stage')) :
    next.Heard i userId (s.hear i userId words (.resume h)) := by
  apply heard.turn h j room₀ change sockets boards link user others own placed away
  · intro room apart
    have silent : handler.stageOn i userId room = none := by rw [Handler.stageOn_eq about, if_neg apart]
    refine ⟨heard.deaf found (by simp [silent]), ?_⟩
    rw [calls, if_neg apart]
    apply Function.update_eq_self_iff.mpr
    rw [calls_found found, silent]
  · intro same
    rw [calls, if_pos ⟨same, rfl⟩]
    exact steady same

/-- Where a call about a room of the socket stands. -/
theorem stands (found : s.handlers.lookup h = some handler)
    (about : handler.about userId = some (i, room₀, stage)) : s.calls i userId room₀ h = some stage := by
  rw [calls_found found, Handler.stageOn_eq about, if_pos ⟨rfl, rfl⟩]

/-- The word of a call that is past its check stays what it is. -/
theorem unchanged (heard : s.Heard i userId words) (found : s.handlers.lookup h = some handler)
    (about : handler.about userId = some (i, room₀, stage)) (past : stage ≠ .asked) :
    s.hear i userId words (.resume h) room₀ = words room₀ := by
  apply heard.deaf found
  rw [Handler.stageOn_eq about, if_pos ⟨rfl, rfl⟩]
  simpa using past

/-- The access check of a join. -/
theorem checks (heard : s.Heard i userId words) (found : s.handlers.lookup h = some handler)
    (about : handler.about userId = some (j, room₀, .asked)) {after : Handler}
    (about' : after.about userId = some (j, room₀, if handler.allowedBy s then .granted else .refused))
    (fits : after.Fits s) (ordered : handler.InOrder s i userId words h) :
    (s.await h after).Heard i userId (s.hear i userId words (.resume h)) := by
  apply heard.goes_on found about id (some (if handler.allowedBy s then .granted else .refused))
  · simp [Gateway.await]
  · rfl
  · rfl
  · rfl
  · intro k other
    simp [other]
  · intro given same
    simp only [lookup_await, if_pos, Option.some.injEq] at same
    subst same
    exact ⟨fits, by simp [about']⟩
  · rintro rfl entry member
    exact heard.placed entry member
  · intro room _
    exact ⟨Iff.rfl, Iff.rfl⟩
  · intro room
    rw [calls_await, Handler.stageOn_eq about']
  · rintro rfl
    have here := stands found about
    simp only [id, hear, found]
    cases allowed : handler.allowedBy s with
    | true => simpa using (heard.steady room₀).grant here
    | false =>
        have outside := ordered _ about rfl
        simpa using (heard.steady room₀).refuse here fun last => outside last allowed

/-- A join enters its room. -/
theorem enters (heard : s.Heard i userId words) (found : s.handlers.lookup h = some handler)
    (about : handler.about userId = some (j, room₀, .granted)) (after : Handler) (room' : Room)
    (about' : after.about userId = some (j, room', .joined)) (own : j = i → room' = room₀)
    (fits : after.Fits s)
    (ordered : handler.InOrder s i userId words h) :
    ((s.modify j (·.join room₀)).await h after).Heard i userId (s.hear i userId words (.resume h)) := by
  apply heard.goes_on found about (·.join room₀) (some .joined)
  · rfl
  · rfl
  · simp only [Socket.join, apply_ite, ite_self]
  · simp only [Socket.join, apply_ite, ite_self]
  · intro k other
    simp [other, modify]
  · intro given same
    simp only [lookup_await, if_pos, Option.some.injEq] at same
    subst same
    exact ⟨fits, by simp [about']⟩
  · rintro rfl entry member
    simp only [Socket.join, apply_ite, ite_self] at member
    exact heard.placed entry member
  · intro room apart
    cases room <;> simp only [Socket.join, Socket.Records] <;> grind
  · intro room
    rw [calls_await, Handler.stageOn_eq about']
    by_cases mine : j = i
    · rw [own mine]
      rfl
    · simp only [mine, false_and, if_false]
      rfl
  · rintro rfl
    rw [heard.unchanged found about (by simp)]
    have moved := (heard.steady room₀).join (stands found about) (ordered _ about rfl)
    simp only [Socket.join, heard.connected, if_true, List.mem_cons, true_or]
    cases room₀ <;> exact moved

/-- The end of a call: the record is made, dropped or left alone. -/
theorem ends (heard : s.Heard i userId words) (found : s.handlers.lookup h = some handler)
    (about : handler.about userId = some (j, room₀, stage)) (past : stage ≠ .asked)
    (change : Socket → Socket) (answer : Reply)
    (link : (change (s.sockets j)).link = (s.sockets j).link)
    (user : (change (s.sockets j)).userId = (s.sockets j).userId)
    (same : (change (s.sockets j)).rooms = (s.sockets j).rooms)
    (placed : j = i → ∀ entry ∈ (change (s.sockets j)).boardWorkspaces,
      s.workspaceOf entry.1 = some entry.2)
    (away : ∀ room, room ≠ room₀ →
      ((change (s.sockets j)).Records userId room ↔ (s.sockets j).Records userId room))
    (steady : j = i → Steady (room₀ ∈ (s.sockets j).rooms) ((change (s.sockets j)).Records userId room₀)
      (words room₀) (Function.update (s.calls i userId room₀) h none)) :
    (((s.modify j change).finish h).reply h answer).Heard i userId
      (s.hear i userId words (.resume h)) := by
  apply heard.goes_on found about change none
  · rfl
  · rfl
  · exact link
  · exact user
  · intro k other
    simp [Gateway.reply, other, modify]
  · simp [Gateway.reply]
  · exact placed
  · intro room apart
    rw [same]
    exact ⟨Iff.rfl, away room apart⟩
  · intro room
    rw [ite_self]
    exact calls_finish
  · rintro rfl
    rw [heard.unchanged found about past, same]
    exact steady rfl

theorem resume (heard : s.Heard i userId words) (found : s.handlers.lookup h = some handler)
    (ordered : handler.InOrder s i userId words h) :
    (s.resume h handler).Heard i userId (s.hear i userId words (.resume h)) := by
  obtain ⟨fits, live⟩ := heard.fits h handler found
  have still : ∀ {k}, s.modify k id = s := by simp [modify]
  cases handler with
  | boardFind k user boardId =>
      apply heard.checks found rfl _ _ ordered
      · rfl
      · refine ⟨fits.1, ?_⟩
        intro workspaceId named
        simp only [findBoard, Option.mem_def, Option.filter_eq_some_iff] at named
        exact named.1
  | boardFound k boardId board =>
      cases board with
      | none =>
          have ended := heard.ends (j := k) found rfl (by simp) id (denied "board not found") rfl rfl rfl
            (by rintro rfl; exact heard.placed) (fun _ _ => Iff.rfl)
            (by rintro rfl; exact (heard.steady _).dismiss (stands found rfl))
          rwa [still] at ended
      | some workspaceId =>
          apply heard.enters found rfl _ _ rfl (fun _ => rfl) _ ordered
          exact ⟨fits.1, fits.2 workspaceId rfl⟩
  | boardJoined k boardId workspaceId =>
      apply heard.ends found rfl (by simp) (·.recordBoard boardId workspaceId)
      · rfl
      · rfl
      · rfl
      · rintro rfl entry member
        have old := heard.placed entry
        simp only [Socket.recordBoard, List.mem_cons] at member
        rcases member with rfl | before
        · exact fits.2
        · exact old (List.mem_of_mem_filter before)
      · intro room apart
        cases room with
        | boardRoom named =>
            have other : named ≠ boardId := by
              rintro rfl
              exact apart rfl
            simp only [Socket.Records, Socket.recordBoard, List.map_cons, List.mem_cons, List.mem_map,
              List.mem_filter]
            grind
        | userRoom _ _ => exact Iff.rfl
      · rintro rfl
        have recorded : ((s.sockets k).recordBoard boardId workspaceId).Records userId
            (.boardRoom boardId) ↔ True := by simp [Socket.Records, Socket.recordBoard]
        rw [recorded]
        exact (heard.steady _).record (stands found rfl)
          ((ordered _ rfl rfl).imp_right Gateway.Stands.underway)
  | boardLeft k boardId =>
      apply heard.ends found rfl (by simp) (·.forgetBoard boardId)
      · rfl
      · rfl
      · rfl
      · rintro rfl entry member
        exact heard.placed entry (List.mem_of_mem_filter member)
      · intro room apart
        cases room with
        | boardRoom named =>
            have other : named ≠ boardId := by
              rintro rfl
              exact apart rfl
            simp only [Socket.Records, Socket.forgetBoard, List.mem_map, List.mem_filter]
            grind
        | userRoom _ _ => exact Iff.rfl
      · rintro rfl
        have forgotten : ((s.sockets k).forgetBoard boardId).Records userId (.boardRoom boardId) ↔
            False := by simp [Socket.Records, Socket.forgetBoard]
        rw [forgotten]
        exact (heard.steady _).forget (stands found rfl)
          fun held => (ordered _ rfl rfl held).underway
  | membershipFind k user workspaceId =>
      apply heard.checks found rfl _ _ ordered
      · have same : decide ((workspaceId, user) ∈ s.members) = s.members.contains (workspaceId, user) := by simp
        rw [same]
        rfl
      · exact fits
  | membershipFound k user workspaceId membership =>
      cases membership with
      | false =>
          have ended := heard.ends (j := k) found rfl (by simp) id (denied "workspace not found") rfl rfl
            rfl (by rintro rfl; exact heard.placed) (fun _ _ => Iff.rfl)
            (by rintro rfl; exact (heard.steady _).dismiss (stands found rfl))
          rwa [still] at ended
      | true =>
          apply heard.enters found rfl (.notificationsJoined k workspaceId) _ rfl _ fits.1 ordered
          rintro rfl
          rw [Option.some.inj (heard.user.symm.trans fits.2)]
  | notificationsJoined k workspaceId =>
      apply heard.ends found rfl (by simp) (·.recordNotifications workspaceId)
      · simp only [Socket.recordNotifications, apply_ite, ite_self]
      · simp only [Socket.recordNotifications, apply_ite, ite_self]
      · simp only [Socket.recordNotifications, apply_ite, ite_self]
      · rintro rfl entry member
        simp only [Socket.recordNotifications, apply_ite, ite_self] at member
        exact heard.placed entry member
      · intro room apart
        cases room <;> simp only [Socket.Records, Socket.recordNotifications] <;> grind
      · rintro rfl
        have recorded : ((s.sockets k).recordNotifications workspaceId).Records userId
            (.userRoom workspaceId userId) ↔ True := by
          simp only [Socket.Records, Socket.recordNotifications]
          grind
        rw [recorded]
        exact (heard.steady _).record (stands found rfl)
          ((ordered _ rfl rfl).imp_right Gateway.Stands.underway)
  | notificationsLeft k workspaceId =>
      apply heard.ends found rfl (by simp) (·.forgetNotifications workspaceId)
      · rfl
      · rfl
      · rfl
      · rintro rfl
        exact heard.placed
      · intro room apart
        cases room <;> simp only [Socket.Records, Socket.forgetNotifications]
        grind
      · rintro rfl
        have forgotten : ((s.sockets k).forgetNotifications workspaceId).Records userId
            (.userRoom workspaceId userId) ↔ False := by
          simp [Socket.Records, Socket.forgetNotifications]
        rw [forgotten]
        exact (heard.steady _).forget (stands found rfl)
          fun held => (ordered _ rfl rfl held).underway
  | evicting => simp [Handler.about] at live

theorem receive (heard : s.Heard i userId words) (request : Request)
    (linked : (s.sockets j).link = .connected) (idle : h ∉ s.handlers) :
    (s.receive h j request).Heard i userId (s.hear i userId words (.receive h j request)) := by
  have none_ : s.handlers.lookup h = none := AList.lookup_eq_none.mpr idle
  have free : ∀ room, s.calls i userId room h = none := by simp [calls, none_]
  have reply : ∀ answer, (∀ room, j = i → request.room userId ≠ some room) →
      (s.reply h answer).Heard i userId (s.hear i userId words (.receive h j request)) := by
    intro answer mute
    have same : s.hear i userId words (.receive h j request) = words := by
      funext room
      simp only [hear]
      rw [if_neg]
      rintro ⟨mine, about⟩
      exact mute room mine about
    rw [same]
    exact ⟨heard.connected, heard.user, heard.fits, heard.placed, heard.steady⟩
  have asking : ∀ handler room₀, handler.Fits s → handler.about userId = some (j, room₀, .asked) →
      (j = i → request.room userId = some room₀) → request.isJoin →
        (s.await h handler).Heard i userId (s.hear i userId words (.receive h j request)) := by
    intro handler room₀ fits about named joins
    apply heard.turn h j room₀ id
    · simp [Gateway.await]
    · rfl
    · rfl
    · rfl
    · intro k other
      simp [other]
    · intro given same
      simp only [lookup_await, if_pos, Option.some.injEq] at same
      subst same
      exact ⟨fits, by simp [about]⟩
    · rintro rfl
      exact heard.placed
    · intro room _
      exact ⟨Iff.rfl, Iff.rfl⟩
    · intro room apart
      rw [calls_await, Handler.stageOn_eq about, if_neg apart]
      refine ⟨?_, Function.update_eq_self_iff.mpr (free room).symm⟩
      simp only [hear]
      rw [if_neg]
      rintro ⟨mine, target⟩
      exact apart ⟨mine, Option.some.inj ((named mine).symm.trans target)⟩
    · rintro rfl
      rw [calls_await, Handler.stageOn_eq about, if_pos ⟨rfl, rfl⟩]
      simp only [hear, named rfl, and_self, if_true, joins, id]
      exact (heard.steady room₀).ask (free room₀)
  have leaving : ∀ handler room₀, handler.Fits s →
      (∃ room', handler.about userId = some (j, room', .left) ∧ (j = i → room' = room₀)) →
      (j = i → request.room userId = some room₀) → request.isJoin = false →
        ((s.modify j (·.leave room₀)).await h handler).Heard i userId
          (s.hear i userId words (.receive h j request)) := by
    rintro handler room₀ fits ⟨room', about, own⟩ named leaves
    apply heard.turn h j room₀ (·.leave room₀)
    · rfl
    · rfl
    · rfl
    · rfl
    · intro k other
      simp [other, modify]
    · intro given same
      simp only [lookup_await, if_pos, Option.some.injEq] at same
      subst same
      exact ⟨fits, by simp [about]⟩
    · rintro rfl
      exact heard.placed
    · intro room apart
      refine ⟨by simp [Socket.leave, apart], ?_⟩
      cases room <;> exact Iff.rfl
    · intro room apart
      have elsewhere : ¬ (j = i ∧ room' = room) := by
        rintro ⟨mine, same⟩
        exact apart ⟨mine, (own mine).symm.trans same⟩
      rw [calls_await, Handler.stageOn_eq about, if_neg elsewhere]
      refine ⟨?_, Function.update_eq_self_iff.mpr (free room).symm⟩
      simp only [hear]
      rw [if_neg]
      rintro ⟨mine, target⟩
      exact apart ⟨mine, Option.some.inj ((named mine).symm.trans target)⟩
    · rintro rfl
      rw [calls_await, Handler.stageOn_eq about, if_pos ⟨rfl, own rfl⟩]
      have moved := (heard.steady room₀).leave (h := h)
      simp only [hear, named rfl, and_self, if_true, leaves, Socket.leave, List.mem_filter,
        ne_eq, not_true_eq_false, decide_false, Bool.false_eq_true, and_false, if_false]
      cases room₀ <;> exact moved
  cases request with
  | BOARD_JOIN body =>
      simp only [Gateway.receive]
      split
      · rename_i user
        apply reply
        rintro room rfl
        rw [heard.user] at user
        cases user
      · rename_i user known
        split
        · rename_i empty
          apply reply
          intro room _
          simp [Request.room, empty]
        · rename_i named
          apply asking _ (.boardRoom (body.getD ""))
          · simp [Handler.Fits, linked, known]
          · rfl
          · intro _
            simp [Request.room, named]
          · rfl
  | BOARD_LEAVE body =>
      simp only [Gateway.receive]
      split
      · rename_i empty
        apply reply
        intro room _
        simp [Request.room, empty]
      · rename_i named
        apply leaving
        · simp [Handler.Fits, linked]
        · exact ⟨_, rfl, fun _ => rfl⟩
        · intro _
          simp [Request.room, named]
        · rfl
  | NOTIFICATIONS_JOIN body =>
      simp only [Gateway.receive]
      split
      · rename_i user
        apply reply
        rintro room rfl
        rw [heard.user] at user
        cases user
      · rename_i user known
        split
        · rename_i empty
          apply reply
          intro room _
          simp [Request.room, empty]
        · rename_i named
          apply asking _ (.userRoom (body.getD "") user)
          · simp [Handler.Fits, linked, known]
          · rfl
          · rintro rfl
            rw [heard.user] at known
            cases known
            simp [Request.room, named]
          · rfl
  | NOTIFICATIONS_LEAVE body =>
      simp only [Gateway.receive]
      split
      · rename_i user
        apply reply
        rintro room rfl
        rw [heard.user] at user
        cases user
      · rename_i user known
        split
        · rename_i empty
          apply reply
          intro room _
          simp [Request.room, empty]
        · rename_i named
          have same : j = i → user = userId := by
            rintro rfl
            exact Option.some.inj (known.symm.trans heard.user)
          apply leaving
          · simp [Handler.Fits, linked]
          · refine ⟨_, rfl, ?_⟩
            intro mine
            rw [same mine]
          · intro mine
            rw [same mine]
            simp [Request.room, named]
          · rfl

/-- What another socket or the database does leaves the rooms of this one alone. -/
theorem elsewhere (heard : s.Heard i userId words) (kept : s.Extends next)
    (same : next.sockets i = s.sockets i) (handlers : next.handlers = s.handlers) :
    next.Heard i userId words := by
  refine ⟨same ▸ heard.connected, same ▸ heard.user, ?_, ?_, ?_⟩
  · intro h handler found
    obtain ⟨fits, live⟩ := heard.fits h handler (handlers ▸ found)
    exact ⟨fits.keep kept, live⟩
  · rw [same, kept.1]
    exact heard.placed
  · intro room
    have calls : next.calls i userId room = s.calls i userId room := by
      funext h
      simp only [Gateway.calls, handlers]
    rw [same, calls]
    exact heard.steady room

theorem step (heard : s.Heard i userId words) {action : Action} (plain : action.Plain i)
    (ordered : InOrder s i userId words action) (stepped : Realtime.step s action = some next) :
    next.Heard i userId (s.hear i userId words action) := by
  cases action with
  | receive h j request =>
      simp only [Realtime.step, Option.ite_none_right_eq_some, Option.some.injEq] at stepped
      obtain ⟨⟨linked, idle⟩, rfl⟩ := stepped
      exact heard.receive request linked idle
  | resume h =>
      simp only [Realtime.step, Option.map_eq_some_iff] at stepped
      obtain ⟨handler, found, rfl⟩ := stepped
      exact heard.resume found (ordered handler found)
  | connect j user =>
      simp only [Realtime.step, Option.ite_none_right_eq_some, Option.some.injEq] at stepped
      obtain ⟨fresh, rfl⟩ := stepped
      have other : i ≠ j := by
        rintro rfl
        simp [heard.connected] at fresh
      change Gateway.Heard _ i userId words
      refine heard.elsewhere ⟨rfl, ?_⟩ (by simp [modify, other]) rfl
      intro k present
      have apart : k ≠ j := by
        rintro rfl
        exact present fresh
      simp [modify, apart, present]
  | disconnect j =>
      simp only [Realtime.step, Option.ite_none_right_eq_some, Option.some.injEq] at stepped
      obtain ⟨linked, rfl⟩ := stepped
      have other : i ≠ j := Ne.symm plain
      change Gateway.Heard _ i userId words
      refine heard.elsewhere ⟨rfl, ?_⟩ (by simp [modify, other]) rfl
      intro k present
      simp only [modify, Function.update_apply]
      grind
  | createMember workspaceId user | deleteMember workspaceId user =>
      obtain rfl := Option.some.inj stepped
      exact heard.elsewhere (Extends.of_same rfl fun _ => ⟨rfl, rfl⟩) rfl rfl
  | evictUserFromWorkspace => exact plain.elim

end Gateway.Heard
end Steps

section Runs

variable {s final : Gateway} {i : Nat} {userId : Id}

/-- A socket that has just connected, with no call under way. -/
structure Gateway.Ready (s : Gateway) (i : Nat) (userId : Id) : Prop where
  connected : (s.sockets i).link = .connected
  user : (s.sockets i).userId = some userId
  rooms : (s.sockets i).rooms = []
  boards : (s.sockets i).boardWorkspaces = []
  notifications : (s.sockets i).notificationWorkspaces = []
  handlers : s.handlers = ∅

theorem Gateway.Ready.heard (ready : s.Ready i userId) : s.Heard i userId fun _ => .none_ := by
  obtain ⟨connected, user, rooms, boards, notifications, handlers⟩ := ready
  refine ⟨connected, user, ?_, ?_, ?_⟩
  · intro h handler found
    simp [handlers] at found
  · simp [boards]
  · intro room
    have calls : s.calls i userId room = fun _ => none := by
      funext h
      simp [Gateway.calls, handlers]
    have unrecorded : (s.sockets i).Records userId room ↔ False := by
      cases room <;> simp [Socket.Records, boards, notifications]
    have outside : room ∈ (s.sockets i).rooms ↔ False := by simp [rooms]
    rw [calls, unrecorded, outside]
    exact Steady.start

theorem run_heard {actions : List Action} {words : Room → Word} (heard : s.Heard i userId words)
    (plain : ∀ action ∈ actions, action.Plain i) (ordered : AllInOrder i userId s words actions)
    (ran : run s actions = some final) :
    final.Heard i userId (lastWords i userId s words actions) := by
  induction actions generalizing s words with
  | nil =>
      obtain rfl := Option.some.inj ran
      exact heard
  | cons action actions ih =>
      simp only [run, Option.bind_eq_some_iff] at ran
      obtain ⟨next, stepped, ran⟩ := ran
      have first := heard.step (plain action List.mem_cons_self) ordered.1 stepped
      have rest := ih first (fun other member => plain other (List.mem_cons_of_mem _ member))
        (ordered.2 next stepped) ran
      simpa only [lastWords, stepped] using rest

end Runs

/-- The rooms of the socket are those whose last request was a join that was allowed, and its
record is of these rooms. -/
def Gateway.Agrees (s : Gateway) (i : Nat) (userId : Id) (words : Room → Word) : Prop :=
  (∀ room, room ∈ (s.sockets i).rooms ↔ words room = .allowed) ∧
  (∀ boardId workspaceId, (boardId, workspaceId) ∈ (s.sockets i).boardWorkspaces ↔
    .boardRoom boardId ∈ (s.sockets i).rooms ∧ s.workspaceOf boardId = some workspaceId) ∧
  ∀ workspaceId, workspaceId ∈ (s.sockets i).notificationWorkspaces ↔
    .userRoom workspaceId userId ∈ (s.sockets i).rooms

/-- The board is left before the access check of its join has come back, and the join goes on. -/
def leftEarly : List Action :=
  [.receive 0 0 (.BOARD_JOIN (some "board")), .receive 1 0 (.BOARD_LEAVE (some "board")), .resume 1,
    .resume 0, .resume 0, .resume 0]

def joiner : Gateway where
  workspaceOf := boardOf
  members := [("workspace", "bob")]
  sockets _ := { link := .connected, userId := some "bob" }

theorem leave_overtakes_join :
    ¬ ∀ (s final : Gateway) (i : Nat) (userId : Id) (actions : List Action),
      s.Ready i userId → (∀ action ∈ actions, action.Plain i) → run s actions = some final →
        final.handlers = ∅ →
          final.Agrees i userId (lastWords i userId s (fun _ => .none_) actions) := by
  intro claim
  have ended : ∃ final, run joiner leftEarly = some final ∧ final.handlers.entries = [] ∧
      .boardRoom "board" ∈ (final.sockets 0).rooms ∧
        lastWords 0 "bob" joiner (fun _ => .none_) leftEarly (.boardRoom "board") = .leave :=
    ⟨_, rfl, by decide +kernel, by decide +kernel, by decide +kernel⟩
  obtain ⟨final, ran, done, held, last⟩ := ended
  have agrees := claim joiner final 0 "bob" leftEarly ⟨rfl, rfl, rfl, rfl, rfl, rfl⟩
    (by simp [leftEarly, Action.Plain]) ran (AList.ext done)
  rw [(agrees.1 _), last] at held
  cases held

/-- Once all handlers have finished, the last of join and leave stands. -/
theorem last_request_wins {s final : Gateway} {i : Nat} {userId : Id} {actions : List Action}
    (ready : s.Ready i userId) (plain : ∀ action ∈ actions, action.Plain i)
    (ordered : AllInOrder i userId s (fun _ => .none_) actions) (ran : run s actions = some final)
    (done : final.handlers = ∅) :
    final.Agrees i userId (lastWords i userId s (fun _ => .none_) actions) := by
  have heard := run_heard ready.heard plain ordered ran
  have settled := fun room => (heard.steady room).settled (by simp [Gateway.calls, done])
  refine ⟨fun room => (settled room).1, ?_, ?_⟩
  · intro boardId workspaceId
    have recorded := (settled (.boardRoom boardId)).2
    simp only [Socket.Records, List.mem_map] at recorded
    constructor
    · intro member
      exact ⟨recorded.mp ⟨_, member, rfl⟩, heard.placed _ member⟩
    · rintro ⟨held, belongs⟩
      obtain ⟨⟨named, owner⟩, member, rfl⟩ := recorded.mpr held
      have placed := heard.placed _ member
      rw [belongs] at placed
      cases placed
      exact member
  · intro workspaceId
    have recorded := (settled (.userRoom workspaceId userId)).2
    simpa [Socket.Records] using recorded

/-- A board is joined and left, and joined again. -/
def joinedTwice : List Action :=
  [.receive 0 0 (.BOARD_JOIN (some "board")), .resume 0, .resume 0, .resume 0,
    .receive 1 0 (.BOARD_LEAVE (some "board")), .resume 1,
    .receive 2 0 (.BOARD_JOIN (some "board")), .resume 2, .resume 2, .resume 2]

theorem last_request_wins_again : ∃ final, run joiner joinedTwice = some final ∧
    final.Agrees 0 "bob" (lastWords 0 "bob" joiner (fun _ => .none_) joinedTwice) := by
  have ended : ∃ final, run joiner joinedTwice = some final ∧ final.handlers.entries = [] :=
    ⟨_, rfl, by decide +kernel⟩
  obtain ⟨final, ran, done⟩ := ended
  refine ⟨final, ran, last_request_wins ⟨rfl, rfl, rfl, rfl, rfl, rfl⟩ ?_ ?_ ran (AList.ext done)⟩
  · simp [joinedTwice, Action.Plain]
  · decide +kernel

end Kurul.Realtime
