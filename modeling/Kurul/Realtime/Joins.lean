import Kurul.Realtime.Gateway

/-! What the gateway keeps about the rooms of its sockets: every room a socket is in has
its record, or a call that is about to make it. -/
namespace Kurul.Realtime

namespace Handler

/-- The socket and the workspace of a join whose access check has passed and which has
not recorded its room. -/
def granted : Handler → Option (Nat × Id)
  | .boardFound i _ (some workspaceId) => some (i, workspaceId)
  | .boardJoined i _ workspaceId => some (i, workspaceId)
  | .membershipFound i _ workspaceId true => some (i, workspaceId)
  | .notificationsJoined i workspaceId => some (i, workspaceId)
  | _ => none

/-- A join that stands before the record of this room. -/
def joins (i : Nat) : Room → Handler → Bool
  | .boardRoom boardId, .boardJoined j id _ => j = i ∧ id = boardId
  | .userRoom workspaceId _, .notificationsJoined j id => j = i ∧ id = workspaceId
  | _, _ => false

/-- A join, from its packet to its reply. -/
def isJoin : Handler → Bool
  | .boardFind .. | .boardFound .. | .boardJoined .. | .membershipFind .. | .membershipFound ..
  | .notificationsJoined .. => true
  | _ => false

/-- What a call carries agrees with its socket and with the database. -/
def Fits (s : Gateway) : Handler → Prop
  | .boardFind i userId _ | .membershipFind i userId _ | .membershipFound i userId _ _ =>
      (s.sockets i).link ≠ .fresh ∧ (s.sockets i).userId = some userId
  | .boardFound i boardId board =>
      (s.sockets i).link ≠ .fresh ∧ ∀ workspaceId ∈ board, s.workspaceOf boardId = some workspaceId
  | .boardJoined i boardId workspaceId =>
      (s.sockets i).link ≠ .fresh ∧ s.workspaceOf boardId = some workspaceId
  | .boardLeft i _ | .notificationsJoined i _ | .notificationsLeft i _ =>
      (s.sockets i).link ≠ .fresh
  | .evicting .. => True

end Handler

namespace Gateway

/-- A room of this workspace. -/
def RoomOf (s : Gateway) (workspaceId : Id) : Room → Prop
  | .boardRoom boardId => s.workspaceOf boardId = some workspaceId
  | .userRoom named _ => named = workspaceId

instance (s : Gateway) (workspaceId : Id) : DecidablePred (s.RoomOf workspaceId)
  | .boardRoom _ | .userRoom _ _ => by unfold RoomOf; infer_instance

/-- No socket of the user is in a room of the workspace. -/
def Outside (s : Gateway) (workspaceId userId : Id) : Prop :=
  ∀ i, (s.sockets i).userId = some userId → ∀ room ∈ (s.sockets i).rooms,
    ¬ s.RoomOf workspaceId room

/-- The record an eviction goes by names this room. -/
def Recorded (s : Gateway) (i : Nat) : Room → Prop
  | .boardRoom boardId => ∀ workspaceId, s.workspaceOf boardId = some workspaceId →
      (boardId, workspaceId) ∈ (s.sockets i).boardWorkspaces
  | .userRoom workspaceId _ => workspaceId ∈ (s.sockets i).notificationWorkspaces

/-- A call is about to record this room. -/
def Pending (s : Gateway) (i : Nat) (room : Room) : Prop :=
  ∃ h handler, s.handlers.lookup h = some handler ∧ handler.joins i room

/-- A room that is held is recorded, or about to be. -/
structure Consistent (s : Gateway) : Prop where
  silent : ∀ i, (s.sockets i).link ≠ .connected → (s.sockets i).rooms = []
  fits : ∀ h handler, s.handlers.lookup h = some handler → handler.Fits s
  owned : ∀ i workspaceId userId, .userRoom workspaceId userId ∈ (s.sockets i).rooms →
    (s.sockets i).userId = some userId
  tracked : ∀ i, ∀ room ∈ (s.sockets i).rooms, s.Recorded i room ∨ s.Pending i room

/-- A gateway without sockets and calls. -/
def Idle (s : Gateway) : Prop :=
  (∀ i, (s.sockets i).link = .fresh ∧ (s.sockets i).rooms = []) ∧ s.handlers = ∅

end Gateway

/-- A join of the workspace on one of these sockets, past its access check and before
its record. -/
def Handler.MidJoin (s : Gateway) (workspaceId userId : Id) (sockets : Nat → Bool)
    (handler : Handler) : Prop :=
  ∃ pass ∈ handler.granted, pass.2 = workspaceId ∧ sockets pass.1 = true ∧
    (s.sockets pass.1).userId = some userId ∧ (s.sockets pass.1).link = .connected

/-- Where the gateway goes wrong: an eviction runs on a socket with a join of the
workspace between its access check and its record, or a leave drops the record of a room
that was joined again in the meantime. -/
def Handler.Settled (s : Gateway) : Handler → Prop
  | .evicting workspaceId userId sockets =>
      ∀ k ∈ s.handlers.keys, ∀ other ∈ s.handlers.lookup k,
        ¬ other.MidJoin s workspaceId userId sockets
  | .boardLeft i boardId => .boardRoom boardId ∈ (s.sockets i).rooms →
      ∃ k ∈ s.handlers.keys, ∃ other ∈ s.handlers.lookup k, other.joins i (.boardRoom boardId)
  | .notificationsLeft i workspaceId =>
      ∀ userId ∈ (s.sockets i).userId, .userRoom workspaceId userId ∈ (s.sockets i).rooms →
        ∃ k ∈ s.handlers.keys, ∃ other ∈ s.handlers.lookup k,
          other.joins i (.userRoom workspaceId userId)
  | _ => True

def Settled (s : Gateway) : Action → Prop
  | .resume h => ∀ handler ∈ s.handlers.lookup h, handler.Settled s
  | _ => True

/-- Every step of a run meets the condition. -/
def AllSettled (s : Gateway) : List Action → Prop
  | [] => True
  | action :: actions =>
      Settled s action ∧ ∀ next ∈ step s action, AllSettled next actions

section Decidable

variable (s : Gateway)

instance (workspaceId userId : Id) (sockets : Nat → Bool) :
    DecidablePred (Handler.MidJoin s workspaceId userId sockets) :=
  fun handler => inferInstanceAs (Decidable (∃ pass ∈ handler.granted, _))

instance : DecidablePred (Handler.Settled s)
  | .evicting .. => inferInstanceAs (Decidable (∀ k ∈ s.handlers.keys, _))
  | .boardLeft .. => inferInstanceAs (Decidable (_ → _))
  | .notificationsLeft i _ =>
      inferInstanceAs (Decidable (∀ userId ∈ (s.sockets i).userId, _ → _))
  | .boardFind .. | .boardFound .. | .boardJoined .. | .membershipFind .. | .membershipFound ..
  | .notificationsJoined .. => inferInstanceAs (Decidable True)

instance : DecidablePred (Settled s)
  | .resume h => inferInstanceAs (Decidable (∀ handler ∈ s.handlers.lookup h, handler.Settled s))
  | .connect .. | .disconnect .. | .receive .. | .evictUserFromWorkspace .. | .createMember ..
  | .deleteMember .. => inferInstanceAs (Decidable True)

instance : ∀ (s : Gateway) (actions : List Action), Decidable (AllSettled s actions)
  | _, [] => inferInstanceAs (Decidable True)
  | s, action :: actions =>
      have : ∀ next, Decidable (AllSettled next actions) := fun next =>
        instDecidableAllSettled next actions
      inferInstanceAs (Decidable (Settled s action ∧ ∀ next ∈ step s action, _))

end Decidable

namespace Gateway

@[simp] theorem lookup_await (s : Gateway) (h k : Nat) (handler : Handler) :
    (s.await h handler).handlers.lookup k = if k = h then some handler else s.handlers.lookup k := by
  unfold await
  split
  · subst k; exact AList.lookup_insert s.handlers
  · exact AList.lookup_insert_ne ‹_›

@[simp] theorem lookup_finish (s : Gateway) (h k : Nat) :
    (s.finish h).handlers.lookup k = if k = h then none else s.handlers.lookup k := by
  unfold finish
  split
  · subst k; exact AList.lookup_erase h s.handlers
  · exact AList.lookup_erase_ne ‹_›

/-- What a step leaves of a socket that was there before it. -/
def Extends (s next : Gateway) : Prop :=
  next.workspaceOf = s.workspaceOf ∧
    ∀ i, (s.sockets i).link ≠ .fresh → (next.sockets i).link ≠ .fresh ∧
      (next.sockets i).userId = (s.sockets i).userId

theorem Extends.of_same {s next : Gateway} (boards : next.workspaceOf = s.workspaceOf)
    (same : ∀ i, (next.sockets i).link = (s.sockets i).link ∧
      (next.sockets i).userId = (s.sockets i).userId) : s.Extends next :=
  ⟨boards, fun i present => ⟨(same i).1 ▸ present, (same i).2⟩⟩

end Gateway

open Gateway

theorem Handler.Fits.keep {s next : Gateway} {handler : Handler} (fits : handler.Fits s)
    (kept : s.Extends next) : handler.Fits next := by
  obtain ⟨boards, sockets⟩ := kept
  cases handler <;> simp only [Fits, boards] at fits ⊢ <;> grind

theorem Handler.Fits.granted {s : Gateway} {handler : Handler} {i : Nat} {room : Room}
    {workspaceId : Id} (fits : handler.Fits s) (joins : handler.joins i room = true)
    (belongs : s.RoomOf workspaceId room) : handler.granted = some (i, workspaceId) := by
  cases room with
  | boardRoom boardId =>
      cases handler <;> simp only [Handler.joins, Bool.false_eq_true] at joins
      obtain ⟨rfl, rfl⟩ := of_decide_eq_true joins
      obtain rfl := Option.some.inj (fits.2.symm.trans belongs)
      rfl
  | userRoom named userId =>
      cases handler <;> simp only [Handler.joins, Bool.false_eq_true] at joins
      obtain ⟨rfl, rfl⟩ := of_decide_eq_true joins
      exact congrArg (fun owner => some (_, owner)) belongs

namespace Gateway.Consistent

variable {s next : Gateway}

theorem idle (idle : s.Idle) : s.Consistent := by
  constructor
  · intro i _
    exact (idle.1 i).2
  · intro h handler found
    simp [idle.2] at found
  · intro i workspaceId userId held
    simp [(idle.1 i).2] at held
  · intro i room held
    simp [(idle.1 i).2] at held

/-- A step keeps the record if the calls it changes fit, and the rooms it leaves keep
their record and the calls that are about to make one. -/
theorem advance (consistent : s.Consistent) (kept : s.Extends next)
    (silent : ∀ i, (next.sockets i).link ≠ .connected → (next.sockets i).rooms = [])
    (calls : ∀ h handler, next.handlers.lookup h = some handler →
      s.handlers.lookup h = some handler ∨ handler.Fits next)
    (owned : ∀ i workspaceId userId, .userRoom workspaceId userId ∈ (next.sockets i).rooms →
      (next.sockets i).userId = some userId)
    (rooms : ∀ i, ∀ room ∈ (next.sockets i).rooms, next.Recorded i room ∨ next.Pending i room ∨
      room ∈ (s.sockets i).rooms ∧ (s.Recorded i room → next.Recorded i room) ∧
        ∀ h handler, s.handlers.lookup h = some handler → handler.joins i room →
          next.Recorded i room ∨ next.handlers.lookup h = some handler) :
    next.Consistent := by
  constructor
  · exact silent
  · intro h handler found
    rcases calls h handler found with old | fits
    · exact (consistent.fits h handler old).keep kept
    · exact fits
  · exact owned
  · intro i room held
    rcases rooms i room held with recorded | pending | ⟨before, records, joins⟩
    · exact .inl recorded
    · exact .inr pending
    · rcases consistent.tracked i room before with recorded | ⟨h, handler, found, joining⟩
      · exact .inl (records recorded)
      · rcases joins h handler found joining with recorded | still
        · exact .inl recorded
        · exact .inr ⟨h, handler, still, joining⟩

theorem connect (consistent : s.Consistent) {i : Nat} {userId : Id}
    (fresh : (s.sockets i).link = .fresh) :
    (s.modify i fun socket =>
      { socket with link := .connected, userId := some userId }).Consistent := by
  have empty := consistent.silent i (by simp [fresh])
  have silent := consistent.silent
  have owned := consistent.owned
  apply consistent.advance
  · constructor
    · rfl
    · intro j present
      have other : j ≠ i := by rintro rfl; exact present fresh
      simp [modify, other, present]
  · intro j
    simp only [modify, Function.update_apply]
    grind
  · intro h handler found
    exact .inl found
  · intro j
    simp only [modify, Function.update_apply]
    grind
  · intro j room held
    simp only [modify, Function.update_apply] at held
    have other : j ≠ i := by
      rintro rfl
      simp [empty] at held
    rw [if_neg other] at held
    refine .inr (.inr ⟨held, ?_, fun _ _ found _ => .inr found⟩)
    cases room <;> simp [Recorded, modify, other]

theorem disconnect (consistent : s.Consistent) {i : Nat}
    (connected : (s.sockets i).link = .connected) :
    (s.modify i fun socket => { socket with link := .closed, rooms := [] }).Consistent := by
  have silent := consistent.silent
  have owned := consistent.owned
  apply consistent.advance
  · constructor
    · rfl
    · intro j present
      simp only [modify, Function.update_apply]
      grind
  · intro j
    simp only [modify, Function.update_apply]
    grind
  · intro h handler found
    exact .inl found
  · intro j
    simp only [modify, Function.update_apply]
    grind
  · intro j room held
    simp only [modify, Function.update_apply] at held
    have other : j ≠ i := by
      rintro rfl
      simp at held
    rw [if_neg other] at held
    refine .inr (.inr ⟨held, ?_, fun _ _ found _ => .inr found⟩)
    cases room <;> simp [Recorded, modify, other]

/-- A call takes a step on its socket. -/
theorem turn (consistent : s.Consistent) {h i : Nat} (change : Socket → Socket)
    (sockets : next.sockets = Function.update s.sockets i (change (s.sockets i)))
    (boards : next.workspaceOf = s.workspaceOf)
    (others : ∀ k, k ≠ h → next.handlers.lookup k = s.handlers.lookup k)
    (own : ∀ handler, next.handlers.lookup h = some handler → handler.Fits s)
    (link : (change (s.sockets i)).link = (s.sockets i).link)
    (user : (change (s.sockets i)).userId = (s.sockets i).userId)
    (silent : (s.sockets i).link ≠ .connected → (change (s.sockets i)).rooms = [])
    (rooms : ∀ room ∈ (change (s.sockets i)).rooms, room ∉ (s.sockets i).rooms →
      next.Pending i room ∧
        ∀ workspaceId userId, room = .userRoom workspaceId userId →
          (s.sockets i).userId = some userId)
    (records : ∀ room ∈ (change (s.sockets i)).rooms, s.Recorded i room →
      next.Recorded i room ∨ next.Pending i room)
    (joins : ∀ handler, s.handlers.lookup h = some handler → ∀ j room, handler.joins j room →
      next.Recorded j room) :
    next.Consistent := by
  have at_i : next.sockets i = change (s.sockets i) := by simp [sockets]
  have off_i : ∀ j, j ≠ i → next.sockets j = s.sockets j := by simp +contextual [sockets]
  have kept : s.Extends next := Extends.of_same boards (by grind)
  apply consistent.advance kept
  · intro j absent
    by_cases same : j = i
    · subst same
      rw [at_i] at absent ⊢
      exact silent (link ▸ absent)
    · rw [off_i j same] at absent ⊢
      exact consistent.silent j absent
  · intro k handler found
    by_cases same : k = h
    · subst same
      exact .inr ((own handler found).keep kept)
    · exact .inl (others k same ▸ found)
  · intro j workspaceId userId held
    by_cases same : j = i
    · subst same
      rw [at_i] at held ⊢
      rw [user]
      by_cases before : Room.userRoom workspaceId userId ∈ (s.sockets j).rooms
      · exact consistent.owned j workspaceId userId before
      · exact (rooms _ held before).2 workspaceId userId rfl
    · rw [off_i j same] at held ⊢
      exact consistent.owned j workspaceId userId held
  · intro j room held
    have calls : ∀ k handler, s.handlers.lookup k = some handler → handler.joins j room →
        next.Recorded j room ∨ next.handlers.lookup k = some handler := by
      intro k handler found joining
      by_cases same : k = h
      · subst same
        exact .inl (joins handler found j room joining)
      · exact .inr (others k same ▸ found)
    by_cases same : j = i
    · subst same
      rw [at_i] at held
      by_cases before : room ∈ (s.sockets j).rooms
      · by_cases recorded : s.Recorded j room
        · exact (records room held recorded).imp_right .inl
        · exact .inr (.inr ⟨before, fun is => absurd is recorded, calls⟩)
      · exact .inr (.inl (rooms room held before).1)
    · rw [off_i j same] at held
      refine .inr (.inr ⟨held, ?_, calls⟩)
      cases room <;> simp [Recorded, off_i j same, boards]

/-- A call reaches another await, or its end, and leaves the sockets alone. -/
theorem rest (consistent : s.Consistent) {h : Nat} (sockets : next.sockets = s.sockets)
    (boards : next.workspaceOf = s.workspaceOf)
    (others : ∀ k, k ≠ h → next.handlers.lookup k = s.handlers.lookup k)
    (own : ∀ handler, next.handlers.lookup h = some handler → handler.Fits s)
    (joins : ∀ handler, s.handlers.lookup h = some handler → ∀ j room,
      handler.joins j room = false) :
    next.Consistent := by
  apply consistent.turn (i := 0) id (by simp [sockets]) boards others own rfl rfl
  · exact consistent.silent 0
  · intro room held absent
    exact absurd held absent
  · intro room _ recorded
    left
    cases room <;> simpa [Recorded, sockets, boards] using recorded
  · intro handler found j room joining
    simp [joins handler found j room] at joining

theorem receive (consistent : s.Consistent) {h i : Nat} (request : Request)
    (connected : (s.sockets i).link = .connected) (idle : h ∉ s.handlers) :
    (s.receive h i request).Consistent := by
  have none : s.handlers.lookup h = none := AList.lookup_eq_none.mpr idle
  have reply : ∀ answer, (s.reply h answer).Consistent := fun answer =>
    consistent.rest (h := h) rfl rfl (fun _ _ => rfl) (by simp [Gateway.reply, none]) (by simp [none])
  have leaving : ∀ room handler, handler.Fits s →
      ((s.modify i (·.leave room)).await h handler).Consistent := by
    intro room handler fits
    apply consistent.turn (h := h) (i := i) (·.leave room)
    · rfl
    · rfl
    · intro k other
      simp [other, modify]
    · intro found same
      simp only [lookup_await, if_pos, Option.some.injEq] at same
      exact same ▸ fits
    · rfl
    · rfl
    · intro absent
      exact absurd connected absent
    · intro other held absent
      exact absurd (List.mem_of_mem_filter held) absent
    · intro other _ recorded
      left
      cases other <;> simpa [Recorded, Gateway.await, modify, Function.update_apply, Socket.leave,
        apply_ite] using recorded
    · simp [none]
  have awaiting : ∀ handler, handler.Fits s → (s.await h handler).Consistent := by
    intro handler fits
    apply consistent.rest (h := h)
    · rfl
    · rfl
    · intro k other
      simp [other]
    · intro found same
      simp only [lookup_await, if_pos, Option.some.injEq] at same
      exact same ▸ fits
    · simp [none]
  cases request with
  | BOARD_JOIN body =>
      simp only [Gateway.receive]
      split
      · exact reply _
      · next userId user =>
        split
        · exact reply _
        · exact awaiting _ (by simp [Handler.Fits, connected, user])
  | BOARD_LEAVE body =>
      simp only [Gateway.receive]
      split
      · exact reply _
      · exact leaving _ _ (by simp [Handler.Fits, connected])
  | NOTIFICATIONS_JOIN body =>
      simp only [Gateway.receive]
      split
      · exact reply _
      · next userId user =>
        split
        · exact reply _
        · exact awaiting _ (by simp [Handler.Fits, connected, user])
  | NOTIFICATIONS_LEAVE body =>
      simp only [Gateway.receive]
      split
      · exact reply _
      · split
        · exact reply _
        · exact leaving _ _ (by simp [Handler.Fits, connected])

/-- The end of a call that records a room or drops a record. -/
theorem record (consistent : s.Consistent) {h i : Nat} (change : Socket → Socket) (answer : Reply)
    (link : (change (s.sockets i)).link = (s.sockets i).link)
    (user : (change (s.sockets i)).userId = (s.sockets i).userId)
    (same : (change (s.sockets i)).rooms = (s.sockets i).rooms)
    (records : ∀ room ∈ (s.sockets i).rooms, s.Recorded i room →
      (((s.modify i change).finish h).reply h answer).Recorded i room ∨
        (((s.modify i change).finish h).reply h answer).Pending i room)
    (joins : ∀ handler, s.handlers.lookup h = some handler → ∀ j room, handler.joins j room →
      (((s.modify i change).finish h).reply h answer).Recorded j room) :
    (((s.modify i change).finish h).reply h answer).Consistent := by
  apply consistent.turn (h := h) (i := i) change
  · rfl
  · rfl
  · intro k other
    simp [Gateway.reply, other, modify]
  · simp [Gateway.reply]
  · exact link
  · exact user
  · intro absent
    rw [same]
    exact consistent.silent i absent
  · intro room held absent
    exact absurd (same ▸ held) absent
  · intro room held
    exact records room (same ▸ held)
  · exact joins

/-- A call joins a room, its record comes next. -/
theorem joining (consistent : s.Consistent) {h i : Nat} {room : Room} {handler : Handler}
    (fits : handler.Fits s) (joins : handler.joins i room = true)
    (owned : ∀ workspaceId userId, room = .userRoom workspaceId userId →
      (s.sockets i).userId = some userId)
    (before : ∀ old, s.handlers.lookup h = some old → ∀ j room, old.joins j room = false) :
    ((s.modify i (·.join room)).await h handler).Consistent := by
  apply consistent.turn (h := h) (i := i) (·.join room)
  · rfl
  · rfl
  · intro k other
    simp [other, modify]
  · intro found same
    simp only [lookup_await, if_pos, Option.some.injEq] at same
    exact same ▸ fits
  · simp only [Socket.join, apply_ite, ite_self]
  · simp only [Socket.join, apply_ite, ite_self]
  · intro absent
    simpa [Socket.join, absent] using consistent.silent i absent
  · intro other held absent
    have named : other = room := by
      simp only [Socket.join] at held
      grind
    subst named
    exact ⟨⟨h, handler, by simp, joins⟩, owned⟩
  · intro other _ recorded
    left
    cases other <;> simp only [Recorded, Gateway.await, modify, Function.update_self, Socket.join]
      at recorded ⊢ <;> grind
  · intro old found j room joining
    simp [before old found j room] at joining

/-- An eviction leaves the rooms of a socket that it does not find in its record. -/
theorem evicting (consistent : s.Consistent) {h : Nat} {workspaceId userId : Id}
    {sockets : Nat → Bool}
    (found : s.handlers.lookup h = some (.evicting workspaceId userId sockets)) :
    (s.resume h (.evicting workspaceId userId sockets)).Consistent := by
  have silent := consistent.silent
  apply consistent.advance
  · apply Extends.of_same
    · rfl
    · intro i
      simp only [Gateway.resume, Gateway.finish, Socket.evict]
      grind
  · intro i
    simp only [Gateway.resume, Gateway.finish, Socket.evict]
    grind
  · intro k other same
    simp only [Gateway.resume, lookup_finish] at same
    split at same
    · cases same
    · exact .inl same
  · intro i named owner
    have owned := consistent.owned i named owner
    simp only [Gateway.resume, Gateway.finish, Socket.evict]
    grind
  · intro i room held
    right; right
    have owned := consistent.owned i
    simp only [Gateway.resume, Gateway.finish, Socket.evict] at held
    constructor
    · grind
    constructor
    · cases room <;> simp only [Recorded, Gateway.resume, Gateway.finish, Socket.evict] <;> grind
    · intro k other same joining
      right
      simp only [Gateway.resume, lookup_finish]
      split
      · subst k
        obtain rfl := Option.some.inj (found.symm.trans same)
        cases room <;> simp [Handler.joins] at joining
      · exact same

theorem resume (consistent : s.Consistent) {h : Nat} {handler : Handler}
    (found : s.handlers.lookup h = some handler) (settled : Settled s (.resume h)) :
    (s.resume h handler).Consistent := by
  have fits := consistent.fits h handler found
  have settled := settled handler found
  have finish : (∀ j room, handler.joins j room = false) → ∀ answer,
      ((s.finish h).reply h answer).Consistent := by
    intro silent answer
    apply consistent.rest (h := h)
    · rfl
    · rfl
    · intro k other
      simp [Gateway.reply, other]
    · simp [Gateway.reply]
    · intro old same
      obtain rfl := Option.some.inj (found.symm.trans same)
      exact silent
  have next : (∀ j room, handler.joins j room = false) → ∀ other, other.Fits s →
      (s.await h other).Consistent := by
    intro silent other fits
    apply consistent.rest (h := h)
    · rfl
    · rfl
    · intro k other
      simp [other]
    · intro given same
      simp only [lookup_await, if_pos, Option.some.injEq] at same
      exact same ▸ fits
    · intro old same
      obtain rfl := Option.some.inj (found.symm.trans same)
      exact silent
  have before : (∀ j room, handler.joins j room = false) →
      ∀ old, s.handlers.lookup h = some old → ∀ j room, old.joins j room = false := by
    intro silent old same
    obtain rfl := Option.some.inj (found.symm.trans same)
    exact silent
  cases handler with
  | boardFind i userId boardId =>
      apply next
      · intro j room
        cases room <;> rfl
      · constructor
        · exact fits.1
        · intro workspaceId named
          simp only [findBoard, Option.mem_def, Option.filter_eq_some_iff] at named
          exact named.1
  | boardFound i boardId board =>
      cases board with
      | none =>
          apply finish
          intro j room
          cases room <;> rfl
      | some workspaceId =>
          apply consistent.joining
          · exact ⟨fits.1, fits.2 workspaceId rfl⟩
          · simp [Handler.joins]
          · intro workspaceId userId same
            cases same
          · apply before
            intro j room
            cases room <;> rfl
  | boardJoined i boardId workspaceId =>
      apply consistent.record (·.recordBoard boardId workspaceId)
      · rfl
      · rfl
      · rfl
      · intro room held recorded
        left
        have placed : s.workspaceOf boardId = some workspaceId := fits.2
        clear finish next before settled
        cases room <;> simp only [Recorded, Gateway.reply, Gateway.finish, modify,
          Function.update_self, Socket.recordBoard] at recorded ⊢ <;> grind
      · intro old same j room joining
        obtain rfl := Option.some.inj (found.symm.trans same)
        cases room with
        | boardRoom named =>
            simp only [Handler.joins, decide_eq_true_eq] at joining
            obtain ⟨rfl, rfl⟩ := joining
            intro owner placed
            obtain rfl := Option.some.inj (fits.2.symm.trans placed)
            simp [Gateway.reply, Gateway.finish, modify, Socket.recordBoard]
        | userRoom _ _ => simp [Handler.joins] at joining
  | boardLeft i boardId =>
      apply consistent.record (·.forgetBoard boardId)
      · rfl
      · rfl
      · rfl
      · intro room held recorded
        by_cases named : room = .boardRoom boardId
        · subst named
          obtain ⟨k, _, other, pending, joining⟩ := settled held
          right
          refine ⟨k, other, ?_, joining⟩
          have apart : k ≠ h := by
            rintro rfl
            obtain rfl := Option.some.inj (found.symm.trans pending)
            simp [Handler.joins] at joining
          simpa [Gateway.reply, apart, modify] using pending
        · left
          cases room <;> simp only [Recorded, Gateway.reply, Gateway.finish, modify,
            Function.update_self, Socket.forgetBoard] at recorded ⊢ <;> grind
      · intro old same j room joining
        obtain rfl := Option.some.inj (found.symm.trans same)
        cases room <;> simp [Handler.joins] at joining
  | membershipFind i userId workspaceId =>
      apply next
      · intro j room
        cases room <;> rfl
      · exact fits
  | membershipFound i userId workspaceId membership =>
      cases membership with
      | false =>
          apply finish
          intro j room
          cases room <;> rfl
      | true =>
          apply consistent.joining
          · exact fits.1
          · simp [Handler.joins]
          · intro workspaceId userId same
            cases same
            exact fits.2
          · apply before
            intro j room
            cases room <;> rfl
  | notificationsJoined i workspaceId =>
      apply consistent.record (·.recordNotifications workspaceId)
      · simp only [Socket.recordNotifications, apply_ite, ite_self]
      · simp only [Socket.recordNotifications, apply_ite, ite_self]
      · simp only [Socket.recordNotifications, apply_ite, ite_self]
      · intro room held recorded
        left
        cases room <;> simp only [Recorded, Gateway.reply, Gateway.finish, modify,
          Function.update_self, Socket.recordNotifications] at recorded ⊢ <;> grind
      · intro old same j room joining
        obtain rfl := Option.some.inj (found.symm.trans same)
        cases room with
        | boardRoom _ => simp [Handler.joins] at joining
        | userRoom named _ =>
            simp only [Handler.joins, decide_eq_true_eq] at joining
            obtain ⟨rfl, rfl⟩ := joining
            simp only [Recorded, Gateway.reply, Gateway.finish, modify, Function.update_self,
              Socket.recordNotifications]
            grind
  | notificationsLeft i workspaceId =>
      apply consistent.record (·.forgetNotifications workspaceId)
      · rfl
      · rfl
      · rfl
      · intro room held recorded
        by_cases named : ∃ userId, room = .userRoom workspaceId userId
        · obtain ⟨userId, rfl⟩ := named
          have owner := consistent.owned i workspaceId userId held
          obtain ⟨k, _, other, pending, joining⟩ := settled userId owner held
          right
          refine ⟨k, other, ?_, joining⟩
          have apart : k ≠ h := by
            rintro rfl
            obtain rfl := Option.some.inj (found.symm.trans pending)
            simp [Handler.joins] at joining
          simpa [Gateway.reply, apart, modify] using pending
        · left
          cases room <;> simp only [Recorded, Gateway.reply, Gateway.finish, modify,
            Function.update_self, Socket.forgetNotifications] at recorded ⊢ <;> grind
      · intro old same j room joining
        obtain rfl := Option.some.inj (found.symm.trans same)
        cases room <;> simp [Handler.joins] at joining
  | evicting workspaceId userId sockets => exact consistent.evicting found

theorem members (consistent : s.Consistent) (members : List (Id × Id)) :
    { s with members }.Consistent := by
  apply consistent.advance
  · exact Extends.of_same rfl fun _ => ⟨rfl, rfl⟩
  · exact consistent.silent
  · intro h handler found
    exact .inl found
  · exact consistent.owned
  · intro i room held
    refine .inr (.inr ⟨held, ?_, fun _ _ found _ => .inr found⟩)
    cases room <;> exact id

end Gateway.Consistent

theorem step_consistent {s next : Gateway} {action : Action} (consistent : s.Consistent)
    (settled : Settled s action) (stepped : step s action = some next) : next.Consistent := by
  cases action with
  | connect i userId =>
      simp only [step, Option.ite_none_right_eq_some, Option.some.injEq] at stepped
      obtain ⟨fresh, rfl⟩ := stepped
      exact consistent.connect fresh
  | disconnect i =>
      simp only [step, Option.ite_none_right_eq_some, Option.some.injEq] at stepped
      obtain ⟨connected, rfl⟩ := stepped
      exact consistent.disconnect connected
  | receive h i request =>
      simp only [step, Option.ite_none_right_eq_some, Option.some.injEq] at stepped
      obtain ⟨⟨connected, idle⟩, rfl⟩ := stepped
      exact consistent.receive request connected idle
  | evictUserFromWorkspace h workspaceId userId =>
      simp only [step, Option.ite_none_right_eq_some, Option.some.injEq] at stepped
      obtain ⟨idle, rfl⟩ := stepped
      have none : s.handlers.lookup h = none := AList.lookup_eq_none.mpr idle
      apply consistent.rest (h := h)
      · rfl
      · rfl
      · intro k other
        simp [other]
      · intro handler same
        simp only [lookup_await, if_pos, Option.some.injEq] at same
        exact same ▸ trivial
      · simp [none]
  | resume h =>
      simp only [step, Option.map_eq_some_iff] at stepped
      obtain ⟨handler, found, rfl⟩ := stepped
      exact consistent.resume found settled
  | createMember workspaceId userId =>
      obtain rfl := Option.some.inj stepped
      exact consistent.members _
  | deleteMember workspaceId userId =>
      obtain rfl := Option.some.inj stepped
      exact consistent.members _

end Kurul.Realtime
