import Kurul.Realtime.Joins

/-! Sockets of a removed member. A join records the workspace of its room only after it
has joined, and an eviction goes by that record: one that runs after the access check of
a join and before its record misses the room. Where none does, and no leave drops the
record of a room that was joined again, the eviction empties every room. -/
namespace Kurul.Realtime

open Gateway

/-- A membership that has ended. Its user has no socket outside `sockets` that is in a
room of the workspace or about to join one. -/
structure Barred (s : Gateway) (workspaceId userId : Id) (sockets : Nat → Bool) : Prop where
  member : (workspaceId, userId) ∉ s.members
  rooms : ∀ i, (s.sockets i).userId = some userId → sockets i = false →
    ∀ room ∈ (s.sockets i).rooms, ¬ s.RoomOf workspaceId room
  passes : ∀ h handler, s.handlers.lookup h = some handler → ∀ pass ∈ handler.granted,
    pass.2 = workspaceId → (s.sockets pass.1).userId = some userId → sockets pass.1 = false →
      (s.sockets pass.1).link ≠ .connected

namespace Barred

variable {s next : Gateway} {workspaceId userId : Id} {sockets : Nat → Bool}

theorem fetched (consistent : s.Consistent) (member : (workspaceId, userId) ∉ s.members) :
    Barred s workspaceId userId fun i => decide ((s.sockets i).link = .connected) := by
  constructor
  · exact member
  · intro i _ absent room held
    simp [consistent.silent i (of_decide_eq_false absent)] at held
  · intro _ _ _ pass _ _ _ absent
    exact of_decide_eq_false absent

/-- A step that lets nobody join keeps the user out. -/
theorem keep (barred : Barred s workspaceId userId sockets)
    (member : (workspaceId, userId) ∉ next.members) (boards : next.workspaceOf = s.workspaceOf)
    (rooms : ∀ i, (next.sockets i).userId = some userId → sockets i = false →
      ∀ room ∈ (next.sockets i).rooms, s.RoomOf workspaceId room →
        room ∈ (s.sockets i).rooms ∧ (s.sockets i).userId = some userId)
    (passes : ∀ h handler, next.handlers.lookup h = some handler → ∀ pass ∈ handler.granted,
      pass.2 = workspaceId → (next.sockets pass.1).userId = some userId →
        (next.sockets pass.1).link = .connected →
          (s.sockets pass.1).userId = some userId ∧ (s.sockets pass.1).link = .connected ∧
            ∃ k old, s.handlers.lookup k = some old ∧ pass ∈ old.granted) :
    Barred next workspaceId userId sockets := by
  have same : next.RoomOf = s.RoomOf := by
    funext workspaceId room
    cases room <;> simp [RoomOf, boards]
  constructor
  · exact member
  · intro i user outside room held belongs
    rw [same] at belongs
    obtain ⟨before, owner⟩ := rooms i user outside room held belongs
    exact barred.rooms i owner outside room before belongs
  · intro h handler found pass granted into user outside connected
    obtain ⟨owner, alive, k, old, before, given⟩ :=
      passes h handler found pass granted into user connected
    exact barred.passes k old before pass given into owner outside alive

/-- A call takes a step. -/
theorem turn (barred : Barred s workspaceId userId sockets) {h : Nat}
    (member : next.members = s.members) (boards : next.workspaceOf = s.workspaceOf)
    (users : ∀ i, (next.sockets i).userId = (s.sockets i).userId ∧
      (next.sockets i).link = (s.sockets i).link)
    (rooms : ∀ i, (s.sockets i).userId = some userId → sockets i = false →
      ∀ room ∈ (next.sockets i).rooms, s.RoomOf workspaceId room → room ∈ (s.sockets i).rooms)
    (others : ∀ k, k ≠ h → next.handlers.lookup k = s.handlers.lookup k)
    (own : ∀ handler, next.handlers.lookup h = some handler → ∀ pass ∈ handler.granted,
      pass.2 = workspaceId → (s.sockets pass.1).userId = some userId →
        ∃ old, s.handlers.lookup h = some old ∧ pass ∈ old.granted) :
    Barred next workspaceId userId sockets := by
  apply barred.keep
  · exact member ▸ barred.member
  · exact boards
  · intro i user outside room held belongs
    rw [(users i).1] at user
    exact ⟨rooms i user outside room held belongs, user⟩
  · intro k handler found pass granted into user connected
    rw [(users pass.1).1] at user
    rw [(users pass.1).2] at connected
    refine ⟨user, connected, ?_⟩
    by_cases same : k = h
    · subst same
      obtain ⟨old, before, given⟩ := own handler found pass granted into user
      exact ⟨k, old, before, given⟩
    · exact ⟨k, handler, others k same ▸ found, granted⟩

/-- A room taken by a call whose access check has passed is not one of the workspace. -/
theorem join (barred : Barred s workspaceId userId sockets) {h i : Nat} {room : Room}
    {handler : Handler} {owner : Id} (found : s.handlers.lookup h = some handler)
    (granted : handler.granted = some (i, owner))
    (belongs : s.RoomOf workspaceId room → owner = workspaceId) {j : Nat}
    (user : (s.sockets j).userId = some userId) (outside : sockets j = false) {held : Room}
    (member : held ∈ ((s.modify i (·.join room)).sockets j).rooms)
    (of : s.RoomOf workspaceId held) : held ∈ (s.sockets j).rooms := by
  by_cases same : j = i
  · subst same
    by_cases named : s.RoomOf workspaceId room
    · have closed := barred.passes h handler found (j, owner) granted (belongs named) user outside
      simpa [Gateway.modify, Socket.join, closed] using member
    · have other : held ≠ room := by
        rintro rfl
        exact named of
      simp only [Gateway.modify, Function.update_self, Socket.join] at member
      grind
  · simpa [Gateway.modify, same] using member

theorem receive (barred : Barred s workspaceId userId sockets) {h i : Nat} (request : Request) :
    Barred (s.receive h i request) workspaceId userId sockets := by
  have awaiting : ∀ handler, handler.granted = none →
      Barred (s.await h handler) workspaceId userId sockets := by
    intro handler silent
    apply barred.turn (h := h)
    · rfl
    · rfl
    · intro _
      exact ⟨rfl, rfl⟩
    · intro i _ _ room held _
      exact held
    · intro k other
      simp [other]
    · intro given same pass granted
      simp only [lookup_await, if_pos, Option.some.injEq] at same
      simp [← same, silent] at granted
  have leaving : ∀ room handler, handler.granted = none →
      Barred ((s.modify i (·.leave room)).await h handler) workspaceId userId sockets := by
    intro room handler silent
    apply barred.turn (h := h)
    · rfl
    · rfl
    · intro j
      simp only [Gateway.await, Gateway.modify, Function.update_apply, Socket.leave]
      grind
    · intro j _ _ other held _
      simp only [Gateway.await, Gateway.modify, Function.update_apply, Socket.leave] at held
      grind
    · intro k other
      simp [other, Gateway.modify]
    · intro given same pass granted
      simp only [lookup_await, if_pos, Option.some.injEq] at same
      simp [← same, silent] at granted
  have reply : ∀ answer, Barred (s.reply h answer) workspaceId userId sockets := fun answer =>
    ⟨barred.member, barred.rooms, barred.passes⟩
  cases request with
  | BOARD_JOIN body | NOTIFICATIONS_JOIN body =>
      simp only [Gateway.receive]
      split
      · exact reply _
      · split
        · exact reply _
        · exact awaiting _ rfl
  | BOARD_LEAVE body =>
      simp only [Gateway.receive]
      split
      · exact reply _
      · exact leaving _ _ rfl
  | NOTIFICATIONS_LEAVE body =>
      simp only [Gateway.receive]
      split
      · exact reply _
      · split
        · exact reply _
        · exact leaving _ _ rfl

/-- The end of a call that leaves the rooms alone. -/
theorem finish (barred : Barred s workspaceId userId sockets) (h : Nat)
    (boards : next.workspaceOf = s.workspaceOf) (member : next.members = s.members)
    (handlers : next.handlers = s.handlers.erase h)
    (same : ∀ i, (next.sockets i).userId = (s.sockets i).userId ∧
      (next.sockets i).link = (s.sockets i).link ∧
        (next.sockets i).rooms ⊆ (s.sockets i).rooms) :
    Barred next workspaceId userId sockets := by
  have lookup : ∀ k, next.handlers.lookup k = if k = h then none else s.handlers.lookup k := by
    intro k
    rw [handlers]
    exact lookup_finish s h k
  apply barred.turn (h := h) member boards
  · intro i
    exact ⟨(same i).1, (same i).2.1⟩
  · intro i _ _ room held _
    exact (same i).2.2 held
  · intro k other
    simp [lookup, other]
  · simp [lookup]

theorem resume (barred : Barred s workspaceId userId sockets) (consistent : s.Consistent)
    {h : Nat} {handler : Handler} (found : s.handlers.lookup h = some handler) :
    Barred (s.resume h handler) workspaceId userId sockets := by
  have fits := consistent.fits h handler found
  have checked : ∀ other, (∀ pass ∈ other.granted, pass.2 = workspaceId →
      (s.sockets pass.1).userId ≠ some userId) →
      Barred (s.await h other) workspaceId userId sockets := by
    intro other refused
    apply barred.turn (h := h)
    · rfl
    · rfl
    · intro _
      exact ⟨rfl, rfl⟩
    · intro i _ _ room held _
      exact held
    · intro k apart
      simp [apart]
    · intro given same pass granted into user
      simp only [lookup_await, if_pos, Option.some.injEq] at same
      exact absurd user (refused pass (same ▸ granted) into)
  have joining : ∀ i owner room other, handler.granted = some (i, owner) →
      other.granted = some (i, owner) → (s.RoomOf workspaceId room → owner = workspaceId) →
      Barred ((s.modify i (·.join room)).await h other) workspaceId userId sockets := by
    intro i owner room other before granted belongs
    apply barred.turn (h := h)
    · rfl
    · rfl
    · intro j
      simp only [Gateway.await, Gateway.modify, Function.update_apply, Socket.join]
      grind
    · intro j user outside held member of
      exact barred.join found before belongs user outside member of
    · intro k apart
      simp [apart, Gateway.modify]
    · intro given same pass named into user
      simp only [lookup_await, if_pos, Option.some.injEq] at same
      subst given
      exact ⟨handler, found, by rw [before, ← granted]; exact named⟩
  cases handler with
  | boardFind i named boardId =>
      apply checked
      intro pass granted into user
      cases named : s.findBoard boardId named with
      | none => simp [named, Handler.granted] at granted
      | some owner =>
          simp only [named, Handler.granted, Option.mem_def, Option.some.injEq] at granted
          subst granted
          simp only [findBoard, Option.filter_eq_some_iff, decide_eq_true_eq] at named
          obtain rfl := Option.some.inj (fits.2.symm.trans user)
          exact barred.member (into ▸ named.2)
  | boardFound i boardId board =>
      cases board with
      | none => exact barred.finish h rfl rfl rfl fun _ => ⟨rfl, rfl, List.Subset.refl _⟩
      | some owner =>
          apply joining i owner
          · rfl
          · rfl
          · intro belongs
            exact Option.some.inj ((fits.2 owner rfl).symm.trans belongs)
  | membershipFind i named owner =>
      apply checked
      intro pass granted into user
      cases passed : decide ((owner, named) ∈ s.members) with
      | false => simp [passed, Handler.granted] at granted
      | true =>
          simp only [passed, Handler.granted, Option.mem_def, Option.some.injEq] at granted
          subst granted
          obtain rfl := Option.some.inj (fits.2.symm.trans user)
          exact barred.member (into ▸ of_decide_eq_true passed)
  | membershipFound i named owner membership =>
      cases membership with
      | false => exact barred.finish h rfl rfl rfl fun _ => ⟨rfl, rfl, List.Subset.refl _⟩
      | true =>
          apply joining i owner
          · rfl
          · rfl
          · exact id
  | boardJoined i boardId owner | boardLeft i boardId | notificationsJoined i owner
  | notificationsLeft i owner =>
      apply barred.finish h
      · rfl
      · rfl
      · rfl
      intro j
      simp only [Gateway.resume, Gateway.reply, Gateway.finish, Gateway.modify, Function.update_apply,
        Socket.recordBoard, Socket.forgetBoard, Socket.recordNotifications,
        Socket.forgetNotifications]
      grind
  | evicting owner named fetched =>
      apply barred.finish h
      · rfl
      · rfl
      · rfl
      intro j
      simp only [Gateway.resume, Gateway.finish, Socket.evict]
      grind

theorem step (barred : Barred s workspaceId userId sockets) (consistent : s.Consistent)
    {action : Action} (other : action ≠ .createMember workspaceId userId)
    (stepped : step s action = some next) : Barred next workspaceId userId sockets := by
  cases action with
  | connect i named =>
      simp only [Realtime.step, Option.ite_none_right_eq_some, Option.some.injEq] at stepped
      obtain ⟨fresh, rfl⟩ := stepped
      have empty := consistent.silent i (by simp [fresh])
      apply barred.keep
      · exact barred.member
      · rfl
      · intro j user outside room held belongs
        simp only [Gateway.modify, Function.update_apply] at held user ⊢
        grind
      · intro h handler found pass granted into user connected
        have apart : pass.1 ≠ i := by
          rintro rfl
          have fits := consistent.fits h handler found
          cases handler <;> simp_all [Handler.granted, Handler.Fits] <;> grind
        simp only [Gateway.modify, Function.update_apply, apart, if_false] at user connected
        exact ⟨user, connected, h, handler, found, granted⟩
  | disconnect i =>
      simp only [Realtime.step, Option.ite_none_right_eq_some, Option.some.injEq] at stepped
      obtain ⟨connected, rfl⟩ := stepped
      apply barred.keep
      · exact barred.member
      · rfl
      · intro j user outside room held belongs
        simp only [Gateway.modify, Function.update_apply] at held user ⊢
        grind
      · intro h handler found pass granted into user connected
        have apart : pass.1 ≠ i := by
          intro same
          simp [Gateway.modify, same] at connected
        simp only [Gateway.modify, Function.update_apply, apart, if_false] at user connected
        exact ⟨user, connected, h, handler, found, granted⟩
  | receive h i request =>
      simp only [Realtime.step, Option.ite_none_right_eq_some, Option.some.injEq] at stepped
      obtain ⟨-, rfl⟩ := stepped
      exact barred.receive request
  | evictUserFromWorkspace h owner named =>
      simp only [Realtime.step, Option.ite_none_right_eq_some, Option.some.injEq] at stepped
      obtain ⟨-, rfl⟩ := stepped
      apply barred.turn (h := h)
      · rfl
      · rfl
      · intro _
        exact ⟨rfl, rfl⟩
      · intro i _ _ room held _
        exact held
      · intro k apart
        simp [apart]
      · intro given same pass granted
        simp only [lookup_await, if_pos, Option.some.injEq] at same
        simp [← same, Handler.granted] at granted
  | resume h =>
      simp only [Realtime.step, Option.map_eq_some_iff] at stepped
      obtain ⟨handler, found, rfl⟩ := stepped
      exact barred.resume consistent found
  | createMember owner named =>
      obtain rfl := Option.some.inj stepped
      constructor
      · have member := barred.member
        simp only [List.mem_cons, not_or]
        grind
      · exact barred.rooms
      · exact barred.passes
  | deleteMember owner named =>
      obtain rfl := Option.some.inj stepped
      constructor
      · intro member
        exact barred.member (List.mem_of_mem_filter member)
      · exact barred.rooms
      · exact barred.passes

/-- The loop of an eviction that no join disturbs leaves no socket out. -/
theorem evicted (barred : Barred s workspaceId userId sockets) (consistent : s.Consistent)
    {h : Nat} (found : s.handlers.lookup h = some (.evicting workspaceId userId sockets))
    (settled : Settled s (.resume h)) :
    Barred (s.resume h (.evicting workspaceId userId sockets)) workspaceId userId
      fun _ => false := by
  have settled := settled _ found
  have closed : ∀ k other, s.handlers.lookup k = some other → ∀ pass ∈ other.granted,
      pass.2 = workspaceId → (s.sockets pass.1).userId = some userId →
        (s.sockets pass.1).link ≠ .connected := by
    intro k other same pass granted into user
    cases outside : sockets pass.1 with
    | false => exact barred.passes k other same pass granted into user outside
    | true =>
        have member : k ∈ s.handlers.keys :=
          AList.mem_keys.mp (AList.lookup_isSome.mp (by simp [same]))
        intro connected
        exact settled k member other same ⟨pass, granted, into, outside, user, connected⟩
  have owners : ∀ i, (((s.resume h (.evicting workspaceId userId sockets)).sockets i).userId =
      (s.sockets i).userId) ∧ ((s.resume h (.evicting workspaceId userId sockets)).sockets i).link =
        (s.sockets i).link := by
    intro i
    simp only [Gateway.resume, Gateway.finish, Socket.evict]
    grind
  constructor
  · exact barred.member
  · intro i user _ room held belongs
    rw [(owners i).1] at user
    cases outside : sockets i with
    | false =>
        simp only [Gateway.resume, Gateway.finish, outside, Bool.false_eq_true, if_false] at held
        exact barred.rooms i user outside room held belongs
    | true =>
        simp only [Gateway.resume, Gateway.finish, outside, if_true, Socket.evict, user,
          List.mem_filter, decide_eq_true_eq] at held
        obtain ⟨before, notUser, notBoard⟩ := held
        rcases consistent.tracked i room before with recorded | ⟨k, other, same, joins⟩
        · cases room with
          | boardRoom boardId => exact notBoard _ (recorded workspaceId belongs) rfl rfl
          | userRoom named owner =>
              obtain rfl := Option.some.inj ((consistent.owned i named owner before).symm.trans user)
              exact notUser (congrArg (Room.userRoom · owner) belongs)
        · have connected : (s.sockets i).link = .connected := by
            by_contra absent
            simp [consistent.silent i absent] at before
          have granted := (consistent.fits k other same).granted joins belongs
          exact closed k other same _ granted rfl user connected
  · intro k other same pass granted into user _ connected
    rw [(owners pass.1).1] at user
    rw [(owners pass.1).2] at connected
    simp only [Gateway.resume, lookup_finish] at same
    split at same
    · cases same
    · exact closed k other same pass granted into user connected

end Barred

/-- A call changes itself and sockets only. -/
theorem receive_frame (s : Gateway) (h i : Nat) (request : Request) :
    (s.receive h i request).members = s.members ∧
      ∀ k, k ≠ h → (s.receive h i request).handlers.lookup k = s.handlers.lookup k := by
  cases request <;> simp only [Gateway.receive] <;>
    (repeat' split) <;> simp +contextual [Gateway.reply, Gateway.modify] <;> rfl

theorem resume_frame (s : Gateway) (h : Nat) (handler : Handler) :
    (s.resume h handler).members = s.members ∧
      ∀ k, k ≠ h → (s.resume h handler).handlers.lookup k = s.handlers.lookup k := by
  cases handler with
  | boardFound i boardId board =>
      cases board <;> simp +contextual [Gateway.resume, Gateway.reply, Gateway.modify] <;> rfl
  | membershipFound i userId workspaceId membership =>
      cases membership <;> simp +contextual [Gateway.resume, Gateway.reply, Gateway.modify] <;> rfl
  | _ => simp +contextual [Gateway.resume, Gateway.reply, Gateway.modify]; try rfl

theorem step_waits {s next : Gateway} {action : Action} {h : Nat} {handler : Handler}
    (found : s.handlers.lookup h = some handler) (other : action ≠ .resume h)
    (stepped : step s action = some next) : next.handlers.lookup h = some handler := by
  cases action with
  | receive k i request =>
      simp only [step, Option.ite_none_right_eq_some, Option.some.injEq] at stepped
      obtain ⟨⟨-, idle⟩, rfl⟩ := stepped
      have apart : h ≠ k := by
        rintro rfl
        exact idle (AList.lookup_isSome.mp (by simp [found]))
      exact ((receive_frame s k i request).2 h apart).trans found
  | evictUserFromWorkspace k workspaceId userId =>
      simp only [step, Option.ite_none_right_eq_some, Option.some.injEq] at stepped
      obtain ⟨idle, rfl⟩ := stepped
      have apart : h ≠ k := by
        rintro rfl
        exact idle (AList.lookup_isSome.mp (by simp [found]))
      simpa [apart] using found
  | resume k =>
      simp only [step, Option.map_eq_some_iff] at stepped
      obtain ⟨current, -, rfl⟩ := stepped
      have apart : h ≠ k := by
        rintro rfl
        exact other rfl
      exact ((resume_frame s k current).2 h apart).trans found
  | connect i userId | disconnect i =>
      simp only [step, Option.ite_none_right_eq_some, Option.some.injEq] at stepped
      obtain ⟨-, rfl⟩ := stepped
      exact found
  | createMember workspaceId userId | deleteMember workspaceId userId =>
      obtain rfl := Option.some.inj stepped
      exact found

theorem step_absent {s next : Gateway} {action : Action} {workspaceId userId : Id}
    (member : (workspaceId, userId) ∉ s.members) (other : action ≠ .createMember workspaceId userId)
    (stepped : step s action = some next) : (workspaceId, userId) ∉ next.members := by
  cases action with
  | receive k i request =>
      simp only [step, Option.ite_none_right_eq_some, Option.some.injEq] at stepped
      obtain ⟨-, rfl⟩ := stepped
      exact (receive_frame s k i request).1 ▸ member
  | resume k =>
      simp only [step, Option.map_eq_some_iff] at stepped
      obtain ⟨current, -, rfl⟩ := stepped
      exact (resume_frame s k current).1 ▸ member
  | evictUserFromWorkspace | connect | disconnect =>
      simp only [step, Option.ite_none_right_eq_some, Option.some.injEq] at stepped
      obtain ⟨-, rfl⟩ := stepped
      exact member
  | createMember owner named =>
      obtain rfl := Option.some.inj stepped
      simp only [List.mem_cons, not_or]
      grind
  | deleteMember owner named =>
      obtain rfl := Option.some.inj stepped
      exact fun before => member (List.mem_of_mem_filter before)

section Runs

variable {s final : Gateway} {workspaceId userId : Id} {sockets : Nat → Bool}

theorem AllSettled.append {first second : List Action} {middle : Gateway}
    (settled : AllSettled s (first ++ second)) (ran : run s first = some middle) :
    AllSettled s first ∧ AllSettled middle second := by
  induction first generalizing s with
  | nil => exact ⟨trivial, Option.some.inj ran ▸ settled⟩
  | cons action actions ih =>
      simp only [run, Option.bind_eq_some_iff] at ran
      obtain ⟨next, stepped, ran⟩ := ran
      obtain ⟨first, rest⟩ := ih (settled.2 next stepped) ran
      refine ⟨⟨settled.1, fun other taken => ?_⟩, rest⟩
      obtain rfl := Option.some.inj (stepped.symm.trans taken)
      exact first

theorem run_consistent {actions : List Action} (consistent : s.Consistent)
    (settled : AllSettled s actions) (ran : run s actions = some final) : final.Consistent := by
  induction actions generalizing s with
  | nil => exact Option.some.inj ran ▸ consistent
  | cons action actions ih =>
      simp only [run, Option.bind_eq_some_iff] at ran
      obtain ⟨next, stepped, ran⟩ := ran
      exact ih (step_consistent consistent settled.1 stepped) (settled.2 next stepped) ran

theorem run_barred {actions : List Action} (barred : Barred s workspaceId userId sockets)
    (consistent : s.Consistent) (settled : AllSettled s actions)
    (absent : .createMember workspaceId userId ∉ actions) (ran : run s actions = some final) :
    Barred final workspaceId userId sockets := by
  induction actions generalizing s with
  | nil => exact Option.some.inj ran ▸ barred
  | cons action actions ih =>
      simp only [run, Option.bind_eq_some_iff] at ran
      obtain ⟨next, stepped, ran⟩ := ran
      simp only [List.mem_cons, not_or] at absent
      exact ih (barred.step consistent (Ne.symm absent.1) stepped)
        (step_consistent consistent settled.1 stepped) (settled.2 next stepped) absent.2 ran

/-- A call that is not resumed stays at its await. -/
theorem run_waits {actions : List Action} {h : Nat} {handler : Handler}
    (found : s.handlers.lookup h = some handler) (absent : .resume h ∉ actions)
    (ran : run s actions = some final) : final.handlers.lookup h = some handler := by
  induction actions generalizing s with
  | nil => exact Option.some.inj ran ▸ found
  | cons action actions ih =>
      simp only [run, Option.bind_eq_some_iff] at ran
      obtain ⟨next, stepped, ran⟩ := ran
      simp only [List.mem_cons, not_or] at absent
      exact ih (step_waits found (Ne.symm absent.1) stepped) absent.2 ran

theorem run_absent {actions : List Action} (member : (workspaceId, userId) ∉ s.members)
    (absent : .createMember workspaceId userId ∉ actions) (ran : run s actions = some final) :
    (workspaceId, userId) ∉ final.members := by
  induction actions generalizing s with
  | nil => exact Option.some.inj ran ▸ member
  | cons action actions ih =>
      simp only [run, Option.bind_eq_some_iff] at ran
      obtain ⟨next, stepped, ran⟩ := ran
      simp only [List.mem_cons, not_or] at absent
      exact ih (step_absent member (Ne.symm absent.1) stepped) absent.2 ran

end Runs

/-- The run ends a membership and then evicts its user, and creates no new membership. -/
def Removes (workspaceId userId : Id) (actions : List Action) : Prop :=
  ∃ before between h after,
    actions = before ++ .deleteMember workspaceId userId ::
      (between ++ .evictUserFromWorkspace h workspaceId userId :: after) ∧
    .resume h ∈ after ∧ .createMember workspaceId userId ∉ between ++ after

def boardOf : Id → Option Id
  | "board" => some "workspace"
  | _ => none

def beforeRemoval : Gateway :=
  { workspaceOf := boardOf, members := [("workspace", "bob")] }

def lateJoin : List Action :=
  [.connect 0 "bob", .receive 0 0 (.BOARD_JOIN (some "board")), .resume 0,
    .deleteMember "workspace" "bob", .evictUserFromWorkspace 1 "workspace" "bob", .resume 1,
    .resume 0, .resume 0]

/-- The eviction runs between the access check of a join and its record, and the join
ends in the room. -/
theorem eviction_misses_join :
    ¬ ∀ (s final : Gateway) (actions : List Action) (workspaceId userId : Id),
      s.Idle → run s actions = some final → Removes workspaceId userId actions →
        (∀ h handler, final.handlers.lookup h = some handler → handler.isJoin = false) →
          final.Outside workspaceId userId := by
  intro claim
  have ended : ∃ final, run beforeRemoval lateJoin = some final ∧ final.handlers.entries = [] ∧
      (final.sockets 0).userId = some "bob" ∧ .boardRoom "board" ∈ (final.sockets 0).rooms ∧
        final.RoomOf "workspace" (.boardRoom "board") :=
    ⟨_, rfl, by decide +kernel, by decide +kernel, by decide +kernel, by decide +kernel⟩
  obtain ⟨final, ran, done, user, held, belongs⟩ := ended
  have removes : Removes "workspace" "bob" lateJoin :=
    ⟨[.connect 0 "bob", .receive 0 0 (.BOARD_JOIN (some "board")), .resume 0], [], 1,
      [.resume 1, .resume 0, .resume 0], rfl, by simp, by simp⟩
  apply claim beforeRemoval final lateJoin "workspace" "bob" ⟨fun _ => ⟨rfl, rfl⟩, rfl⟩ ran removes
    _ 0 user _ held belongs
  intro h handler found
  have absent : final.handlers = ∅ := AList.ext done
  simp [absent] at found

/-- Wherever a run ends a membership and evicts its user, no socket of that user is in a
room of the workspace afterwards, whether or not its joins have finished. -/
theorem removed_sockets_leave_rooms {s final : Gateway} {actions : List Action}
    {workspaceId userId : Id} (idle : s.Idle) (settled : AllSettled s actions)
    (ran : run s actions = some final) (removes : Removes workspaceId userId actions) :
    final.Outside workspaceId userId := by
  obtain ⟨before, between, h, after, rfl, resumed, absent⟩ := removes
  simp only [List.mem_append, not_or] at absent
  simp only [run_append, run, Option.bind_eq_some_iff] at ran
  obtain ⟨start, ranBefore, deleted, stepped, removed, ranBetween, fetched, evicting, ran⟩ := ran
  obtain ⟨mid, rest, rfl, waits⟩ := List.eq_append_cons_of_mem resumed
  simp only [run_append, run, Option.bind_eq_some_iff] at ran
  obtain ⟨ready, ranMid, emptied, looped, ran⟩ := ran
  simp only [List.mem_append, List.mem_cons, not_or] at absent
  obtain ⟨settledBefore, settled⟩ := settled.append ranBefore
  obtain ⟨settledBetween, settled⟩ := (settled.2 deleted stepped).append ranBetween
  obtain ⟨settledMid, settled⟩ := (settled.2 fetched evicting).append ranMid
  have atStart := run_consistent (Gateway.Consistent.idle idle) settledBefore ranBefore
  have atDeleted := step_consistent atStart (by exact trivial) stepped
  have atRemoved := run_consistent atDeleted settledBetween ranBetween
  have atFetched := step_consistent atRemoved (by exact trivial) evicting
  have atReady := run_consistent atFetched settledMid ranMid
  have member : (workspaceId, userId) ∉ removed.members := by
    apply run_absent _ absent.1 ranBetween
    obtain rfl := Option.some.inj stepped
    simp
  have barred := (Barred.fetched atRemoved member).step atRemoved (by simp) evicting
  have waiting : fetched.handlers.lookup h = some (.evicting workspaceId userId
      fun i => decide ((removed.sockets i).link = .connected)) := by
    simp only [step, Option.ite_none_right_eq_some, Option.some.injEq] at evicting
    simp [← evicting.2]
  have barred := run_barred barred atFetched settledMid absent.2.1 ranMid
  have found := run_waits waiting waits ranMid
  have empty := barred.evicted atReady found settled.1
  simp only [step, found, Option.map_some, Option.some.injEq] at looped
  rw [looped] at empty
  have looping : step ready (.resume h) = some emptied := by simp [step, found, looped]
  have last := run_barred empty (step_consistent atReady settled.1 looping)
    (settled.2 emptied looping) absent.2.2.2 ran
  intro i user room held
  exact last.rooms i user rfl room held

/-- A member who has joined is removed and evicted. -/
def joinedBefore : List Action :=
  [.connect 0 "bob", .receive 0 0 (.BOARD_JOIN (some "board")), .resume 0, .resume 0, .resume 0,
    .deleteMember "workspace" "bob", .evictUserFromWorkspace 1 "workspace" "bob", .resume 1]

theorem removed_sockets_leave_rooms_joined :
    ∃ final, run beforeRemoval joinedBefore = some final ∧ final.Outside "workspace" "bob" := by
  refine ⟨_, rfl, removed_sockets_leave_rooms (s := beforeRemoval) ⟨fun _ => ⟨rfl, rfl⟩, rfl⟩ ?_ rfl
    ⟨[.connect 0 "bob", .receive 0 0 (.BOARD_JOIN (some "board")), .resume 0, .resume 0, .resume 0],
      [], 1, [.resume 1], rfl, by simp, by simp⟩⟩
  decide +kernel

end Kurul.Realtime
