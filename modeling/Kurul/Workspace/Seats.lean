import Kurul.Cascade
import Kurul.Store.Tables
import Kurul.Store.Timed
import Kurul.Store.Weights
import Kurul.Workspace.InvitationService

/-! Seats over a run of invitations, acceptances, revocations and removals. A member and a
pending invitation weigh one seat each; an invitation weighs less only as time goes on, so a
seat that was free stays free until somebody takes it. -/
namespace Kurul

open Store Prog

/-- A refusal for the ceiling of a plan. -/
def Error.SeatRefusal (error : Error) : Prop :=
  ∃ limit current message, error = .planLimitExceeded limit current message

/-- Members and pending invitations. -/
def seats (workspaceId : Id) (now : DateTime) (rows : List Row) : Nat :=
  (table rows : List WorkspaceMember).countP (·.workspaceId = workspaceId) +
    (table rows : List WorkspaceInvitation).countP (pendingInvitationWhere workspaceId now)

def seatWeight (workspaceId : Id) (now : DateTime) : Row → Nat
  | .workspaceMember member => if member.workspaceId = workspaceId then 1 else 0
  | .workspaceInvitation row => if pendingInvitationWhere workspaceId now row then 1 else 0
  | _ => 0

/-- The seats without those of the invitations to one address. -/
def otherWeight (workspaceId : Id) (email : String) (now : DateTime) : Row → Nat
  | .workspaceInvitation row =>
      if pendingInvitationWhere workspaceId now row && row.email ≠ email then 1 else 0
  | row => seatWeight workspaceId now row

section Weights

variable {workspaceId : Id} {email : String} {now later : DateTime} {rows : List Row} {row : Row}
  {write : Write Row Key}

theorem seats_eq_total : seats workspaceId now rows = total (seatWeight workspaceId now) rows := by
  induction rows with
  | nil => rfl
  | cons row rest ih =>
      rw [total_cons, ← ih]
      cases row with
      | workspaceMember member =>
          simp only [seats, seatWeight, table, ofRow, List.filterMap_cons, List.countP_cons,
            decide_eq_true_eq]
          omega
      | workspaceInvitation invitation =>
          simp only [seats, seatWeight, table, ofRow, List.filterMap_cons, List.countP_cons]
          omega
      | _ => simp [seats, seatWeight, table, ofRow]

theorem pending_later (workspaceId : Id) (invitation : WorkspaceInvitation) (le : now ≤ later)
    (pending : pendingInvitationWhere workspaceId later invitation) :
    pendingInvitationWhere workspaceId now invitation := by
  simp only [pendingInvitationWhere, Bool.and_eq_true, decide_eq_true_eq] at *
  exact ⟨pending.1, lt_of_le_of_lt le pending.2⟩

/-- Nothing weighs more as time goes on. -/
theorem seatWeight_later (le : now ≤ later) (row : Row) :
    seatWeight workspaceId later row ≤ seatWeight workspaceId now row := by
  cases row with
  | workspaceInvitation invitation =>
      simp only [seatWeight]
      have := pending_later workspaceId invitation le
      grind
  | _ => simp [seatWeight]

theorem otherWeight_later (le : now ≤ later) (row : Row) :
    otherWeight workspaceId email later row ≤ otherWeight workspaceId email now row := by
  cases row with
  | workspaceInvitation invitation =>
      simp only [otherWeight]
      have := pending_later workspaceId invitation le
      grind
  | _ => simp [otherWeight, seatWeight]

theorem otherWeight_le (row : Row) :
    otherWeight workspaceId email now row ≤ seatWeight workspaceId now row := by
  cases row with
  | workspaceInvitation invitation =>
      simp only [otherWeight, seatWeight]
      grind
  | _ => simp [otherWeight]

theorem seatWeight_le_one (workspaceId : Id) (now : DateTime) (row : Row) : seatWeight workspaceId now row ≤ 1 := by
  cases row with
  | workspaceMember member =>
      simp only [seatWeight]
      split <;> omega
  | workspaceInvitation invitation =>
      simp only [seatWeight]
      split <;> omega
  | _ => exact Nat.zero_le 1

/-- A write that takes no seat and leaves the plan of the workspace alone. -/
def SeatFree (workspaceId : Id) (write : Write Row Key) : Prop :=
  (∀ now, write.adds (seatWeight workspaceId now) = 0) ∧ write.Elsewhere Workspace

end Weights

/-- What holds between any two steps: no seat beyond the ceiling. -/
structure Seated (config : PlanConfig) (workspaceId : Id) (S : Nat) (now : DateTime) (rows : List Row) :
    Prop where
  unique : UniqueKeys rows
  ceiling : (PlanLimitsService.limitsOf config workspaceId rows).seats = some S
  fits : total (seatWeight workspaceId now) rows ≤ S

/-- There is room for one more invitation to the address, were its others gone. -/
structure Room (config : PlanConfig) (workspaceId : Id) (S : Nat) (email : String) (now : DateTime)
    (rows : List Row) : Prop extends Seated config workspaceId S now rows where
  room : total (otherWeight workspaceId email now) rows + 1 ≤ S

namespace Seated

variable {config : PlanConfig} {workspaceId : Id} {S : Nat} {email : String} {now later : DateTime}
  {rows : List Row} {writes : List (Write Row Key)}

theorem wait (seated : Seated config workspaceId S now rows) (le : now ≤ later) :
    Seated config workspaceId S later rows :=
  ⟨seated.unique, seated.ceiling, (total_mono _ fun row _ => seatWeight_later le row).trans seated.fits⟩

theorem room_wait (room : Room config workspaceId S email now rows) (le : now ≤ later) :
    Room config workspaceId S email later rows := by
  refine ⟨room.wait le, ?_⟩
  have fewer : total (otherWeight workspaceId email later) rows ≤
      total (otherWeight workspaceId email now) rows :=
    total_mono _ fun row _ => otherWeight_later le row
  have := room.room
  omega

/-- Writes that take no seat. -/
theorem free (seated : Seated config workspaceId S now rows)
    (free : ∀ write ∈ writes, SeatFree workspaceId write) :
    Seated config workspaceId S now (applyAll rows writes) := by
  refine ⟨seated.unique.applyAll writes, ?_, ?_⟩
  · rw [PlanLimitsService.limitsOf_elsewhere fun write member => (free write member).2]
    exact seated.ceiling
  · have bound := total_applyAll_le (seatWeight workspaceId now) seated.unique writes
    have none_ : (writes.map (Write.adds (seatWeight workspaceId now))).sum = 0 := by
      apply List.sum_eq_zero
      simp only [List.mem_map, forall_exists_index, and_imp]
      rintro _ write member rfl
      exact (free write member).1 now
    have := seated.fits
    omega

theorem room_free (room : Room config workspaceId S email now rows)
    (free : ∀ write ∈ writes, SeatFree workspaceId write) :
    Room config workspaceId S email now (applyAll rows writes) := by
  refine ⟨room.free free, ?_⟩
  have bound := total_applyAll_le (otherWeight workspaceId email now) room.unique writes
  have none_ : (writes.map (Write.adds (otherWeight workspaceId email now))).sum = 0 := by
    apply List.sum_eq_zero
    simp only [List.mem_map, forall_exists_index, and_imp]
    rintro _ write member rfl
    have zero := (free write member).1 now
    cases write with
    | put row => exact Nat.le_zero.mp ((otherWeight_le row).trans_eq zero)
    | del k => rfl
  have := room.room
  omega

/-- The pending invitation of the address holds the seat of its successor. -/
theorem room_of_pending (seated : Seated config workspaceId S now rows) {invitation : WorkspaceInvitation}
    (stored : invitation ∈ (table rows : List WorkspaceInvitation))
    (pending : pendingInvitationWhere workspaceId now invitation) (same : invitation.email = email) :
    Room config workspaceId S email now rows := by
  refine ⟨seated, ?_⟩
  have dropped : total (otherWeight workspaceId email now) rows +
      seatWeight workspaceId now (toRow invitation) ≤ total (seatWeight workspaceId now) rows +
      otherWeight workspaceId email now (toRow invitation) :=
    total_drop _ (fun row _ => otherWeight_le row) (mem_table.mp stored)
  have one : seatWeight workspaceId now (toRow invitation) = 1 := if_pos pending
  have zero : otherWeight workspaceId email now (toRow invitation) = 0 := by
    simp [otherWeight, toRow, same]
  have := seated.fits
  omega

theorem room_of_seat (seated : Seated config workspaceId S now rows)
    (free : seats workspaceId now rows < S) : Room config workspaceId S email now rows := by
  refine ⟨seated, ?_⟩
  have fewer : total (otherWeight workspaceId email now) rows ≤
      total (seatWeight workspaceId now) rows := total_mono _ fun row _ => otherWeight_le row
  rw [seats_eq_total] at free
  omega

end Seated

/-- An invariant of the time and the rows that writes without a seat keep. -/
structure SeatInvariant (config : PlanConfig) (workspaceId : Id) (S : Nat)
    (I : DateTime → List Row → Prop) : Prop where
  seated : ∀ {now rows}, I now rows → Seated config workspaceId S now rows
  wait : ∀ {now later rows}, now ≤ later → I now rows → I later rows
  free : ∀ {now rows} {writes : List (Write Row Key)},
    (∀ write ∈ writes, SeatFree workspaceId write) → I now rows → I now (applyAll rows writes)

theorem Seated.invariant {config : PlanConfig} {workspaceId : Id} {S : Nat} :
    SeatInvariant config workspaceId S (Seated config workspaceId S) :=
  ⟨id, fun le seated => seated.wait le, fun free seated => seated.free free⟩

theorem Room.invariant {config : PlanConfig} {workspaceId : Id} {S : Nat} {email : String} :
    SeatInvariant config workspaceId S (Room config workspaceId S email) :=
  ⟨Room.toSeated, fun le room => Seated.room_wait room le, fun free room => Seated.room_free room free⟩

/-- A call or a part of one, on a clock, with refusals from outside that are no refusal for a
ceiling. -/
abbrev Timed (p : Service α) (ok : α → DateTime → List Row → List (Write Row Key) → Prop)
    (failed : Error → DateTime → List Row → List (Write Row Key) → Prop) :
    DateTime → List Row → List (Write Row Key) → Prop :=
  p.Timely Input.now (fun error => ¬ error.SeatRefusal) ok failed

/-- Nothing is under way and the invariant holds. -/
def Resting (I : DateTime → List Row → Prop) (now : DateTime) (rows : List Row)
    (W : List (Write Row Key)) : Prop :=
  I now rows ∧ W = []

/-- What the commit of the writes under way brings, and what is left without them. -/
def Underway (I J : DateTime → List Row → Prop) (now : DateTime) (rows : List Row)
    (W : List (Write Row Key)) : Prop :=
  I now rows ∧ J now (applyAll rows W)

/-- A refusal for a seat comes before any write. -/
def RefusedFrom (config : PlanConfig) (workspaceId : Id) (S : Nat) (base : List Row) (error : Error)
    (now : DateTime) (rows : List Row) (_ : List (Write Row Key)) : Prop :=
  Seated config workspaceId S now rows ∧ (error.SeatRefusal → rows = base)

theorem not_seat_of_answer {error : Error} (answer : DatabaseErrors.Answer error) : ¬ error.SeatRefusal := by
  rintro ⟨limit, current, message, rfl⟩
  rcases answer with same | same | same <;> cases same

namespace SeatInvariant

variable {config : PlanConfig} {workspaceId : Id} {S : Nat} {I : DateTime → List Row → Prop}
  {base rows : List Row} {now : DateTime} {W : List (Write Row Key)}
  (inv : SeatInvariant config workspaceId S I)
include inv

theorem refused (holds : I now rows) {error : Error} (other : ¬ error.SeatRefusal) :
    RefusedFrom config workspaceId S base error now rows W :=
  ⟨inv.seated holds, fun seat => absurd seat other⟩

theorem fresh {next : Input → Service α} {ok : α → DateTime → List Row → List (Write Row Key) → Prop}
    {failed : Error → DateTime → List Row → List (Write Row Key) → Prop} (holds : I now rows)
    (rest : ∀ given : Input, now ≤ given.now → I given.now rows → Timed (next given) ok failed given.now rows W) :
    Timed (Service.fresh.bind next) ok failed now rows W :=
  fun given later => rest given later (inv.wait later holds)

theorem read {answer : List Row → β} {next : β → Service α}
    {ok : α → DateTime → List Row → List (Write Row Key) → Prop} (holds : I now rows)
    (rest : Timed (next (answer rows)) ok (RefusedFrom config workspaceId S base) now rows []) :
    Timed ((query (Statement.read answer)).bind next) ok (RefusedFrom config workspaceId S base) now rows [] := by
  apply Prog.Timely.bind
  apply Prog.Timely.read
  · exact fun error fault => inv.refused holds fault
  · exact rest

theorem found {answer : List Row → Option β} {error : Error} (other : ¬ error.SeatRefusal)
    {next : β → Service α} {ok : α → DateTime → List Row → List (Write Row Key) → Prop}
    (holds : I now rows) (rest : ∀ b, answer rows = some b →
      Timed (next b) ok (RefusedFrom config workspaceId S base) now rows []) :
    Timed ((Prog.found (Statement.read answer) error).bind next) ok
      (RefusedFrom config workspaceId S base) now rows [] := by
  apply Prog.Timely.bind
  apply Prog.Timely.found
  · exact fun fault outside => inv.refused holds outside
  · exact inv.refused holds other
  · exact rest

theorem require {test : Bool} {error : Error} (other : ¬ error.SeatRefusal) {next : Unit → Service α}
    {ok : α → DateTime → List Row → List (Write Row Key) → Prop} (holds : I now rows)
    (rest : test = true → Timed (next ()) ok (RefusedFrom config workspaceId S base) now rows W) :
    Timed ((Prog.require test error).bind next) ok (RefusedFrom config workspaceId S base) now rows W := by
  apply Prog.Timely.bind
  apply Prog.Timely.require
  · exact fun _ => inv.refused holds other
  · exact rest

/-- One write that takes no seat. -/
theorem store {exec : Statement Row Key Error β}
    (errors : ∀ {rows error}, exec rows = .error error → DatabaseErrors.Answer error)
    (free : ∀ {rows o}, exec rows = .ok o → ∀ write ∈ o.writes, SeatFree workspaceId write)
    (holds : I now rows) :
    Timed (query exec) (fun _ => Underway I I) (RefusedFrom config workspaceId S base) now rows [] := by
  apply Prog.Timely.query
  · rintro error (fault | ran)
    · exact inv.refused holds fault
    · exact inv.refused holds (not_seat_of_answer (errors ran))
  · intro o ran
    exact ⟨holds, inv.free (free ran) holds⟩

theorem transaction {p : Service α} {J : DateTime → List Row → Prop}
    (timely : Timed p (fun _ => Underway I J) (RefusedFrom config workspaceId S base) now rows []) :
    Timed p.transaction (fun _ => Resting J) (RefusedFrom config workspaceId S base) now rows [] := by
  apply Prog.Timely.transaction
  apply timely.weaken
  · rintro _ now rows W ⟨holds, kept⟩
    exact ⟨fun error fault => inv.refused holds fault, kept, rfl⟩
  · rintro _ _ _ _ refused
    exact refused

omit inv in
theorem andThen {p : Service β} {next : β → Service α}
    {ok : α → DateTime → List Row → List (Write Row Key) → Prop}
    (first : Timed p (fun _ => Resting I) (RefusedFrom config workspaceId S base) now rows W)
    (rest : ∀ b now rows, I now rows →
      Timed (next b) ok (RefusedFrom config workspaceId S base) now rows []) :
    Timed (p.bind next) ok (RefusedFrom config workspaceId S base) now rows W := by
  apply Prog.Timely.bind
  apply first.weaken
  · rintro b now rows _ ⟨holds, rfl⟩
    exact rest b now rows holds
  · rintro _ _ _ _ refused
    exact refused

/-- The audit row of a call. -/
theorem record (input : ActivityService.RecordActivityInput) (holds : I now rows) :
    Timed (ActivityService.record input).transaction (fun _ => Resting I)
      (RefusedFrom config workspaceId S base) now rows [] := by
  apply inv.transaction
  apply inv.fresh holds
  intro given _ holds
  apply inv.store
  · exact Statement.create_error
  · intro rows o ran write member
    rw [(Statement.create_ok ran).2.1, List.mem_singleton] at member
    subst member
    exact ⟨fun _ => rfl, fun _ => by simp [key, Row.key, toRow, Write.target]⟩
  · exact holds

theorem cancelInvitation (invitationId : Id) (holds : I now rows) :
    Timed (BetterAuth.cancelInvitation invitationId) (fun _ => Resting I)
      (RefusedFrom config workspaceId S base) now rows [] := by
  apply SeatInvariant.andThen (I := I)
  · apply inv.transaction
    apply inv.store
    · exact Statement.update_error
    · intro rows o ran write member
      obtain ⟨invitation, _, _, _, written⟩ := Statement.update_ok ran
      rw [written, List.mem_singleton] at member
      subst member
      refine ⟨fun _ => ?_, fun _ => by simp [key, Row.key, toRow, Write.target]⟩
      simp [Write.adds, toRow, seatWeight, pendingInvitationWhere]
    · exact holds
  · intro _ now rows holds
    exact ⟨holds, rfl⟩

omit inv in
theorem rethrow {call : Service α} {message notFound forbidden : String}
    {ok : α → DateTime → List Row → List (Write Row Key) → Prop}
    (timely : Timed call ok (RefusedFrom config workspaceId S base) now rows W) :
    Timed (rethrowBetterAuthError call message notFound forbidden) ok
      (RefusedFrom config workspaceId S base) now rows W := by
  apply Prog.Timely.catching
  apply timely.weaken
  · exact fun _ _ _ _ fine => fine
  · rintro error now rows W ⟨seated, seat⟩
    cases error with
    | badRequest _ => exact ⟨seated, by rintro ⟨_, _, _, same⟩; cases same⟩
    | notFound _ => exact ⟨seated, by rintro ⟨_, _, _, same⟩; cases same⟩
    | forbidden _ => exact ⟨seated, by rintro ⟨_, _, _, same⟩; cases same⟩
    | _ => exact ⟨seated, seat⟩

end SeatInvariant

namespace Seated

variable {config : PlanConfig} {workspaceId : Id} {S : Nat} {email : String} {base rows : List Row}
  {now : DateTime}

/-- The check passes only where a seat is free, and refuses before anything was written. -/
theorem assertSeatAvailable (seated : Seated config workspaceId S now rows) :
    Timed (PlanLimitsService.assertSeatAvailable config workspaceId true)
      (fun _ => Resting (Room config workspaceId S email)) (RefusedFrom config workspaceId S rows) now rows [] := by
  apply invariant.read seated
  rw [seated.ceiling]
  apply Prog.Timely.bind
  apply invariant.fresh seated
  intro given _ seated
  apply invariant.read seated
  apply Prog.Timely.bind
  apply Prog.Timely.read
  · exact fun error fault => invariant.refused seated fault
  · apply Prog.Timely.require
    · intro _
      exact ⟨seated, fun _ => rfl⟩
    · intro free
      exact ⟨seated.room_of_seat (of_decide_eq_true free), rfl⟩

theorem assertMemberSeat (seated : Seated config workspaceId S now rows) :
    Timed (PlanLimitsService.assertSeatAvailable config workspaceId false)
      (fun _ => Resting (Seated config workspaceId S)) (RefusedFrom config workspaceId S rows) now rows [] := by
  apply invariant.read seated
  rw [seated.ceiling]
  apply invariant.read seated
  apply Prog.Timely.require
  · intro _
    exact ⟨seated, fun _ => rfl⟩
  · intro _
    exact ⟨seated, rfl⟩

theorem putInvitation {old new : WorkspaceInvitation} (seated : Seated config workspaceId S now rows)
    (stored : old ∈ (table rows : List WorkspaceInvitation)) (same : old.id = new.id)
    (pending : pendingInvitationWhere workspaceId now old) :
    Seated config workspaceId S now (applyAll rows [.put (toRow new)]) := by
  refine ⟨seated.unique.applyAll _, ?_, ?_⟩
  · rw [PlanLimitsService.limitsOf_elsewhere]
    · exact seated.ceiling
    · intro write member
      rw [List.mem_singleton] at member
      subst member
      exact fun _ => by simp [key, Row.key, toRow, Write.target]
  · have keys : key (toRow old : Row) = key (toRow new : Row) := congrArg Key.workspaceInvitation same
    have replaced := total_put_old (seatWeight workspaceId now) seated.unique (mem_table.mp stored) keys
    have one : seatWeight workspaceId now (toRow old) = 1 := if_pos pending
    have most := seatWeight_le_one workspaceId now (toRow new)
    have := seated.fits
    simp only [applyAll]
    omega

/-- With no pending invitation of the address, the others are all there are. -/
theorem total_other (none_ : ∀ invitation ∈ (table rows : List WorkspaceInvitation),
    ¬ (pendingInvitationWhere workspaceId now invitation && invitation.email = email) = true) :
    total (seatWeight workspaceId now) rows ≤ total (otherWeight workspaceId email now) rows := by
  apply total_mono
  intro row member
  cases row with
  | workspaceInvitation invitation =>
      have := none_ invitation (mem_table.mpr member)
      simp only [seatWeight, otherWeight]
      grind
  | _ => exact le_rfl

theorem putNew {row : Row} (room : total (seatWeight workspaceId now) rows + seatWeight workspaceId now row ≤ S)
    (seated : Seated config workspaceId S now rows) (absent : ∀ other ∈ rows, key other ≠ key row)
    (elsewhere : (Write.put row : Write Row Key).Elsewhere Workspace) :
    Seated config workspaceId S now (applyAll rows [.put row]) := by
  refine ⟨seated.unique.applyAll _, ?_, ?_⟩
  · rw [PlanLimitsService.limitsOf_elsewhere]
    · exact seated.ceiling
    · intro write member
      rw [List.mem_singleton] at member
      subst member
      exact elsewhere
  · simp only [applyAll, total_put_new _ absent]
    exact room

theorem invitationRow_injective : Function.Injective (toRow : WorkspaceInvitation → Row) := toRow_injective

/-- The invitation of the address with a new expiry, or one more where it has none. -/
theorem createInvitation {expiresIn : Int} {inviterId : Id} {role : MemberRole}
    (room : Room config workspaceId S email now rows) :
    Timed (BetterAuth.createInvitation expiresIn workspaceId inviterId email role)
      (fun _ => Resting (Seated config workspaceId S)) (RefusedFrom config workspaceId S base) now rows [] := by
  apply Room.invariant.transaction
  apply Room.invariant.fresh room
  intro given _ room
  apply Room.invariant.read room
  cases found : (table rows : List WorkspaceInvitation).find? (fun row =>
      pendingInvitationWhere workspaceId given.now row && row.email = email) with
  | some invitation =>
      dsimp only
      have pending := List.find?_some found
      rw [Bool.and_eq_true] at pending
      have stored := List.mem_of_find?_eq_some found
      apply Prog.Timely.query
      · rintro error (fault | ran)
        · exact Room.invariant.refused room fault
        · exact Room.invariant.refused room (not_seat_of_answer (Statement.update_error ran))
      · intro o ran
        obtain ⟨old, present, same, _, written⟩ := Statement.update_ok ran
        have own : old = invitation := by
          apply invitationRow_injective
          apply room.unique.eq_of_key (mem_table.mp present) (mem_table.mp stored)
          exact congrArg Key.workspaceInvitation (of_decide_eq_true same)
        subst own
        refine ⟨room, ?_⟩
        rw [written]
        exact room.putInvitation stored rfl pending.1
  | none =>
      dsimp only
      apply Prog.Timely.query
      · rintro error (fault | ran)
        · exact Room.invariant.refused room fault
        · exact Room.invariant.refused room (not_seat_of_answer (Statement.create_error ran))
      · intro o ran
        obtain ⟨_, written, absent⟩ := Statement.create_ok ran
        refine ⟨room, ?_⟩
        rw [written]
        apply putNew _ room.toSeated absent
        · exact fun _ => by simp [key, Row.key, toRow, Write.target]
        · have others := total_other (List.find?_eq_none.mp found)
          have most := seatWeight_le_one workspaceId given.now (toRow
            ({ id := given.id, email, inviterId, workspaceId, status := .pending, role := some role
               expiresAt := given.now + expiresIn } : WorkspaceInvitation))
          have := room.room
          omega

/-- The seat of the invitation becomes the member's. -/
theorem acceptInvitation {invitationId userId : Id} (seated : Seated config workspaceId S now rows) :
    Timed (BetterAuth.acceptInvitation invitationId userId)
      (fun _ => Resting (Seated config workspaceId S)) (RefusedFrom config workspaceId S base) now rows [] := by
  apply invariant.transaction
  apply invariant.fresh seated
  intro given _ seated
  apply invariant.found (by rintro ⟨_, _, _, same⟩; cases same) seated
  intro invitation found
  have stored := List.mem_of_find?_eq_some found
  have live := List.find?_some found
  simp only [Bool.and_eq_true, decide_eq_true_eq] at live
  apply Prog.Timely.bind
  apply Prog.Timely.query
  · rintro error (fault | ran)
    · exact invariant.refused seated fault
    · exact invariant.refused seated (not_seat_of_answer (Statement.update_error ran))
  intro o ran
  obtain ⟨old, present, same, _, written⟩ := Statement.update_ok ran
  have own : old = invitation := by
    apply invitationRow_injective
    apply seated.unique.eq_of_key (mem_table.mp present) (mem_table.mp stored)
    exact congrArg Key.workspaceInvitation (of_decide_eq_true same)
  subst own
  apply Prog.Timely.query
  · rintro error (fault | ran)
    · exact invariant.refused seated fault
    · exact invariant.refused seated (not_seat_of_answer (Statement.create_error ran))
  intro o' ran'
  obtain ⟨_, written', absent⟩ := Statement.create_ok ran'
  refine ⟨seated, ?_⟩
  rw [written, written', List.nil_append, applyAll_append]
  rw [written, List.nil_append] at absent
  have free : ∀ write ∈ [(Write.put (toRow { old with status := InvitationStatus.accepted }) : Write Row Key)],
      SeatFree workspaceId write := by
    intro write member
    rw [List.mem_singleton] at member
    subst member
    refine ⟨fun _ => ?_, fun _ => by simp [key, Row.key, toRow, Write.target]⟩
    simp [Write.adds, toRow, seatWeight, pendingInvitationWhere]
  apply putNew _ (seated.free free) absent
  · exact fun _ => by simp [key, Row.key, toRow, Write.target]
  · have keys : key (toRow old : Row) =
        key (toRow { old with status := InvitationStatus.accepted } : Row) := rfl
    have replaced := total_put_old (seatWeight workspaceId given.now) seated.unique (mem_table.mp stored)
      keys
    have gone : seatWeight workspaceId given.now
        (toRow { old with status := InvitationStatus.accepted }) = 0 := by
      simp [toRow, seatWeight, pendingInvitationWhere]
    have held : seatWeight workspaceId given.now (toRow old) =
        if old.workspaceId = workspaceId then 1 else 0 := by
      simp [toRow, seatWeight, pendingInvitationWhere, live]
    have member : seatWeight workspaceId given.now (toRow ({
        id := given.id
        workspaceId := old.workspaceId
        userId
        role := old.role.getD .GUEST } : WorkspaceMember)) = if old.workspaceId = workspaceId then 1 else 0 := rfl
    have := seated.fits
    simp only [applyAll]
    omega

/-- The invitations that a role change replaces. -/
theorem cancelAll {pending : List WorkspaceInvitation} {message : String}
    (room : Room config workspaceId S email now rows) :
    Timed (forEach pending fun invitation =>
        rethrowBetterAuthError (BetterAuth.cancelInvitation invitation.id) message)
      (fun _ => Resting (Room config workspaceId S email)) (RefusedFrom config workspaceId S base) now rows [] := by
  apply Prog.Timely.forEach (I := Resting (Room config workspaceId S email))
  · exact ⟨room, rfl⟩
  · rintro invitation _ now rows _ ⟨room, rfl⟩
    apply SeatInvariant.rethrow
    exact Room.invariant.cancelInvitation invitation.id room

theorem createInvitation_call {invitations : InvitationConfig} {actorId : Id} {dto : CreateInvitationDto}
    {delivery : Option String} (plan : invitations.plan = config)
    (seated : Seated config workspaceId S now rows) :
    Timed (WorkspaceInvitationService.createInvitation invitations workspaceId actorId dto delivery)
      (fun _ => Resting (Seated config workspaceId S)) (RefusedFrom config workspaceId S rows) now rows [] := by
  apply invariant.require (by rintro ⟨_, _, _, same⟩; cases same) seated
  intro _
  apply Prog.Timely.bind
  apply invariant.fresh seated
  intro given _ seated
  apply Prog.Timely.read
  · exact fun error fault => invariant.refused seated fault
  apply SeatInvariant.andThen (I := Room config workspaceId S (invitations.toLowerCase dto.email))
  · split
    · rw [plan]
      exact seated.assertSeatAvailable
    · rename_i some_
      rw [List.isEmpty_iff, List.filter_eq_nil_iff] at some_
      push Not at some_
      obtain ⟨invitation, stored, both⟩ := some_
      rw [Bool.and_eq_true, decide_eq_true_eq] at both
      exact ⟨seated.room_of_pending stored both.1 both.2, rfl⟩
  intro _ now rows room
  apply SeatInvariant.andThen (I := Room config workspaceId S (invitations.toLowerCase dto.email))
  · split
    · exact cancelAll room
    · exact ⟨room, rfl⟩
  intro _ now rows room
  apply SeatInvariant.andThen (I := Seated config workspaceId S)
  · apply SeatInvariant.rethrow
    exact createInvitation room
  intro invitation now rows seated
  apply invariant.require (by rintro ⟨_, _, _, same⟩; cases same) seated
  intro _
  apply SeatInvariant.andThen (invariant.record _ seated)
  intro _ now rows seated
  exact ⟨seated, rfl⟩

theorem revokeInvitation_call {actorId invitationId : Id} (seated : Seated config workspaceId S now rows) :
    Timed (WorkspaceInvitationService.revokeInvitation workspaceId actorId invitationId)
      (fun _ => Resting (Seated config workspaceId S)) (RefusedFrom config workspaceId S rows) now rows [] := by
  apply invariant.found (by rintro ⟨_, _, _, same⟩; cases same) seated
  intro invitation _
  apply SeatInvariant.andThen (I := Seated config workspaceId S)
  · apply SeatInvariant.rethrow
    exact invariant.cancelInvitation invitationId seated
  intro _ now rows seated
  apply SeatInvariant.andThen (invariant.record _ seated)
  intro _ now rows seated
  exact ⟨seated, rfl⟩

theorem acceptInvitation_call {invitations : InvitationConfig} {invitationId userId : Id}
    (plan : invitations.plan = config) (seated : Seated config workspaceId S now rows) :
    Timed (WorkspaceInvitationService.acceptInvitation invitations workspaceId invitationId userId)
      (fun _ => Resting (Seated config workspaceId S)) (RefusedFrom config workspaceId S rows) now rows [] := by
  apply invariant.found (by rintro ⟨_, _, _, same⟩; cases same) seated
  intro _ _
  apply SeatInvariant.andThen (I := Seated config workspaceId S)
  · rw [plan]
    exact seated.assertMemberSeat
  intro _ now rows seated
  apply SeatInvariant.andThen (I := Seated config workspaceId S)
  · apply SeatInvariant.rethrow
    exact acceptInvitation seated
  intro member now rows seated
  apply invariant.found (by rintro ⟨_, _, _, same⟩; cases same) seated
  intro user _
  apply SeatInvariant.andThen (invariant.record _ seated)
  intro _ now rows seated
  exact ⟨seated, rfl⟩

theorem deleteMember {memberId : Id} (seated : Seated config workspaceId S now rows) :
    Timed (BetterAuth.deleteMember workspaceId memberId)
      (fun _ => Resting (Seated config workspaceId S)) (RefusedFrom config workspaceId S base) now rows [] := by
  apply SeatInvariant.andThen (I := Seated config workspaceId S)
  · apply invariant.transaction
    apply invariant.store
    · exact Statement.delete_error
    · intro rows o ran write member
      obtain ⟨membership, _, _, _, written⟩ := Statement.delete_ok ran
      rw [written] at member
      have deep : ∀ k ∈ [key (toRow membership : Row)], 4 ≤ k.depth := by
        intro k own
        rw [List.mem_singleton] at own
        subst own
        exact Nat.le_refl 4
      rcases deletion_writes deep member with ⟨k, rfl, below⟩ | ⟨activity, rfl⟩ | ⟨notification, rfl⟩
      · refine ⟨fun _ => rfl, fun workspace same => ?_⟩
        rw [show k = Key.workspace workspace.id from same.symm] at below
        exact absurd below (by simp [Key.depth])
      · exact ⟨fun _ => rfl, fun _ => by simp [key, Row.key, toRow, Write.target]⟩
      · exact ⟨fun _ => rfl, fun _ => by simp [key, Row.key, toRow, Write.target]⟩
    · exact seated
  · intro _ now rows seated
    exact ⟨seated, rfl⟩

theorem revokeAllForMember {userId : Id} (seated : Seated config workspaceId S now rows) :
    Timed (TokenService.revokeAllForMember workspaceId userId)
      (fun _ => Resting (Seated config workspaceId S)) (RefusedFrom config workspaceId S base) now rows [] := by
  apply invariant.fresh seated
  intro clock _ seated
  apply invariant.transaction
  apply invariant.store
  · exact Statement.updateMany_error
  · intro rows o ran write member
    rw [(Statement.updateMany_ok ran).2] at member
    obtain ⟨token, _, rfl⟩ := List.mem_map.mp member
    exact ⟨fun _ => rfl, fun _ => by simp [key, Row.key, toRow, Write.target]⟩
  · exact seated

theorem assertMayRemove {target : MemberRow} {actor : WorkspaceMember}
    (seated : Seated config workspaceId S now rows) :
    Timed (WorkspaceMemberService.assertMayRemove workspaceId target actor)
      (fun _ => Resting (Seated config workspaceId S)) (RefusedFrom config workspaceId S base) now rows [] := by
  unfold WorkspaceMemberService.assertMayRemove
  split
  · apply invariant.require (by rintro ⟨_, _, _, same⟩; cases same) seated
    intro _
    apply Prog.Timely.bind
    apply invariant.read seated
    apply Prog.Timely.require
    · exact fun _ => invariant.refused seated (by rintro ⟨_, _, _, same⟩; cases same)
    · exact fun _ => ⟨seated, rfl⟩
  · exact ⟨seated, rfl⟩

theorem removeMember_call {targetUserId : Id} {actor : WorkspaceMember}
    (seated : Seated config workspaceId S now rows) :
    Timed (WorkspaceMemberService.removeMember workspaceId targetUserId actor)
      (fun _ => Resting (Seated config workspaceId S)) (RefusedFrom config workspaceId S rows) now rows [] := by
  apply invariant.require (by rintro ⟨_, _, _, same⟩; cases same) seated
  intro _
  apply invariant.found (by rintro ⟨_, _, _, same⟩; cases same) seated
  intro target _
  apply SeatInvariant.andThen (assertMayRemove seated)
  intro _ now rows seated
  apply SeatInvariant.andThen (I := Seated config workspaceId S)
  · apply Prog.Timely.catching
    apply (deleteMember seated).weaken
    · exact fun _ _ _ _ done => done
    · rintro error now rows W ⟨seated, seat⟩
      split
      · exact ⟨seated, by rintro ⟨_, _, _, same⟩; cases same⟩
      · exact ⟨seated, seat⟩
  intro _ now rows seated
  apply SeatInvariant.andThen (invariant.record _ seated)
  intro _ now rows seated
  apply SeatInvariant.andThen (revokeAllForMember seated)
  intro _ now rows seated
  exact ⟨seated, rfl⟩

end Seated

/-- The calls that take or give back seats. -/
inductive SeatCall where
  | createInvitation (actorId : Id) (dto : CreateInvitationDto) (delivery : Option String)
  | revokeInvitation (actorId invitationId : Id)
  | acceptInvitation (invitationId userId : Id)
  | removeMember (targetUserId : Id) (actor : WorkspaceMember)

def SeatCall.prog (invitations : InvitationConfig) (workspaceId : Id) : SeatCall → Service Unit
  | .createInvitation actorId dto delivery => do
      let _ ← WorkspaceInvitationService.createInvitation invitations workspaceId actorId dto delivery
  | .revokeInvitation actorId invitationId =>
      WorkspaceInvitationService.revokeInvitation workspaceId actorId invitationId
  | .acceptInvitation invitationId userId => do
      let _ ← WorkspaceInvitationService.acceptInvitation invitations workspaceId invitationId userId
  | .removeMember targetUserId actor => WorkspaceMemberService.removeMember workspaceId targetUserId actor

/-- A call with what it is given, or the clock. -/
inductive SeatAction where
  | call (call : SeatCall) (oracle : Nat → Choice Input Error)
  | clock (now : DateTime)

structure SeatState where
  rows : List Row
  now : DateTime

namespace SeatState

variable (invitations : InvitationConfig) (workspaceId : Id)

/-- What a call answers, and the rows and the time at its end. -/
def answer (s : SeatState) (call : SeatCall) (oracle : Nat → Choice Input Error) :
    Except Error Unit × SeatState :=
  let (result, ended) := (call.prog invitations workspaceId).run oracle { rows := s.rows }
  (result, { rows := ended.rows, now := (oracle ended.turn).value.now })

def step (s : SeatState) : SeatAction → SeatState
  | .call call oracle => (s.answer invitations workspaceId call oracle).2
  | .clock now => { s with now }

/-- The time does not go back, and no refusal from elsewhere is one for a ceiling. -/
def InOrder (s : SeatState) : SeatAction → Prop
  | .call _ oracle => Given Input.now (fun error => ¬ error.SeatRefusal) oracle 0 s.now
  | .clock now => s.now ≤ now

def run (s : SeatState) : List SeatAction → SeatState
  | [] => s
  | action :: rest => (s.step invitations workspaceId action).run rest

def AllInOrder (s : SeatState) : List SeatAction → Prop
  | [] => True
  | action :: rest => s.InOrder action ∧ (s.step invitations workspaceId action).AllInOrder rest

variable {invitations workspaceId} {s : SeatState} {S : Nat}

theorem seated_call (call : SeatCall)
    (seated : Seated invitations.plan workspaceId S s.now s.rows) :
    Timed (call.prog invitations workspaceId)
      (fun _ => Resting (Seated invitations.plan workspaceId S))
      (RefusedFrom invitations.plan workspaceId S s.rows) s.now s.rows [] := by
  cases call with
  | createInvitation actorId dto delivery =>
      apply SeatInvariant.andThen (seated.createInvitation_call rfl)
      exact fun _ _ _ seated => ⟨seated, rfl⟩
  | revokeInvitation actorId invitationId => exact seated.revokeInvitation_call
  | acceptInvitation invitationId userId =>
      apply SeatInvariant.andThen (seated.acceptInvitation_call rfl)
      exact fun _ _ _ seated => ⟨seated, rfl⟩
  | removeMember targetUserId actor => exact seated.removeMember_call

/-- A call keeps the seats below the ceiling, and one refused for a seat changes nothing. -/
theorem seated_answer {call : SeatCall} {oracle : Nat → Choice Input Error}
    (seated : Seated invitations.plan workspaceId S s.now s.rows)
    (given : Given Input.now (fun error => ¬ error.SeatRefusal) oracle 0 s.now) :
    let (result, next) := s.answer invitations workspaceId call oracle
    Seated invitations.plan workspaceId S next.now next.rows ∧
      ∀ error, result = .error error → error.SeatRefusal → next.rows = s.rows := by
  obtain ⟨now, _, later, ended⟩ := (seated_call call seated).run
    (s := { rows := s.rows }) given
  have time := later.later _ (Nat.le_refl _)
  rcases ended with ⟨value, success, kept, _⟩ | ⟨error, refused, kept, seat⟩
  · refine ⟨kept.wait time, fun error failed => ?_⟩
    have : Except.ok value = Except.error error := success.symm.trans failed
    cases this
  · refine ⟨kept.wait time, fun error' failed full => seat ?_⟩
    have : Except.error error = Except.error error' := refused.symm.trans failed
    cases this
    exact full

theorem seated_run {actions : List SeatAction}
    (seated : Seated invitations.plan workspaceId S s.now s.rows)
    (ordered : s.AllInOrder invitations workspaceId actions) :
    Seated invitations.plan workspaceId S (s.run invitations workspaceId actions).now
      (s.run invitations workspaceId actions).rows := by
  induction actions generalizing s with
  | nil => exact seated
  | cons action rest ih =>
      apply ih _ ordered.2
      cases action with
      | call call oracle => exact (seated_answer seated ordered.1).1
      | clock now => exact seated.wait ordered.1

end SeatState

/-- Seats are never oversold. -/
theorem seats_le_ceiling (invitations : InvitationConfig) (workspaceId : Id) (S : Nat) (s : SeatState)
    (unique : UniqueKeys s.rows)
    (ceiling : (PlanLimitsService.limitsOf invitations.plan workspaceId s.rows).seats = some S)
    (fits : seats workspaceId s.now s.rows ≤ S) (actions : List SeatAction)
    (ordered : s.AllInOrder invitations workspaceId actions) :
    let reached := s.run invitations workspaceId actions
    seats workspaceId reached.now reached.rows ≤ S ∧
      ∀ call oracle, reached.InOrder (.call call oracle) → ∀ error,
        (reached.answer invitations workspaceId call oracle).1 = .error error → error.SeatRefusal →
          (table (reached.step invitations workspaceId (.call call oracle)).rows : List WorkspaceMember) =
            table reached.rows ∧
          (table (reached.step invitations workspaceId (.call call oracle)).rows :
            List WorkspaceInvitation) = table reached.rows := by
  have seated : Seated invitations.plan workspaceId S s.now s.rows :=
    ⟨unique, ceiling, seats_eq_total ▸ fits⟩
  have kept := SeatState.seated_run seated ordered
  refine ⟨seats_eq_total ▸ kept.fits, ?_⟩
  intro call oracle given error refused full
  have same : ((s.run invitations workspaceId actions).step invitations workspaceId
      (.call call oracle)).rows = (s.run invitations workspaceId actions).rows :=
    (SeatState.seated_answer kept given).2 error refused full
  constructor <;> rw [same]

/-- Calls all of whose turns fall in one moment. -/
def atMoment (now : DateTime) (n : Nat) : Choice Input Error := { value := { id := s!"{now}-{n}", now } }

theorem given_atMoment {now later : DateTime} (le : now ≤ later) :
    Given Input.now (fun error => ¬ error.SeatRefusal) (atMoment later) 0 now :=
  ⟨fun _ _ => le, fun _ _ _ _ => Int.le_refl _, fun _ _ _ fault => by cases fault⟩

theorem inOrder_atMoment {invitations : InvitationConfig} {workspaceId : Id} {s : SeatState}
    {call : SeatCall} {now : DateTime} {rest : List SeatAction} (le : s.now ≤ now)
    (later : ∀ next : SeatState, next.now = now → next.AllInOrder invitations workspaceId rest) :
    s.AllInOrder invitations workspaceId (.call call (atMoment now) :: rest) :=
  ⟨given_atMoment le, later _ rfl⟩

/-- A plan of three seats. -/
def threeSeats : InvitationConfig where
  plan := { instance_ := { seatsPerWorkspace := some 3 } }
  toLowerCase := asciiLowerCase
  buildInviteAcceptUrl id := "https://kurul.dev/invite/" ++ id
  expiresIn := 100

/-- An invitation, a role change, a refusal, a removal, and the refused call again. -/
def inviting : List SeatAction := [
  .call (.createInvitation "ann" { email := "Cem@kurul.dev", role := .MEMBER } none) (atMoment 1),
  .call (.createInvitation "ann" { email := "cem@kurul.dev", role := .ADMIN } none) (atMoment 2),
  .call (.createInvitation "ann" { email := "dee@kurul.dev", role := .MEMBER } none) (atMoment 3),
  .call (.removeMember "bob" { id := "m1", workspaceId := "w", userId := "ann", role := .OWNER }) (atMoment 4),
  .call (.createInvitation "ann" { email := "dee@kurul.dev", role := .MEMBER } none) (atMoment 5),
  .clock 200]

theorem seats_le_ceiling_inviting :
    let reached := SeatState.run threeSeats "w" ⟨sampleWorkspace, 0⟩ inviting
    seats "w" reached.now reached.rows ≤ 3 ∧ (table reached.rows : List WorkspaceInvitation).length = 3 := by
  have ordered : SeatState.AllInOrder threeSeats "w" ⟨sampleWorkspace, 0⟩ inviting := by
    apply inOrder_atMoment (by decide)
    intro _ first
    apply inOrder_atMoment (by rw [first]; decide)
    intro _ second
    apply inOrder_atMoment (by rw [second]; decide)
    intro _ third
    apply inOrder_atMoment (by rw [third]; decide)
    intro _ fourth
    apply inOrder_atMoment (by rw [fourth]; decide)
    intro _ fifth
    exact ⟨by simp [SeatState.InOrder, fifth], trivial⟩
  have bounded := seats_le_ceiling threeSeats "w" 3 ⟨sampleWorkspace, 0⟩ (by decide +kernel)
    (by decide +kernel) (by decide +kernel) inviting ordered
  exact ⟨bounded.1, by decide +kernel⟩

end Kurul
