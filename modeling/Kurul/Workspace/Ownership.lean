import Kurul.Cascade
import Kurul.Store.Tables
import Kurul.Store.Timed
import Kurul.Workspace.TokenLifetimes

/-! Owners of workspaces over a run of removals, role changes and departures, one call after
the other, any statement of which the database may refuse. A call reads first and writes one
membership; the checks before that write keep the owners. -/
namespace Kurul

open Store Prog

def WorkspaceMember.owns (workspaceId : Id) (member : WorkspaceMember) : Bool :=
  member.workspaceId = workspaceId && member.role = .OWNER

/-- The workspace has an owner. -/
def Owned (workspaceId : Id) (rows : List Row) : Prop :=
  ∃ member ∈ (table rows : List WorkspaceMember), member.owns workspaceId

/-- The refusals of the database, and not of a service. -/
def Error.OfDatabase (error : Error) : Prop := ∃ code, error = .database code

inductive MemberCall where
  | remove (targetUserId : Id)
  | changeRole (targetUserId : Id) (role : MemberRole)
  | leave

namespace MemberCall

def service (workspaceId : Id) (actor : WorkspaceMember) : MemberCall → Service Unit
  | .remove targetUserId => WorkspaceMemberService.removeMember workspaceId targetUserId actor
  | .changeRole targetUserId role => do
      let _ ← WorkspaceMemberService.updateMemberRole workspaceId targetUserId role actor
  | .leave => WorkspaceMemberService.leave workspaceId actor

/-- The role guard of the route. -/
def admits (role : MemberRole) : MemberCall → Bool
  | .remove _ | .changeRole _ _ => role = .OWNER || role = .ADMIN
  | .leave => true

end MemberCall

/-- A request: whose, what it is given, and where the database refuses it. -/
structure MemberRequest where
  workspaceId : Id
  userId : Id
  call : MemberCall
  given : Nat → Input := fun n => { id := toString n, now := n }
  fault : Nat → Option DatabaseCode := fun _ => none

namespace MemberRequest

def oracle (request : MemberRequest) (turn : Nat) : Choice Input Error :=
  { value := request.given turn, fault := (request.fault turn).map .database }

/-- The call of a member who has passed the guards. -/
def answer (request : MemberRequest) (actor : WorkspaceMember) (rows : List Row) : Except Error Unit × List Row :=
  let (result, ended) := (request.call.service request.workspaceId actor).run request.oracle { rows }
  (result, ended.rows)

/-- The guards look the caller up, and only then the call runs. -/
def step (request : MemberRequest) (rows : List Row) : List Row :=
  match membershipIn request.workspaceId request.userId rows with
  | some actor => if request.call.admits actor.role then (request.answer actor rows).2 else rows
  | none => rows

def run (rows : List Row) (requests : List MemberRequest) : List Row :=
  requests.foldl (fun rows request => request.step rows) rows

end MemberRequest

/-- What a call has left of the owners it started with. -/
structure OwnersKept (actor : WorkspaceMember) (base rows : List Row) : Prop where
  unique : UniqueKeys rows
  owned : ∀ workspaceId, Owned workspaceId base → Owned workspaceId rows
  untouched : actor.role ≠ .OWNER → ∀ member : WorkspaceMember, member.role = .OWNER →
    (member ∈ (table rows : List WorkspaceMember) ↔ member ∈ (table base : List WorkspaceMember))

/-- The write of this membership leaves an owner, and only an owner may write an owner's. -/
structure MayWrite (actor target : WorkspaceMember) (rows : List Row) : Prop where
  stored : target ∈ (table rows : List WorkspaceMember)
  byOwner : target.role = .OWNER → actor.role = .OWNER
  another : target.role = .OWNER →
    2 ≤ (table rows : List WorkspaceMember).countP (·.owns target.workspaceId)

section Writes

variable {actor target : WorkspaceMember} {base rows : List Row} {W : List (Write Row Key)}

theorem OwnersKept.refl (unique : UniqueKeys base) : OwnersKept actor base base :=
  ⟨unique, fun _ owned => owned, fun _ _ _ => Iff.rfl⟩

theorem OwnersKept.elsewhere (kept : OwnersKept actor base rows)
    (elsewhere : ∀ write ∈ W, write.Elsewhere WorkspaceMember) : OwnersKept actor base (applyAll rows W) := by
  have same := table_applyAll_elsewhere elsewhere rows
  refine ⟨kept.unique.applyAll W, ?_, ?_⟩
  · intro workspaceId owned
    rw [Owned, same]
    exact kept.owned workspaceId owned
  · rw [same]
    exact kept.untouched

/-- Memberships have keys of their own. -/
theorem member_eq_of_id {member : WorkspaceMember} (unique : UniqueKeys rows)
    (left : member ∈ (table rows : List WorkspaceMember)) (right : target ∈ (table rows : List WorkspaceMember))
    (same : member.id = target.id) : member = target := by
  have keys : key (toRow member : Row) = key (toRow target : Row) := congrArg Key.workspaceMember same
  exact toRow_injective (unique.eq_of_key (mem_table.mp left) (mem_table.mp right) keys)

/-- Of two owners one is another. -/
theorem other_owner (unique : UniqueKeys rows) {workspaceId : Id}
    (two : 2 ≤ (table rows : List WorkspaceMember).countP (·.owns workspaceId)) (id : Id) :
    ∃ member ∈ (table rows : List WorkspaceMember), member.owns workspaceId ∧ member.id ≠ id := by
  by_contra none_
  push Not at none_
  have ids : (((table rows : List WorkspaceMember).filter (·.owns workspaceId)).map WorkspaceMember.id).Nodup := by
    apply List.pairwise_map.mpr
    apply List.Pairwise.filter
    apply (table_pairwise unique).imp
    intro a b apart same
    exact apart (congrArg Key.workspaceMember same)
  have inside : ((table rows : List WorkspaceMember).filter (·.owns workspaceId)).map WorkspaceMember.id ⊆ [id] := by
    intro other member
    obtain ⟨owner, chosen, rfl⟩ := List.mem_map.mp member
    obtain ⟨stored, owns⟩ := List.mem_filter.mp chosen
    simpa using none_ owner stored owns
  have few := (ids.subperm inside).length_le
  rw [List.length_map, ← List.countP_eq_length_filter] at few
  simp only [List.length_singleton] at few
  omega

/-- A write to one membership, seen by its key. -/
theorem OwnersKept.write (unique : UniqueKeys base) (may : MayWrite actor target base) {rows : List Row}
    (unique' : UniqueKeys rows)
    (others : ∀ member : WorkspaceMember, member.id ≠ target.id →
      (member ∈ (table rows : List WorkspaceMember) ↔ member ∈ (table base : List WorkspaceMember)))
    (own : ∀ member ∈ (table rows : List WorkspaceMember), member.id = target.id → member.role = .OWNER →
      actor.role = .OWNER) : OwnersKept actor base rows := by
  refine ⟨unique', ?_, ?_⟩
  · rintro workspaceId ⟨owner, stored, owns⟩
    by_cases same : owner.id = target.id
    · cases member_eq_of_id unique stored may.stored same
      obtain ⟨here, role⟩ : target.workspaceId = workspaceId ∧ target.role = .OWNER := by
        simpa [WorkspaceMember.owns] using owns
      obtain ⟨other, stored', owns', apart⟩ := other_owner unique (may.another role) target.id
      exact ⟨other, (others other apart).mpr stored', here ▸ owns'⟩
    · exact ⟨owner, (others owner same).mpr stored, owns⟩
  · intro role member owner
    by_cases same : member.id = target.id
    · constructor
      · intro stored
        exact absurd (own member stored same owner) role
      · intro stored
        cases member_eq_of_id unique stored may.stored same
        exact absurd (may.byOwner owner) role
    · exact others member same

/-- Nothing refers to a membership. -/
theorem refs_member (id : Id) (row : Row) : ∀ ref ∈ refs row, ref.target ≠ Key.workspaceMember id := by
  cases row <;>
    simp +contextual [refs, Row.refs, Reference.cascades, Reference.restricts, Reference.setsNull, or_imp,
      forall_and]

theorem OwnersKept.deleted (unique : UniqueKeys base) (may : MayWrite actor target base) :
    OwnersKept actor base
      (applyAll base (deletion base (cascade base [key (toRow target : Row)]))) := by
  have alone : ∀ k ∈ cascade base [key (toRow target : Row)], k = Key.workspaceMember target.id := by
    apply cascade_subset
    · rintro row _ ref listed _ refers
      exact absurd refers (refs_member target.id row ref listed)
    · intro k first
      exact List.mem_singleton.mp first
  have writes : ∀ write ∈ deletion base (cascade base [key (toRow target : Row)]),
      write = .del (Key.workspaceMember target.id) ∨ write.Elsewhere WorkspaceMember := by
    intro write member
    obtain ⟨k, doomed, rfl⟩ | ⟨_, _, _, emitted⟩ := mem_deletion member
    · exact .inl (congrArg Write.del (alone k doomed))
    · right
      obtain ⟨activity, rfl⟩ | ⟨notification, rfl⟩ := orphaned_history emitted
      · simp [Write.Elsewhere, Write.target, key, toRow, Row.key]
      · simp [Write.Elsewhere, Write.target, key, toRow, Row.key]
  apply OwnersKept.write unique may (unique.applyAll _)
  · intro member apart
    rw [mem_table, mem_table]
    apply mem_applyAll_untouched
    intro written
    obtain ⟨write, listed, same⟩ := List.mem_map.mp written
    rcases writes write listed with rfl | elsewhere
    · exact apart (Key.workspaceMember.inj same).symm
    · exact elsewhere member same.symm
  · intro member stored same
    have own : key (toRow member : Row) = key (toRow target : Row) := congrArg Key.workspaceMember same
    rcases mem_applyAll_cases (mem_table.mp stored) with put | ⟨_, untouched⟩
    · rcases writes _ put with impossible | elsewhere
      · cases impossible
      · exact absurd rfl (elsewhere member)
    · rw [own] at untouched
      exact absurd (touched_deletion (mem_table.mp may.stored) List.mem_cons_self) untouched

theorem OwnersKept.changed (unique : UniqueKeys base) (may : MayWrite actor target base) {role : MemberRole}
    (allowed : role = .OWNER → actor.role = .OWNER) :
    OwnersKept actor base (applyAll base [.put (toRow { target with role })]) := by
  apply OwnersKept.write unique may (unique.applyAll _)
  · intro member apart
    rw [mem_table, mem_table]
    apply mem_applyAll_untouched
    intro written
    exact apart (Key.workspaceMember.inj (List.mem_singleton.mp written))
  · intro member stored same owner
    rcases mem_applyAll_cases (mem_table.mp stored) with put | ⟨_, untouched⟩
    · obtain rfl : member = { target with role } :=
        toRow_injective (Write.put.inj (List.mem_singleton.mp put))
      exact allowed owner
    · exact absurd (by simp [touched, Write.target, key, toRow, Row.key, same]) untouched

end Writes

/-- A call or a part of one, run alone, with the refusals of the database. -/
abbrev Alone (p : Service α) (ok : α → Unit → List Row → List (Write Row Key) → Prop)
    (failed : Error → List Row → Prop) : List Row → List (Write Row Key) → Prop :=
  p.Timely (fun _ => ()) Error.OfDatabase ok (fun error _ rows _ => failed error rows) ()

/-- Whatever has happened, the owners are kept; and a service refuses before any write. -/
def RefusedClean (actor : WorkspaceMember) (base : List Row) (error : Error) (rows : List Row) : Prop :=
  OwnersKept actor base rows ∧ (¬ error.OfDatabase → rows = base)

/-- After the write. -/
def KeptClean (actor : WorkspaceMember) (base : List Row) (rows : List Row) (W : List (Write Row Key)) : Prop :=
  OwnersKept actor base rows ∧ W = []

theorem ofDatabase_of_answer {error : Error} (answer : DatabaseErrors.Answer error) : error.OfDatabase := by
  rcases answer with rfl | rfl | rfl <;> exact ⟨_, rfl⟩

section Calls

variable {actor : WorkspaceMember} {base rows : List Row}

theorem refused_before (unique : UniqueKeys base) (error : Error) : RefusedClean actor base error base :=
  ⟨.refl unique, fun _ => rfl⟩

theorem refused_database (kept : OwnersKept actor base rows) {error : Error} (outside : error.OfDatabase) :
    RefusedClean actor base error rows :=
  ⟨kept, fun inside => absurd outside inside⟩

theorem alone_require (unique : UniqueKeys base) {test : Bool} {error : Error} {next : Unit → Service α}
    {ok : α → Unit → List Row → List (Write Row Key) → Prop}
    (rest : test = true → Alone (next ()) ok (RefusedClean actor base) base []) :
    Alone ((Prog.require test error).bind next) ok (RefusedClean actor base) base [] := by
  apply Prog.Timely.bind
  apply Prog.Timely.require
  · exact fun _ => refused_before unique error
  · exact rest

theorem alone_requireMember (unique : UniqueKeys base) {workspaceId userId : Id} {next : MemberRow → Service α}
    {ok : α → Unit → List Row → List (Write Row Key) → Prop}
    (rest : ∀ target name avatarUrl, membershipIn workspaceId userId base = some target →
      Alone (next ⟨target.id, target.workspaceId, target.userId, target.role, name, avatarUrl⟩) ok
        (RefusedClean actor base) base []) :
    Alone ((WorkspaceMemberService.requireMember workspaceId userId).bind next) ok
      (RefusedClean actor base) base [] := by
  apply Prog.Timely.bind
  apply Prog.Timely.found
  · exact fun error _ => refused_before unique error
  · exact refused_before unique _
  · intro row hit
    obtain ⟨target, stored, more⟩ := Option.bind_eq_some_iff.mp hit
    obtain ⟨user, _, same⟩ := Option.bind_eq_some_iff.mp more
    cases same
    exact rest target user.name user.avatarUrl stored

/-- A write to other tables than that of the members. -/
theorem alone_store {exec : Statement Row Key Error β} (kept : OwnersKept actor base rows)
    (errors : ∀ {rows error}, exec rows = .error error → DatabaseErrors.Answer error)
    (elsewhere : ∀ {rows o}, exec rows = .ok o → ∀ write ∈ o.writes, write.Elsewhere WorkspaceMember) :
    Alone (transaction (query exec) : Service β) (fun _ _ => KeptClean actor base) (RefusedClean actor base) rows [] := by
  apply Prog.Timely.transaction
  apply Prog.Timely.query
  · rintro error (fault | ran)
    · exact refused_database kept fault
    · exact refused_database kept (ofDatabase_of_answer (errors ran))
  · intro o ran
    refine ⟨fun error fault => refused_database kept fault, ?_, rfl⟩
    exact kept.elsewhere (elsewhere ran)

theorem alone_andThen {p : Service β} {next : β → Service α} {ok : α → Unit → List Row → List (Write Row Key) → Prop}
    {W : List (Write Row Key)} (first : Alone p (fun _ _ => KeptClean actor base) (RefusedClean actor base) rows W)
    (rest : ∀ b rows, OwnersKept actor base rows → Alone (next b) ok (RefusedClean actor base) rows []) :
    Alone (p.bind next) ok (RefusedClean actor base) rows W := by
  apply Prog.Timely.bind
  apply first.weaken
  · rintro b _ rows _ ⟨kept, rfl⟩
    exact rest b rows kept
  · exact fun _ _ _ _ refused => refused

theorem alone_record (kept : OwnersKept actor base rows) (input : ActivityService.RecordActivityInput) :
    Alone (transaction (ActivityService.record input)) (fun _ _ => KeptClean actor base) (RefusedClean actor base)
      rows [] := by
  intro given _
  apply alone_store kept Statement.create_error
  intro rows o ran write member
  rw [(Statement.create_ok ran).2.1, List.mem_singleton] at member
  subst member
  simp [Write.Elsewhere, Write.target, key, toRow, Row.key]

theorem alone_revoke (kept : OwnersKept actor base rows) (workspaceId userId : Id) :
    Alone (TokenService.revokeAllForMember workspaceId userId) (fun _ _ => KeptClean actor base)
      (RefusedClean actor base) rows [] := by
  intro clock _
  apply alone_store kept Statement.updateMany_error
  intro rows o ran write member
  rw [(Statement.updateMany_ok ran).2] at member
  obtain ⟨token, _, rfl⟩ := List.mem_map.mp member
  simp [Write.Elsewhere, Write.target, key, toRow, Row.key]

/-- Better Auth's one write; refused, it has changed nothing. -/
theorem alone_write {exec : Statement Row Key Error β} (unique : UniqueKeys base)
    (writes : ∀ {o}, exec base = .ok o → OwnersKept actor base (applyAll base o.writes)) :
    Alone (WorkspaceMemberService.rethrowMemberWriteError
        ((transaction (query exec) : Service β).bind fun _ => .pure ()))
      (fun _ _ => KeptClean actor base) (RefusedClean actor base) base [] := by
  apply Prog.Timely.catching
  apply Prog.Timely.bind
  apply Prog.Timely.transaction
  have rethrown : ∀ error : Error, Alone (α := Unit)
      (if error = .database .recordNotFound then .throw (.notFound "Workspace member not found")
        else .throw error) (fun _ _ => KeptClean actor base) (RefusedClean actor base) base [] := by
    intro error
    split
    · exact refused_before unique _
    · exact refused_before unique _
  apply Prog.Timely.query
  · rintro error _
    exact rethrown error
  · intro o ran
    exact ⟨fun error _ => rethrown error, writes ran, rfl⟩

theorem alone_deleteMember (unique : UniqueKeys base) {target : WorkspaceMember} (may : MayWrite actor target base)
    (workspaceId : Id) :
    Alone (WorkspaceMemberService.rethrowMemberWriteError (BetterAuth.deleteMember workspaceId target.id))
      (fun _ _ => KeptClean actor base) (RefusedClean actor base) base [] := by
  apply alone_write unique
  intro o ran
  obtain ⟨member, stored, matched, _, written⟩ := Statement.delete_ok ran
  have same : member.id = target.id ∧ member.workspaceId = workspaceId := by simpa using matched
  cases member_eq_of_id unique stored may.stored same.1
  rw [written]
  exact .deleted unique may

theorem alone_updateMemberRole (unique : UniqueKeys base) {target : WorkspaceMember}
    (may : MayWrite actor target base) (workspaceId : Id) {role : MemberRole}
    (allowed : role = .OWNER → actor.role = .OWNER) :
    Alone (WorkspaceMemberService.rethrowMemberWriteError (BetterAuth.updateMemberRole workspaceId target.id role))
      (fun _ _ => KeptClean actor base) (RefusedClean actor base) base [] := by
  apply alone_write unique
  intro o ran
  obtain ⟨member, stored, matched, _, written⟩ := Statement.update_ok ran
  have same : member.id = target.id ∧ member.workspaceId = workspaceId := by simpa using matched
  cases member_eq_of_id unique stored may.stored same.1
  rw [written]
  exact .changed unique may allowed

/-- Where the check for the last owner lets a write through, there is another. -/
theorem alone_notLast (unique : UniqueKeys base) {workspaceId : Id} {message : String}
    {ok : Unit → Unit → List Row → List (Write Row Key) → Prop}
    (rest : 2 ≤ (table base : List WorkspaceMember).countP (·.owns workspaceId) → ok () () base []) :
    Alone ((WorkspaceMemberService.isLastOwner workspaceId).bind fun last =>
      require (!last) (.conflict message)) ok (RefusedClean actor base) base [] := by
  apply Prog.Timely.bind
  apply Prog.Timely.bind
  apply Prog.Timely.read
  · exact fun error _ => refused_before unique error
  · apply Prog.Timely.require
    · exact fun _ => refused_before unique _
    · intro more
      apply rest
      simp only [applyAll_nil, Bool.not_eq_true'] at more
      exact Nat.lt_of_not_le (of_decide_eq_false more)

/-- What the checks before a removal, a change and a departure come to. -/
def Checked (check : Service Unit) (actor : WorkspaceMember) (base : List Row) (fact : Prop) : Prop :=
  ∀ {α : Type} {next : Unit → Service α} {ok : α → Unit → List Row → List (Write Row Key) → Prop},
    (fact → Alone (next ()) ok (RefusedClean actor base) base []) →
      Alone (check.bind next) ok (RefusedClean actor base) base []

theorem checked_assertMayRemove (unique : UniqueKeys base) {target : WorkspaceMember} {name : String}
    {avatarUrl : Option String} (stored : target ∈ (table base : List WorkspaceMember)) :
    Checked (WorkspaceMemberService.assertMayRemove target.workspaceId
      ⟨target.id, target.workspaceId, target.userId, target.role, name, avatarUrl⟩ actor) actor base
      (MayWrite actor target base) := by
  intro α next ok rest
  unfold WorkspaceMemberService.assertMayRemove
  split
  · rename_i owner
    apply Prog.Timely.bind
    apply alone_require unique
    intro byOwner
    apply alone_notLast unique
    intro two
    exact rest ⟨stored, fun _ => of_decide_eq_true byOwner, fun _ => two⟩
  · rename_i other
    exact rest ⟨stored, fun owner => absurd owner other, fun owner => absurd owner other⟩

theorem checked_assertMayChange (unique : UniqueKeys base) {target : WorkspaceMember} {name : String}
    {avatarUrl : Option String} {nextRole : MemberRole} (stored : target ∈ (table base : List WorkspaceMember)) :
    Checked (WorkspaceMemberService.assertMayChange target.workspaceId
      ⟨target.id, target.workspaceId, target.userId, target.role, name, avatarUrl⟩ nextRole actor) actor base
      (MayWrite actor target base ∧ (nextRole = .OWNER → actor.role = .OWNER)) := by
  intro α next ok rest
  apply Prog.Timely.bind
  apply alone_require unique
  intro permitted
  have byOwner : target.role = .OWNER ∨ nextRole = .OWNER → actor.role = .OWNER := by
    intro touches
    rcases touches with owner | owner <;> simpa [owner] using permitted
  split
  · apply alone_notLast unique
    intro two
    exact rest ⟨⟨stored, fun owner => byOwner (.inl owner), fun _ => two⟩, fun owner => byOwner (.inr owner)⟩
  · rename_i other
    exact rest ⟨⟨stored, fun owner => absurd owner other, fun owner => absurd owner other⟩,
      fun owner => byOwner (.inr owner)⟩

/-- The caller is the member who leaves, so an owner's row goes by an owner. -/
theorem checked_assertMayLeave (unique : UniqueKeys base) {name : String} {avatarUrl : Option String}
    (stored : actor ∈ (table base : List WorkspaceMember)) :
    Checked (WorkspaceMemberService.assertMayLeave actor.workspaceId
      ⟨actor.id, actor.workspaceId, actor.userId, actor.role, name, avatarUrl⟩) actor base
      (MayWrite actor actor base) := by
  intro α next ok rest
  unfold WorkspaceMemberService.assertMayLeave
  split
  · apply Prog.Timely.bind
    apply alone_notLast unique
    intro two
    exact rest ⟨stored, id, fun _ => two⟩
  · rename_i other
    exact rest ⟨stored, id, fun owner => absurd owner other⟩

theorem alone_removeMember (unique : UniqueKeys base) (workspaceId targetUserId : Id) :
    Alone (WorkspaceMemberService.removeMember workspaceId targetUserId actor) (fun _ _ => KeptClean actor base)
      (RefusedClean actor base) base [] := by
  apply alone_require unique
  intro _
  apply alone_requireMember unique
  intro target name avatarUrl found
  obtain ⟨stored, rfl, _⟩ := membershipIn_some found
  apply checked_assertMayRemove unique stored
  intro may
  apply alone_andThen (alone_deleteMember unique may target.workspaceId)
  intro _ rows kept
  apply alone_andThen (alone_record kept _)
  intro _ rows kept
  apply alone_andThen (alone_revoke kept target.workspaceId targetUserId)
  exact fun _ rows kept => ⟨kept, rfl⟩

theorem alone_changeRole (unique : UniqueKeys base) (workspaceId targetUserId : Id) (nextRole : MemberRole) :
    Alone (WorkspaceMemberService.updateMemberRole workspaceId targetUserId nextRole actor)
      (fun _ _ => KeptClean actor base) (RefusedClean actor base) base [] := by
  apply alone_requireMember unique
  intro target name avatarUrl found
  obtain ⟨stored, rfl, _⟩ := membershipIn_some found
  dsimp only
  split
  · exact ⟨.refl unique, rfl⟩
  · apply checked_assertMayChange unique stored
    rintro ⟨may, allowed⟩
    apply alone_andThen (alone_updateMemberRole unique may target.workspaceId allowed)
    intro _ rows kept
    apply alone_andThen (alone_record kept _)
    exact fun _ rows kept => ⟨kept, rfl⟩

theorem alone_leave (unique : UniqueKeys base) {workspaceId userId : Id}
    (found : membershipIn workspaceId userId base = some actor) :
    Alone (WorkspaceMemberService.leave workspaceId actor) (fun _ _ => KeptClean actor base)
      (RefusedClean actor base) base [] := by
  obtain ⟨stored, rfl, rfl⟩ := membershipIn_some found
  apply alone_requireMember unique
  intro target name avatarUrl again
  obtain rfl : target = actor := Option.some.inj (again.symm.trans found)
  apply checked_assertMayLeave unique stored
  intro may
  apply alone_andThen (alone_deleteMember unique may target.workspaceId)
  intro _ rows kept
  apply alone_andThen (alone_record kept _)
  intro _ rows kept
  apply alone_andThen (alone_revoke kept target.workspaceId target.userId)
  exact fun _ rows kept => ⟨kept, rfl⟩

theorem alone_call (unique : UniqueKeys base) {workspaceId userId : Id}
    (found : membershipIn workspaceId userId base = some actor) (call : MemberCall) :
    Alone (call.service workspaceId actor) (fun _ _ => KeptClean actor base) (RefusedClean actor base) base [] := by
  cases call with
  | remove targetUserId => exact alone_removeMember unique workspaceId targetUserId
  | changeRole targetUserId role =>
      apply alone_andThen (alone_changeRole unique workspaceId targetUserId role)
      exact fun _ rows kept => ⟨kept, rfl⟩
  | leave => exact alone_leave unique found

end Calls

namespace MemberRequest

variable {rows : List Row} {request : MemberRequest} {actor : WorkspaceMember}

theorem answer_kept (unique : UniqueKeys rows)
    (found : membershipIn request.workspaceId request.userId rows = some actor) :
    OwnersKept actor rows (request.answer actor rows).2 ∧
      ∀ error, (request.answer actor rows).1 = .error error → ¬ error.OfDatabase →
        (request.answer actor rows).2 = rows := by
  have given : Given (fun _ : Input => ()) Error.OfDatabase request.oracle 0 () := by
    refine ⟨fun _ _ => trivial, fun _ _ _ _ => trivial, ?_⟩
    intro n _ error fault
    obtain ⟨code, _, rfl⟩ := Option.map_eq_some_iff.mp fault
    exact ⟨code, rfl⟩
  obtain ⟨_, _, _, ended⟩ := (alone_call unique found request.call).run (s := { rows }) given
  rcases ended with ⟨value, success, kept, _⟩ | ⟨error, refused, kept, clean⟩
  · refine ⟨kept, fun error failed => ?_⟩
    have : Except.ok value = Except.error error := success.symm.trans failed
    cases this
  · refine ⟨kept, fun error' failed inside => clean ?_⟩
    have : Except.error error = Except.error error' := refused.symm.trans failed
    cases this
    exact inside

theorem step_kept (request : MemberRequest) (unique : UniqueKeys rows) :
    UniqueKeys (request.step rows) ∧ ∀ workspaceId, Owned workspaceId rows → Owned workspaceId (request.step rows) := by
  unfold step
  split
  · rename_i actor found
    split
    · have kept := (answer_kept unique found).1
      exact ⟨kept.unique, kept.owned⟩
    · exact ⟨unique, fun _ owned => owned⟩
  · exact ⟨unique, fun _ owned => owned⟩

theorem run_kept (unique : UniqueKeys rows) (requests : List MemberRequest) :
    UniqueKeys (run rows requests) ∧ ∀ workspaceId, Owned workspaceId rows → Owned workspaceId (run rows requests) := by
  induction requests generalizing rows with
  | nil => exact ⟨unique, fun _ owned => owned⟩
  | cons request rest ih =>
      have kept := step_kept request unique
      have later := ih kept.1
      exact ⟨later.1, fun workspaceId owned => later.2 workspaceId (kept.2 workspaceId owned)⟩

end MemberRequest

/-- An owned workspace stays owned, and owners are only touched by owners. -/
theorem workspaces_stay_owned {rows : List Row} (unique : UniqueKeys rows) (requests : List MemberRequest) :
    (∀ workspaceId, Owned workspaceId rows → Owned workspaceId (MemberRequest.run rows requests)) ∧
    ∀ (request : MemberRequest) (actor : WorkspaceMember),
      membershipIn request.workspaceId request.userId (MemberRequest.run rows requests) = some actor →
      request.call.admits actor.role →
      let before := MemberRequest.run rows requests
      let (result, after) := request.answer actor before
      (∀ workspaceId, Owned workspaceId before → Owned workspaceId after) ∧
      (actor.role ≠ .OWNER → ∀ member : WorkspaceMember, member.role = .OWNER →
        (member ∈ (table after : List WorkspaceMember) ↔ member ∈ (table before : List WorkspaceMember))) ∧
      ∀ error, result = .error error → ¬ error.OfDatabase →
        (table after : List WorkspaceMember) = table before := by
  have reached := MemberRequest.run_kept unique requests
  refine ⟨reached.2, ?_⟩
  intro request actor found _
  obtain ⟨kept, clean⟩ := MemberRequest.answer_kept reached.1 found
  refine ⟨kept.owned, kept.untouched, ?_⟩
  intro error refused inside
  exact congrArg table (clean error refused inside)

/-- Ann makes Bob an owner and leaves, and Bob may not. -/
def handingOver : List MemberRequest := [
  { workspaceId := "w", userId := "bob", call := .remove "ann" },
  { workspaceId := "w", userId := "ann", call := .leave, given := fun n => { id := s!"a{n}", now := n } },
  { workspaceId := "w", userId := "ann", call := .changeRole "bob" .OWNER,
    given := fun n => { id := s!"b{n}", now := n } },
  { workspaceId := "w", userId := "ann", call := .leave, given := fun n => { id := s!"c{n}", now := n } },
  { workspaceId := "w", userId := "bob", call := .leave, given := fun n => { id := s!"d{n}", now := n } }]

theorem workspaces_stay_owned_handingOver :
    Owned "w" (MemberRequest.run sampleWorkspace handingOver) ∧
      (table (MemberRequest.run sampleWorkspace handingOver) : List WorkspaceMember).length = 1 := by
  constructor
  · have owned : Owned "w" sampleWorkspace :=
      ⟨{ id := "m1", workspaceId := "w", userId := "ann", role := .OWNER }, by decide +kernel, rfl⟩
    exact (workspaces_stay_owned (by decide +kernel) handingOver).1 "w" owned
  · decide +kernel

end Kurul
