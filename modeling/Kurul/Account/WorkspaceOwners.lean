import Kurul.Account.Departure

/-! Interleaved account deletions. Each settles the workspaces its request names;
where the departing account is the only live owner of none but these when it commits,
no workspace is left without a live owner. -/
namespace Kurul

open Store Prog

structure DeletionCall where
  userId : Id
  dto : DeleteAccountDto
  initiatedBy : DeletionInitiator := .self
  actorId : Option Id := none

namespace DeletionCall

def service (toLowerCase : String → String) (pages : Nat) (call : DeletionCall) : Service Unit := do
  let _ ← AccountDeletionService.deleteAccount toLowerCase pages call.userId call.dto
    call.initiatedBy call.actorId

/-- Every workspace of which the account is the only live owner is named in the request. -/
def Covers (call : DeletionCall) (rows : List Row) : Prop :=
  ∀ workspace ∈ (table rows : List Workspace),
    (∀ member ∈ (table rows : List WorkspaceMember), LiveOwner workspace.id rows member →
      member.userId = call.userId) →
    ∃ disposition ∈ call.dto.decisions, disposition.workspaceId = workspace.id

instance (call : DeletionCall) (rows : List Row) : Decidable (call.Covers rows) :=
  inferInstanceAs (Decidable (∀ _ ∈ _, _ → ∃ _ ∈ _, _))

end DeletionCall

section Settling

variable {userId : Id} {deletes : Id → Prop} {done : List Id} {allow : Assertion Row}
  {l : Local Row Key} {rows : List Row}

theorem Standing.also {workspaceId : Id} (standing : Standing userId deletes done l rows)
    (settled : Settled userId deletes workspaceId l rows) :
    Standing userId deletes (done ++ [workspaceId]) l rows := by
  refine ⟨standing.owned, standing.departs, fun named member => ?_⟩
  obtain old | new := List.mem_append.mp member
  · exact standing.settled named old
  · exact List.mem_singleton.mp new ▸ settled

/-- A live member is made an owner. -/
theorem Standing.promoted {member : WorkspaceMember} {o : Outcome Row Key β}
    (standing : Standing userId deletes done l rows) (unique : UniqueKeys (l.view rows))
    (stored : member ∈ (table (l.view rows) : List WorkspaceMember)) (other : member.userId ≠ userId)
    (live : Live member.userId rows) (kept : ¬ deletes member.workspaceId)
    (written : o.writes = [.put (toRow { member with role := MemberRole.OWNER })]) :
    Standing userId deletes (done ++ [member.workspaceId]) (l.ran rows o) rows := by
  refine (standing.ran ?_).also (.transferred { member with role := .OWNER } ?_ ?_ other kept
    ⟨rfl, rfl, live⟩)
  · rw [written]
    exact departs_promotion unique stored
  · rw [Local.view_ran, written, mem_table]
    exact mem_applyAll_put _ _
  · refine Owns.of_footprint ?_ l.held
    rw [written]
    exact List.mem_singleton_self _

/-- A workspace is deleted. -/
theorem Standing.removed {workspace : Workspace} {o : Outcome Row Key β}
    (standing : Standing userId deletes done l rows) (unique : UniqueKeys (l.view rows))
    (stored : workspace ∈ (table (l.view rows) : List Workspace)) (wanted : deletes workspace.id)
    (written : o.writes = deletion (l.view rows) (cascade (l.view rows) [key (toRow workspace : Row)])) :
    Standing userId deletes (done ++ [workspace.id]) (l.ran rows o) rows := by
  have doomed : key (toRow workspace : Row) ∈ touched o.writes := by
    rw [written]
    exact touched_deletion (mem_table.mp stored) (List.mem_singleton_self _)
  have departs : Departs userId deletes (l.view rows) (applyAll (l.view rows) o.writes) := by
    rw [written]
    refine departs_deletion unique fun k start => ?_
    rw [List.mem_singleton.mp start]
    exact wanted
  refine (standing.ran departs).also (.deleted (Owns.of_footprint doomed l.held) ?_)
  intro other there same
  rw [Local.view_ran, mem_table] at there
  obtain put | ⟨_, untouched⟩ := mem_applyAll_cases there
  · rw [written] at put
    obtain ⟨_, _, same⟩ | ⟨_, _, _, emitted⟩ := mem_deletion put
    · cases same
    · obtain ⟨_, same⟩ | ⟨_, same⟩ := orphaned_history emitted <;> cases same
  · have key_ : key (toRow other : Row) = key (toRow workspace : Row) := congrArg Key.workspace same
    exact untouched (key_ ▸ doomed)

theorem transferTarget_some {workspaceId newOwnerUserId : Id} {role : MemberRole} {name : String}
    {deletedAt : Option DateTime} {view : List Row}
    (hit : AccountDeletionService.transferTarget workspaceId newOwnerUserId view =
      some (role, name, deletedAt)) :
    ∃ user ∈ (table view : List User), user.id = newOwnerUserId ∧ user.deletedAt = deletedAt := by
  obtain ⟨member, found, rest⟩ := Option.bind_eq_some_iff.mp hit
  obtain ⟨user, named, same⟩ := Option.bind_eq_some_iff.mp rest
  cases same
  have own : member.userId = newOwnerUserId := by
    have := List.find?_some found
    simp only [Bool.and_eq_true, decide_eq_true_eq] at this
    exact this.2
  have id_ : user.id = member.userId := by simpa using List.find?_some named
  exact ⟨user, List.mem_of_find?_eq_some named, id_.trans own, rfl⟩

/-- An account that was live is live as long as it has a membership. -/
theorem stable_while_member (held : Held Key) (member : Id) :
    Stable owners held fun rows =>
      (∃ row ∈ (table rows : List WorkspaceMember), row.userId = member) → Live member rows := by
  rintro before after moved live ⟨row, stored, rfl⟩
  obtain ⟨old, there, _, _, user⟩ := moved.rely.1 row stored
  by_contra dead
  exact (moved.rely.2 row.userId (live ⟨old, there, user⟩) dead).2 row stored rfl

theorem verified_transfer {membership : MembershipRow} {newOwnerUserId : Id}
    (kept : ¬ deletes membership.workspaceId) :
    Verified owners allow {} (AccountDeletionService.transferOwnership membership newOwnerUserId userId) l
      (Standing userId deletes done l) fun _ l' A =>
        A = Standing userId deletes (done ++ [membership.workspaceId]) l' := by
  unfold AccountDeletionService.transferOwnership
  refine Verified.bind (Verified.query trivial fun rows₁ _ standing₁ o₁ ran₁ => ?_)
  cases ran₁
  cases hit : AccountDeletionService.transferTarget membership.workspaceId newOwnerUserId (l.view rows₁) with
  | none => exact ⟨fun _ => True, trivial, Stable.const _ _ True, trivial⟩
  | some target =>
      obtain ⟨role, name, deletedAt⟩ := target
      obtain ⟨user, there, own, deleted⟩ := transferTarget_some hit
      generalize same : l.ran rows₁ _ = l₁
      have standing : Standing userId deletes done l₁ rows₁ := same ▸ standing₁.ran (Departs.refl _)
      refine ⟨fun rows => Standing userId deletes done l₁ rows ∧
        (newOwnerUserId ≠ userId ∧ deletedAt = none →
          (∃ row ∈ (table rows : List WorkspaceMember), row.userId = newOwnerUserId) →
            Live newOwnerUserId rows), ⟨standing, fun ⟨other, live⟩ _ => ?_⟩, ?_, ?_⟩
      · exact (standing₁.departs.live other).mpr ⟨user, there, own, deleted.trans live⟩
      · subst same
        exact (Standing.stable (l := l.ran rows₁ _)).and fun _ _ moved promise chosen =>
          stable_while_member _ newOwnerUserId moved (promise chosen)
      · refine Verified.bind (Verified.getOrThrow fun _ found => ?_)
        cases found
        refine Verified.bind (Verified.require fun other => ?_)
        refine Verified.bind (Verified.require fun live => ?_)
        refine Verified.bind (Verified.query trivial fun rows₂ inv₂ fact₂ o₂ ran₂ => ?_)
        obtain ⟨standing₂, live₂⟩ := fact₂
        obtain ⟨member, stored, named, _, written⟩ := Statement.update_ok ran₂
        simp only [Bool.and_eq_true, decide_eq_true_eq] at named other live
        obtain ⟨here, rfl⟩ := named
        obtain ⟨old, before, _, _, user'⟩ := standing₂.departs.descends member stored
        have alive : Live member.userId rows₂ := live₂ ⟨other, live⟩ ⟨old, before, user'⟩
        refine ⟨_, standing₂.promoted (inv₂.1.applyAll _) stored other alive (here ▸ kept) written,
          Standing.stable (l := l₁.ran rows₂ o₂), ?_⟩
        rw [here]
        exact (Keeps.bind (Keeps.record _) fun _ => Keeps.pure ()) _ _

/-- The workspaces that the request wants deleted. -/
def Deletes (dispositions : List WorkspaceDispositionDto) (workspaceId : Id) : Prop :=
  ∃ disposition, AccountDeletionService.dispositionOf dispositions workspaceId = some disposition ∧
    disposition.action = .delete

theorem verified_settle {dispositions : List WorkspaceDispositionDto} {actorId : Option Id}
    {membership : MembershipRow} :
    Verified owners allow {} (AccountDeletionService.settle dispositions userId actorId membership) l
      (Standing userId (Deletes dispositions) done l) fun _ l' A =>
        A = Standing userId (Deletes dispositions) (done ++ [membership.workspaceId]) l' := by
  unfold AccountDeletionService.settle
  refine Verified.bind (Verified.getOrThrow fun disposition hit => ?_)
  split
  · rename_i newOwnerUserId action _
    have kept : ¬ Deletes dispositions membership.workspaceId := by
      rintro ⟨other, hit', deleted⟩
      cases hit.symm.trans hit'
      cases action.symm.trans deleted
    exact (verified_transfer kept).andThen fun _ _ _ same => same
  · trivial
  · rename_i action
    unfold AccountDeletionService.deleteWorkspace
    refine Verified.bind (Verified.bind ((Keeps.read _ done l).weaken ?_))
    rintro _ l₁ _ rfl
    refine Verified.bind (Verified.query trivial fun rows inv standing o ran => ?_)
    obtain ⟨workspace, stored, named, _, written⟩ := Statement.delete_ok ran
    obtain same : workspace.id = membership.workspaceId := by simpa using named
    refine ⟨_, ?_, Standing.stable (l := l₁.ran rows o), rfl⟩
    rw [← same]
    exact standing.removed (inv.1.applyAll _) stored (same ▸ ⟨disposition, hit, action⟩) written

end Settling

section Accounts

variable {userId : Id} {deletes : Id → Prop} {done : List Id} {l : Local Row Key} {rows : List Row}

theorem foldlM_matchDisposition {required : List Id} {dispositions start matched : List WorkspaceDispositionDto}
    (ran : dispositions.foldlM (AccountDeletionService.matchDisposition required) start = .ok matched) :
    matched = start ++ dispositions ∧ ∀ disposition ∈ dispositions, disposition.workspaceId ∈ required := by
  induction dispositions generalizing start with
  | nil => cases ran; simp
  | cons disposition rest ih =>
      obtain ⟨next, first, ran⟩ := Statement.bind_ok ran
      unfold AccountDeletionService.matchDisposition at first
      split at first
      · contradiction
      · split at first
        · contradiction
        · rename_i required_
          cases first
          obtain ⟨same, all⟩ := ih ran
          refine ⟨by simpa using same, fun other member => ?_⟩
          obtain rfl | later := List.mem_cons.mp member
          · exact not_not.mp required_
          · exact all other later

/-- Only solely owned workspaces are decided about. -/
theorem matchDispositions_ok {soleOwned : List MembershipRow}
    {dispositions matched : List WorkspaceDispositionDto}
    (ran : AccountDeletionService.matchDispositions soleOwned dispositions = .ok matched) :
    matched = dispositions ∧ ∀ disposition ∈ dispositions,
      disposition.workspaceId ∈ soleOwned.map MembershipRow.workspaceId := by
  obtain ⟨byWorkspace, folded, ran⟩ := Statement.bind_ok ran
  obtain ⟨same, all⟩ := foldlM_matchDisposition folded
  dsimp only at ran
  split at ran
  · cases ran
    exact ⟨same, all⟩
  · contradiction

/-- The deletion sees no membership of its account any more. -/
def Bare (userId : Id) (l : Local Row Key) (rows : List Row) : Prop :=
  ∀ member ∈ (table (l.view rows) : List WorkspaceMember), member.userId ≠ userId

theorem Bare.stable {before after : List Row} (moved : Interference owners l.held before after)
    (bare : Bare userId l before) : Bare userId l after := by
  intro member stored own
  rw [mem_table] at stored
  by_cases written : key (toRow member : Row) ∈ touched l.pending
  · exact bare member (mem_table.mpr ((mem_applyAll_touched before after written).mpr stored)) own
  · have there := (mem_applyAll_untouched _ written).mp stored
    obtain ⟨old, here, id, _, user⟩ := moved.rely.1 member (mem_table.mpr there)
    have key_ : key (toRow old : Row) = key (toRow member : Row) := congrArg Key.workspaceMember id
    refine bare old (mem_table.mpr ?_) (user.trans own)
    exact (mem_applyAll_untouched _ (key_ ▸ written)).mpr (mem_table.mp here)

/-- The account's own memberships are deleted. -/
theorem Standing.left {o : Outcome Row Key Nat} (standing : Standing userId deletes done l rows)
    (unique : UniqueKeys (l.view rows))
    (ran : Statement.deleteMany (fun _ (row : WorkspaceMember) => row.userId = userId) (l.view rows) =
      (.ok o : Except Error _)) :
    Standing userId deletes done (l.ran rows o) rows ∧ Bare userId (l.ran rows o) rows := by
  obtain ⟨_, written⟩ := Statement.deleteMany_ok ran
  refine ⟨standing.ran ?_, fun member stored own => ?_⟩
  · rw [written]
    refine departs_deletion unique fun k start => ?_
    obtain ⟨member, chosen, rfl⟩ := List.mem_map.mp start
    obtain ⟨stored, own⟩ := List.mem_filter.mp chosen
    intro other there same
    obtain rfl := member_eq unique there stored same
    exact Or.inl (by simpa using own)
  · rw [Local.view_ran, mem_table] at stored
    obtain put | ⟨old, untouched⟩ := mem_applyAll_cases stored
    · rw [written] at put
      obtain ⟨_, _, same⟩ | ⟨_, _, _, emitted⟩ := mem_deletion put
      · cases same
      · obtain ⟨_, same⟩ | ⟨_, same⟩ := orphaned_history emitted <;> cases same
    · rw [written] at untouched
      refine untouched (touched_deletion old (List.mem_map_of_mem (List.mem_filter.mpr ⟨?_, ?_⟩)))
      · exact mem_table.mpr old
      · simpa using own

/-- The user row is anonymised. -/
theorem Standing.anonymised {o : Outcome Row Key User} {deletedAt : DateTime}
    (standing : Standing userId deletes done l rows) (bare : Bare userId l rows)
    (ran : Statement.update (fun _ (row : User) => row.id = userId) (anonymisedUserFields deletedAt)
      (l.view rows) = (.ok o : Except Error _)) :
    Standing userId deletes done (l.ran rows o) rows ∧ Bare userId (l.ran rows o) rows := by
  obtain ⟨user, _, named, _, written⟩ := Statement.update_ok ran
  obtain rfl : user.id = userId := by simpa using named
  refine ⟨standing.ran ?_, fun member stored own => ?_⟩
  · rw [written]
    refine departs_writes (fun row put => Or.inr ?_) fun k deleted => ?_
    · cases List.mem_singleton.mp put
      rfl
    · cases List.mem_singleton.mp deleted
  · rw [Local.view_ran, mem_table, written] at stored
    obtain put | ⟨old, _⟩ := mem_applyAll_cases stored
    · cases List.mem_singleton.mp put
    · exact bare member (mem_table.mpr old) own

/-- Every workspace that is left has a live owner: the one it was handed to, or one
beside the departing account. -/
theorem Standing.live_owners {call : DeletionCall}
    (standing : Standing call.userId (Deletes call.dto.decisions) done l rows)
    (covers : call.Covers rows)
    (named : ∀ disposition ∈ call.dto.decisions, disposition.workspaceId ∈ done) :
    LiveOwners (l.view rows) := by
  intro workspace stored
  by_cases listed : workspace.id ∈ done
  · cases standing.settled _ listed with
    | deleted _ gone => exact absurd rfl (gone workspace stored)
    | transferred member there _ other _ owner =>
        exact ⟨member, there, owner.1, owner.2.1, (standing.departs.live other).mp owner.2.2⟩
  · have before := standing.departs.workspaces workspace stored
    obtain ⟨member, there, owner, other⟩ : ∃ member ∈ (table rows : List WorkspaceMember),
        LiveOwner workspace.id rows member ∧ member.userId ≠ call.userId := by
      by_contra none
      refine listed ?_
      obtain ⟨disposition, decided, same⟩ := covers workspace before fun member there owner => by
        by_contra other
        exact none ⟨member, there, owner, other⟩
      exact same ▸ named disposition decided
    have kept : ¬ Deletes call.dto.decisions member.workspaceId := by
      rintro ⟨disposition, found, _⟩
      have same : disposition.workspaceId = member.workspaceId := by simpa using List.find?_some found
      have decided := named disposition (List.mem_of_find?_eq_some found)
      exact listed (owner.1 ▸ same ▸ decided)
    exact ⟨member, standing.departs.spares member there owner.2.1 other kept, owner.1, owner.2.1,
      (standing.departs.live other).mp owner.2.2⟩

/-- The commit keeps the protocol. -/
theorem Standing.guarantees (standing : Standing userId deletes done l rows)
    (bare : Bare userId l rows) : owners.guar l.held rows (l.view rows) := by
  refine ⟨standing.departs.descends, fun other live dead => ?_⟩
  obtain rfl : other = userId := by
    by_contra different
    exact dead ((standing.departs.live different).mp live)
  refine ⟨fun member stored own => standing.owned _ ?_, bare⟩
  by_contra untouched
  exact bare member (mem_table.mpr ((mem_applyAll_untouched _ untouched).mpr (mem_table.mp stored))) own

theorem verified_execute {toLowerCase : String → String} {pages : Nat} {user : User}
    {soleOwned other : List MembershipRow} {dispositions : List WorkspaceDispositionDto}
    {deletedAt : DateTime} {initiatedBy : DeletionInitiator} {actorId : Option Id} {allow : Assertion Row} :
    Verified owners allow {} (AccountDeletionService.execute toLowerCase pages user soleOwned other
        dispositions deletedAt initiatedBy actorId) l (Standing user.id (Deletes dispositions) [] l)
      fun _ l' A => ∀ rows, A rows → Bare user.id l' rows ∧
        Standing user.id (Deletes dispositions) (soleOwned.map MembershipRow.workspaceId) l' rows := by
  unfold AccountDeletionService.execute
  refine Verified.bind ((Verified.collecting (R := fun _ _ => True)
    (I := fun done l A => A =
      Standing user.id (Deletes dispositions) (done.map MembershipRow.workspaceId) l) [] rfl ?_).weaken ?_)
  · rintro membership _ done l₁ _ rfl
    refine verified_settle.weaken fun _ l₂ A same => ⟨trivial, ?_⟩
    rw [same, List.map_append, List.map_singleton]
  rintro settled l₁ _ ⟨_, rfl⟩
  refine Verified.bind ((Keeps.forEach _ (fun membership => Keeps.bind (Keeps.record _) fun _ =>
    Keeps.pure ()) _ l₁).weaken ?_)
  rintro _ l₂ _ rfl
  refine Verified.bind ((Keeps.erase toLowerCase pages user _ _ l₂).weaken ?_)
  rintro counts l₃ _ rfl
  refine Verified.bind (Verified.query trivial fun rows₄ inv₄ standing₄ o₄ ran₄ => ?_)
  have left := standing₄.left (inv₄.1.applyAll _) ran₄
  refine ⟨fun rows => Standing _ _ _ (l₃.ran rows₄ o₄) rows ∧ Bare user.id (l₃.ran rows₄ o₄) rows,
    left, (Standing.stable (l := l₃.ran rows₄ o₄)).and fun _ _ moved => Bare.stable moved, ?_⟩
  refine Verified.bind (Verified.query trivial fun rows₅ inv₅ both o₅ ran₅ => ?_)
  have erased := both.1.anonymised both.2 ran₅
  refine ⟨fun rows => Standing _ _ _ ((l₃.ran rows₄ o₄).ran rows₅ o₅) rows ∧
    Bare user.id ((l₃.ran rows₄ o₄).ran rows₅ o₅) rows, erased,
    (Standing.stable (l := (l₃.ran rows₄ o₄).ran rows₅ o₅)).and fun _ _ moved => Bare.stable moved, ?_⟩
  exact fun _ fact => ⟨fact.2, fact.1⟩

theorem Keeps.partitionMemberships (departing : Id) {allow : Assertion Row} :
    Keeps userId deletes allow (AccountDeletionService.partitionMemberships departing) := by
  unfold AccountDeletionService.partitionMemberships
  refine bind (read _) fun memberships => ?_
  dsimp only
  split
  · exact bind (pure []) fun _ => pure _
  · exact bind (read _) fun _ => pure _

/-- What is published after the commit asks for nothing. -/
theorem verified_published {allow A : Assertion Row} {items : List β} {event : β → Event} :
    Verified owners allow {} (forEach items fun item => Service.emit (event item)) l A
      fun _ _ _ => True :=
  Verified.forEach (I := fun _ _ => True) trivial fun _ _ _ _ _ => trivial

theorem DeletionCall.verified (toLowerCase : String → String) (pages : Nat) (call : DeletionCall) :
    Verified owners call.Covers {} (call.service toLowerCase pages) {} (fun _ => True)
      fun _ _ _ => True := by
  unfold DeletionCall.service AccountDeletionService.deleteAccount AccountDeletionService.requireLiveUser
  refine Verified.bind (Verified.bind (Verified.bind (Verified.found trivial fun rows user _ _ hit =>
    ⟨Standing call.userId (Deletes call.dto.decisions) [] { seen := [] ++ [rows] },
      Standing.initial _ rfl rows,
      Standing.stable (l := { seen := [] ++ [rows] }), ?_⟩)))
  obtain own : user.id = call.userId := by simpa using List.find?_some hit
  refine Verified.bind (Verified.require fun _ => ?_)
  refine Verified.bind (Verified.require fun _ => ?_)
  refine Verified.bind ((Keeps.partitionMemberships call.userId [] _).weaken ?_)
  rintro ⟨soleOwned, other⟩ l₁ _ rfl
  refine Verified.bind (Verified.ofExcept fun dispositions matched => ?_)
  obtain ⟨rfl, named⟩ := matchDispositions_ok matched
  refine Verified.bind fun given => Verified.bind (Verified.transaction ?_)
  rw [← own]
  refine verified_execute.weaken fun answer l₂ A standing rows inv fact covers _ => ?_
  obtain ⟨bare, standing⟩ := standing rows fact
  refine ⟨⟨inv.1.applyAll _, ?_⟩, standing.guarantees bare, trivial, fun _ => True, trivial,
    Stable.const owners [] True, ?_⟩
  · rw [own] at standing
    exact standing.live_owners covers named
  · refine Verified.bind (verified_published.weaken fun _ _ _ _ => ?_)
    refine Verified.bind (verified_published.weaken fun _ _ _ _ => ?_)
    trivial

end Accounts

section Runs

variable {ι : Type} [DecidableEq ι]

def deletions (toLowerCase : String → String) (pages : Nat) (calls : ι → DeletionCall) (rows : List Row) :
    System ι Row Key Event Input Error Unit :=
  { rows, threads := fun i => { prog := (calls i).service toLowerCase pages } }

/-- A commit comes with a decision for every workspace that it would take the last live
owner from. -/
def Decided (calls : ι → DeletionCall) (s : System ι Row Key Event Input Error Unit) :
    Action ι Input Error → Prop
  | .run i _ => (s.threads i).prog.commits → (calls i).Covers s.rows
  | .fail _ _ => True

instance (calls : ι → DeletionCall) (s : System ι Row Key Event Input Error Unit)
    (action : Action ι Input Error) : Decidable (Decided calls s action) :=
  match action with
  | .run _ _ => inferInstanceAs (Decidable (_ → _))
  | .fail _ _ => inferInstanceAs (Decidable True)

/-- Where every commit meets that, each workspace has a live owner at every point of
the run. -/
theorem workspaces_keep_live_owner (toLowerCase : String → String) (pages : Nat)
    (calls : ι → DeletionCall) {rows : List Row} (unique : UniqueKeys rows) (start : LiveOwners rows)
    {s : System ι Row Key Event Input Error Unit}
    (run : System.Reaches (Decided calls) (deletions toLowerCase pages calls rows) s) :
    LiveOwners s.rows := by
  have initial : Sound owners (fun i => (calls i).Covers) (fun _ => {})
      (deletions toLowerCase pages calls rows) :=
    Sound.initial ⟨unique, start⟩ fun i => (calls i).verified toLowerCase pages
  refine (initial.reaches (fun decided here => decided ?_) run).inv.2
  rw [here]
  rfl

end Runs

def handoverCalls : Caller → DeletionCall
  | .ann => {
      userId := "ann"
      dto := {
        confirmEmail := "ann@kurul.dev"
        dispositions := some [{ workspaceId := "w", action := .transfer, newOwnerUserId := some "bob" }] } }
  | .bob => { userId := "bob", dto := { confirmEmail := "bob@kurul.dev" } }

/-- Ann hands the workspace to Bob, whose own deletion ends in a refusal. -/
def handoverEnd : System Caller Row Key Event Input Error Unit :=
  ((deletions asciiLowerCase 2 handoverCalls sampleWorkspace).runsChecked
    (fun s action => decide (Decided handoverCalls s action))
    (turns (List.replicate 26 .ann ++ List.replicate 3 .bob))).get (by decide +kernel)

theorem workspaces_keep_live_owner_handover : LiveOwners handoverEnd.rows :=
  workspaces_keep_live_owner asciiLowerCase 2 handoverCalls (by decide +kernel) (by decide +kernel)
    (.of_runsChecked (fun _ _ => of_decide_eq_true) _ (Option.some_get _).symm)

def coOwnedWorkspace : List Row := sampleWorkspace.map fun
  | .workspaceMember member => .workspaceMember { member with role := .OWNER }
  | row => row

def coOwnerCalls : Caller → DeletionCall
  | .ann => { userId := "ann", dto := { confirmEmail := "ann@kurul.dev" } }
  | .bob => { userId := "bob", dto := { confirmEmail := "bob@kurul.dev" } }

/-- Each of two owners counts the other, and both deletions go through. -/
theorem co_owners_strand_workspace :
    UniqueKeys coOwnedWorkspace ∧ LiveOwners coOwnedWorkspace ∧
    ((deletions asciiLowerCase 2 coOwnerCalls coOwnedWorkspace).runs
      (turns (List.replicate 3 .ann ++ List.replicate 22 .bob ++ List.replicate 19 .ann))).map (fun s =>
        ((s.threads .ann).prog.succeeded, (s.threads .bob).prog.succeeded, decide (LiveOwners s.rows))) =
      some (true, true, false) := by
  decide +kernel

end Kurul
