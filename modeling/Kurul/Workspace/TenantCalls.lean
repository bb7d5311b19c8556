import Kurul.Board.ListRuns
import Kurul.Task.CommentService
import Kurul.Task.TaskAssigneeService
import Kurul.Workspace.InvitationService
import Kurul.Workspace.TenantBoards

/-! The rest of the calls for a workspace, and all of them one after the other: no reference
ever leads from one workspace to another, and what a workspace has is changed by its own calls only. -/
namespace Kurul

open Store Prog

variable {w b t u : Id} {keys : List Key}

section Notices

/-- A notification of the workspace's about what has been met. -/
theorem claim_notification {notification : Notification} (here : notification.workspaceId = w)
    (task : ∀ t, notification.taskId = some t → Key.task t ∈ keys)
    (activity : ∀ a, notification.activityId = some a → Key.activity a ∈ keys) :
    Claim w keys (toRow notification : Row) where
  owned := by simp [home, toRow, Row.home]
  mine := by
    subst here
    simp [home, toRow, Row.home, eq_comm]
  refs := by
    subst here
    simp only [toRow, refs, Row.refs, Reference.cascades, Reference.setsNull, List.mem_cons, List.mem_append, List.mem_map,
      Option.mem_toList, List.not_mem_nil, or_false]
    rintro ref (((rfl | rfl) | ⟨t, about, rfl⟩) | ⟨a, about, rfl⟩)
    · exact known_workspace
    · exact known_user
    · exact .inl (task t about)
    · exact .inl (activity a about)

theorem serves_emitUnreadChanged {userIds : List Id} :
    (NotificationService.emitUnreadChanged w userIds).Serves w keys fun _ more => more = [] :=
  Serves.forEach fun _ _ => serves_emitToUser (Serves.pure rfl)

theorem serves_template {item : NotificationMailInput} {task : Task} :
    (NotificationMailer.template item task).Serves w keys fun _ more => more = [] := by
  have named : ∀ actorId, (NotificationMailer.actorName actorId).Serves w keys fun _ more => more = [] := by
    intro actorId
    cases actorId with
    | none => exact Serves.pure rfl
    | some actorId => exact Serves.ask
  unfold NotificationMailer.template
  cases item.type with
  | Assignment => exact (named _).andThen fun _ => Serves.pure rfl
  | Mention => exact (named _).andThen fun _ => Serves.pure rfl
  | DueSoon => exact Serves.pure rfl

theorem serves_build {item : NotificationMailInput} :
    (NotificationMailer.build item).Serves w keys fun _ more => more = [] := by
  unfold NotificationMailer.build
  split
  · exact Serves.pure rfl
  · refine Serves.ask.andThen fun recipient => ?_
    cases recipient with
    | none => exact Serves.pure rfl
    | some recipient =>
        refine Serves.ask.andThen fun found => ?_
        cases found with
        | none => exact Serves.pure rfl
        | some found => exact serves_template.andThen fun _ => Serves.pure rfl

/-- A mail that goes wrong is only logged. -/
theorem serves_send {item : NotificationMailInput} :
    (NotificationMailer.send item).Serves w keys fun _ more => more = [] := by
  refine Serves.catching (serves_build.andThen fun message => ?_) fun _ => Serves.pure rfl
  cases message with
  | none => exact Serves.pure rfl
  | some message => exact serves_mailSent (Serves.pure rfl)

theorem serves_sendForCreated {enabled : Bool} {items : List NotificationMailInput} :
    (NotificationMailer.sendForCreated enabled items).Serves w keys fun _ more => more = [] := by
  unfold NotificationMailer.sendForCreated
  split
  · exact Serves.pure rfl
  · exact Serves.forEach fun _ _ => serves_send

theorem serves_addAssignee {mailEnabled : Bool} {dto : AddAssigneeDto} :
    (TaskAssigneeService.addAssignee mailEnabled w t u dto).Serves w keys fun _ more => more = [] := by
  refine serves_findTaskBasic.bind ?_
  rintro task _ ⟨rfl, rfl⟩
  refine Serves.andThen (Serves.forget (Serves.findFirst (mine_own ?_))) fun _ => ?_
  · intro view member chosen
    simp only [Bool.and_eq_true, decide_eq_true_eq] at chosen
    rw [← chosen.1]
    rfl
  refine Serves.andThen (serves_conflictOnUniqueViolation (Serves.transaction ?_)) fun notified => ?_
  · refine serves_fresh.andThen fun given => ?_
    refine Serves.bind (Serves.query (Statement.Serves.create ⟨?_, ?_, ?_⟩)) fun _ _ _ => ?_
    · simp [home, toRow, Row.home]
    · simp [home, toRow, Row.home]
    · simp only [toRow, refs, Row.refs, Reference.cascades, Reference.restricts, List.mem_cons, List.not_mem_nil, or_false]
      rintro ref (rfl | rfl)
      · exact .inl (by simp)
      · exact known_user
    refine Serves.bind (serves_record rfl ?_) ?_
    · rintro t ⟨⟩
      simp
    rintro activity _ rfl
    refine Serves.andThen ?_ fun _ => Serves.pure rfl
    unfold NotificationService.create
    split
    · exact Serves.pure rfl
    · refine serves_fresh.andThen fun given => ?_
      refine Serves.andThen (Serves.forget (Serves.query (Statement.Serves.create (claim_notification rfl ?_ ?_))))
        fun _ => Serves.pure rfl
      · rintro t ⟨⟩
        simp
      · rintro a ⟨⟩
        simp
  · refine Serves.andThen ?_ fun _ => serves_emitUpdated
    cases notified with
    | none => exact Serves.pure rfl
    | some userId => exact serves_emitUnreadChanged.andThen fun _ => serves_sendForCreated

theorem serves_removeAssignee : (TaskAssigneeService.removeAssignee w t u b).Serves w keys fun _ more => more = [] := by
  refine serves_findTaskBasic.bind ?_
  rintro task _ ⟨rfl, rfl⟩
  refine Serves.andThen (Serves.transaction ?_) fun _ => serves_emitUpdated
  refine (Serves.query (Statement.Serves.deleteMany fun view _ _ row _ chosen => ?_)).andThen fun _ => ?_
  · simp only [Bool.and_eq_true] at chosen
    exact of_task chosen.2 rfl
  refine Serves.require.andThen fun _ => ?_
  refine Serves.bind (serves_record rfl ?_) fun _ _ _ => Serves.pure rfl
  rintro t ⟨⟩
  simp

theorem serves_mentions {input : MentionBatchInput} (here : input.workspaceId = w)
    (task : Key.task input.taskId ∈ keys) (activity : ∀ a, input.activityId = some a → Key.activity a ∈ keys) :
    (NotificationService.createMentionBatch input).Serves w keys fun _ more => more = [] := by
  unfold NotificationService.createMentionBatch
  split
  · exact Serves.pure rfl
  · refine Serves.bind (Serves.collect (R := fun notification => notification.workspaceId = w ∧
      notification.taskId = some input.taskId ∧ notification.activityId = input.activityId) fun _ _ => ?_) ?_
    · exact serves_fresh.andThen fun _ => Serves.pure ⟨⟨here, rfl, rfl⟩, rfl⟩
    rintro data _ ⟨about, rfl⟩
    refine Serves.query (Statement.Serves.createMany fun notification member => ?_)
    obtain ⟨there, toTask, toActivity⟩ := about notification member
    refine claim_notification there ?_ ?_
    · intro t same
      rw [toTask, Option.some.injEq] at same
      exact same ▸ task
    · exact fun a same => activity a (toActivity.symm.trans same)

theorem mine_comment : Mine w keys (CommentService.scopedComment w t) := by
  intro view _ _ comment _ chosen
  simp only [CommentService.scopedComment, Bool.and_eq_true] at chosen
  exact of_task chosen.2 rfl

theorem serves_storeComment {task : Task} {dto : CreateCommentDto} {mentionIds : List Id} (met : Key.task t ∈ keys) :
    (CommentService.store w t u task dto mentionIds).Serves w keys fun _ more => more = [] := by
  refine serves_fresh.andThen fun given => ?_
  refine Serves.bind (Serves.query (serves_including (Statement.Serves.create ⟨?_, ?_, ?_⟩))) fun created _ _ => ?_
  · simp [home, toRow, Row.home]
  · simp [home, toRow, Row.home]
  · simp only [toRow, refs, Row.refs, Reference.cascades, Reference.restricts, List.mem_cons, List.not_mem_nil, or_false]
    rintro ref (rfl | rfl)
    · exact .inl (by simp [met])
    · exact known_user
  refine Serves.andThen ?_ fun memberIds => ?_
  · unfold CommentService.mentionedMembers
    split
    · exact Serves.pure rfl
    · exact Serves.ask
  refine Serves.bind (serves_record rfl ?_) ?_
  · rintro t ⟨⟩
    simp [met]
  rintro activity _ rfl
  split
  · exact Serves.pure rfl
  · refine Serves.andThen (serves_mentions rfl ?_ ?_) fun _ => Serves.pure rfl
    · simp [met]
    · rintro a ⟨⟩
      simp

theorem serves_createComment {mailEnabled : Bool} {dto : CreateCommentDto} :
    (CommentService.create mailEnabled w t u dto).Serves w keys fun _ more => more = [] := by
  refine Serves.bind (Serves.findFirst mine_task) ?_
  rintro task _ ⟨⟨_, chosen⟩, rfl⟩
  simp only [scopedTask, Bool.and_eq_true, decide_eq_true_eq] at chosen
  obtain ⟨rfl, _⟩ := chosen
  refine Serves.andThen (Serves.transaction (serves_storeComment List.mem_cons_self)) fun stored => ?_
  refine Serves.andThen ?_ fun _ =>
    serves_emitToBoard (by simp [refs, Row.refs, toRow, Reference.cascades]) (Serves.pure rfl)
  unfold CommentService.notify
  split
  · exact Serves.pure rfl
  · exact serves_emitUnreadChanged.andThen fun _ => serves_sendForCreated

theorem serves_removeComment {role : MemberRole} :
    (CommentService.remove w t u role).Serves w keys fun _ more => more = [] := by
  refine Serves.transaction ?_
  refine (Serves.findFirst mine_comment).forget.andThen fun _ => ?_
  refine Serves.require.andThen fun _ => ?_
  exact (Serves.query (Statement.Serves.deleteMany mine_comment)).andThen fun _ => Serves.require

theorem mine_notification : Mine w keys (NotificationService.scopedNotification w u t) := by
  apply mine_own
  intro view row chosen
  simp only [NotificationService.scopedNotification, Bool.and_eq_true, decide_eq_true_eq] at chosen
  rw [← chosen.1.2]
  rfl

theorem serves_markRead : (NotificationService.markRead w u t).Serves w keys fun _ more => more = [] := by
  refine Serves.andThen (Serves.transaction ?_) fun (row, changed) => ?_
  · refine (Serves.findFirst mine_notification).forget.andThen fun existing => ?_
    split
    · exact Serves.pure rfl
    · refine serves_fresh.andThen fun given => ?_
      refine Serves.andThen (Serves.forget (Serves.query (Statement.Serves.update mine_notification ?_ ?_ ?_))) fun _ =>
        Serves.pure rfl
      · exact fun _ => rfl
      · exact fun _ => rfl
      · exact fun _ _ listed => .inl listed
  · dsimp only
    split
    · exact serves_emitUnreadChanged.andThen fun _ => Serves.pure rfl
    · exact Serves.pure rfl

theorem serves_markAllRead : (NotificationService.markAllRead w u).Serves w keys fun _ more => more = [] := by
  refine Serves.andThen (Serves.transaction ?_) fun count => ?_
  · refine serves_fresh.andThen fun given => Serves.query (Statement.Serves.updateMany (mine_own ?_) ?_ ?_ ?_)
    · intro view row chosen
      simp only [NotificationService.unread, Bool.and_eq_true, decide_eq_true_eq] at chosen
      rw [← chosen.1.1]
      rfl
    · exact fun _ => rfl
    · exact fun _ => rfl
    · exact fun _ _ listed => listed
  · split
    · exact serves_emitUnreadChanged.andThen fun _ => Serves.pure rfl
    · exact Serves.pure rfl

end Notices

section People

theorem serves_revokeAllForMember : (TokenService.revokeAllForMember w u).Serves w keys fun _ more => more = [] := by
  refine serves_fresh.andThen fun clock => ?_
  refine Serves.transaction (Serves.query (Statement.Serves.updateMany (mine_own ?_) ?_ ?_ ?_))
  · intro view token chosen
    simp only [Bool.and_eq_true, decide_eq_true_eq] at chosen
    rw [← chosen.1.1]
    rfl
  · exact fun _ => rfl
  · exact fun _ => rfl
  · exact fun _ _ listed => listed

theorem serves_requireMember : (WorkspaceMemberService.requireMember w u).Serves w keys fun _ more => more = [] :=
  Serves.found fun _ _ _ _ _ => ⟨[], rfl, by simp⟩

theorem mine_member {where_ : Where Row WorkspaceMember}
    (here : ∀ view member, where_ view member → member.workspaceId = w) :
    Mine w keys where_ :=
  mine_own fun view member chosen => congrArg Home.tenant (here view member chosen)

theorem serves_deleteMember : (BetterAuth.deleteMember w t).Serves w keys fun _ more => more = [] := by
  refine Serves.andThen (Serves.transaction (Serves.query (Statement.Serves.delete (mine_member ?_)))) fun _ =>
    Serves.pure rfl
  intro view member chosen
  rw [Bool.and_eq_true, decide_eq_true_eq, decide_eq_true_eq] at chosen
  exact chosen.2

theorem serves_rethrowMemberWriteError {write : Service Unit} (serves : write.Serves w keys fun _ more => more = []) :
    (WorkspaceMemberService.rethrowMemberWriteError write).Serves w keys fun _ more => more = [] := by
  refine Serves.catching serves fun error => ?_
  split <;> exact Serves.throw

theorem serves_isLastOwner : (WorkspaceMemberService.isLastOwner w).Serves w keys fun _ more => more = [] :=
  Serves.ask.andThen fun _ => Serves.pure rfl

theorem serves_removeMember {actor : WorkspaceMember} :
    (WorkspaceMemberService.removeMember w t actor).Serves w keys fun _ more => more = [] := by
  refine Serves.require.andThen fun _ => ?_
  refine serves_requireMember.andThen fun target => ?_
  refine Serves.andThen ?_ fun _ => ?_
  · unfold WorkspaceMemberService.assertMayRemove
    split
    · exact Serves.require.andThen fun _ => serves_isLastOwner.andThen fun _ => Serves.require
    · exact Serves.pure rfl
  refine (serves_rethrowMemberWriteError serves_deleteMember).andThen fun _ => ?_
  refine Serves.andThen (serves_evicted (Serves.pure rfl)) fun _ => ?_
  refine Serves.bind (Serves.transaction (serves_record rfl (by simp))) fun _ _ _ => ?_
  exact serves_revokeAllForMember.andThen fun _ => Serves.pure rfl

theorem serves_updateMemberRole {nextRole : MemberRole} {actor : WorkspaceMember} :
    (WorkspaceMemberService.updateMemberRole w t nextRole actor).Serves w keys fun _ more => more = [] := by
  refine serves_requireMember.andThen fun target => ?_
  split
  · exact Serves.pure rfl
  · refine Serves.andThen ?_ fun _ => ?_
    · refine Serves.require.andThen fun _ => ?_
      split
      · exact serves_isLastOwner.andThen fun _ => Serves.require
      · exact Serves.pure rfl
    refine Serves.andThen (serves_rethrowMemberWriteError (Serves.andThen (Serves.forget (Serves.transaction (Serves.query
      (Statement.Serves.update (mine_member ?_) ?_ ?_ ?_)))) fun _ => Serves.pure rfl)) fun _ => ?_
    · intro view member chosen
      rw [Bool.and_eq_true, decide_eq_true_eq, decide_eq_true_eq] at chosen
      exact chosen.2
    · exact fun _ => rfl
    · exact fun _ => rfl
    · exact fun _ _ listed => .inl listed
    exact Serves.bind (Serves.transaction (serves_record rfl (by simp))) fun _ _ _ => Serves.pure rfl

theorem serves_leave {actor : WorkspaceMember} :
    (WorkspaceMemberService.leave w actor).Serves w keys fun _ more => more = [] := by
  refine serves_requireMember.andThen fun membership => ?_
  refine Serves.andThen ?_ fun _ => ?_
  · unfold WorkspaceMemberService.assertMayLeave
    split
    · exact serves_isLastOwner.andThen fun _ => Serves.require
    · exact Serves.pure rfl
  refine (serves_rethrowMemberWriteError serves_deleteMember).andThen fun _ => ?_
  refine Serves.bind (Serves.transaction (serves_record rfl (by simp))) fun _ _ _ => ?_
  refine Serves.andThen (serves_evicted (Serves.pure rfl)) fun _ => ?_
  exact serves_revokeAllForMember.andThen fun _ => Serves.pure rfl

theorem serves_createToken {hashToken : String → String} {dto : CreateTokenDto} {secret : String} :
    (TokenService.create hashToken w u dto secret).Serves w keys fun _ more => more = [] := by
  refine serves_fresh.andThen fun clock => ?_
  refine Serves.require.andThen fun _ => ?_
  refine Serves.andThen (Serves.transaction ?_) fun row => ?_
  · refine serves_fresh.andThen fun given => Serves.forget (Serves.query (Statement.Serves.create ⟨?_, ?_, ?_⟩))
    · simp [home, toRow, Row.home]
    · simp [home, toRow, Row.home, eq_comm]
    · simp only [toRow, refs, Row.refs, Reference.cascades, List.mem_cons, List.not_mem_nil, or_false]
      rintro ref (rfl | rfl)
      · exact known_workspace
      · exact known_user
  · exact Serves.bind (Serves.transaction (serves_record rfl (by simp))) fun _ _ _ => Serves.pure rfl

theorem serves_revokeToken : (TokenService.revoke w u t).Serves w keys fun _ more => more = [] := by
  refine serves_fresh.andThen fun clock => ?_
  refine Serves.andThen (Serves.transaction (Serves.query (Statement.Serves.updateMany (mine_own ?_) ?_ ?_ ?_)))
    fun count => ?_
  · intro view token chosen
    simp only [Bool.and_eq_true, decide_eq_true_eq] at chosen
    rw [← chosen.1.1.2]
    rfl
  · exact fun _ => rfl
  · exact fun _ => rfl
  · exact fun _ _ listed => listed
  refine Serves.require.andThen fun _ => ?_
  refine Serves.andThen (Serves.found fun _ _ _ _ _ => ⟨[], rfl, by simp⟩) fun row => ?_
  exact Serves.bind (Serves.transaction (serves_record rfl (by simp))) fun _ _ _ => Serves.pure rfl

end People

section Invitations

theorem serves_assertSeatAvailable {config : PlanConfig} {countsInvitations : Bool} :
    (PlanLimitsService.assertSeatAvailable config w countsInvitations).Serves w keys fun _ more => more = [] := by
  refine Serves.ask.andThen fun limits => ?_
  split
  · exact Serves.pure rfl
  · dsimp only
    split
    · refine Serves.andThen (serves_fresh.andThen fun given => ?_) fun current => Serves.require
      exact Serves.ask.andThen fun members => Serves.ask.andThen fun invitations => Serves.pure rfl
    · exact Serves.ask.andThen fun current => Serves.require

theorem serves_rethrowBetterAuthError {call : Service α} {message notFound forbidden : String} {gives : α → List Key → Prop}
    (serves : Prog.Serves w keys call gives) :
    (rethrowBetterAuthError call message notFound forbidden).Serves w keys gives := by
  refine Serves.catching serves fun error => ?_
  split <;> exact Serves.throw

theorem mine_pending {now : DateTime} {email : String} :
    Mine w keys fun (_ : List Row) row => pendingInvitationWhere w now row && row.email = email := by
  intro view _ _ row _ chosen
  simp only [pendingInvitationWhere, Bool.and_eq_true, decide_eq_true_eq] at chosen
  exact .own (congrArg Home.tenant chosen.1.1.1)

/-- An invitation whose key has been met. -/
theorem mine_invitation {where_ : Where Row WorkspaceInvitation} (met : Key.workspaceInvitation t ∈ keys)
    (chosen : ∀ view row, where_ view row → row.id = t) : Mine w keys where_ := by
  apply mine_known met
  intro view row selected
  exact ⟨congrArg Key.workspaceInvitation (chosen view row selected), by simp [home, toRow, Row.home]⟩

theorem serves_cancelInvitation (met : Key.workspaceInvitation t ∈ keys) :
    (BetterAuth.cancelInvitation t).Serves w keys fun _ more => more = [] := by
  refine Serves.andThen (Serves.forget (Serves.transaction (Serves.query
    (Statement.Serves.update (mine_invitation met ?_) ?_ ?_ ?_)))) fun _ => Serves.pure rfl
  · simp
  · exact fun _ => rfl
  · exact fun _ => rfl
  · exact fun _ _ listed => .inl listed

theorem serves_storeInvitation {expiresIn : Int} {email : String} {role : MemberRole} :
    (BetterAuth.createInvitation expiresIn w u email role).Serves w keys fun _ more => more = [] := by
  refine Serves.transaction (serves_fresh.andThen fun given => ?_)
  refine (Serves.lookup mine_pending).bind ?_
  rintro pending _ rfl
  cases pending with
  | some invitation =>
      refine Serves.forget (Serves.query (Statement.Serves.update (mine_invitation List.mem_cons_self ?_) ?_ ?_ ?_))
      · simp
      · exact fun _ => rfl
      · exact fun _ => rfl
      · exact fun _ _ listed => .inl listed
  | none =>
      refine Serves.forget (Serves.query (Statement.Serves.create ⟨?_, ?_, ?_⟩))
      · simp [home, toRow, Row.home]
      · simp [home, toRow, Row.home, eq_comm]
      · simp only [toRow, refs, Row.refs, Reference.cascades, Reference.restricts, List.mem_cons,
          List.not_mem_nil, or_false]
        rintro ref (rfl | rfl)
        · exact known_workspace
        · exact known_user

theorem serves_createInvitation {config : InvitationConfig} {dto : CreateInvitationDto} {delivery : Option String} :
    (WorkspaceInvitationService.createInvitation config w u dto delivery).Serves w keys fun _ more => more = [] := by
  refine Serves.require.andThen fun _ => ?_
  refine Serves.bind (serves_fresh.andThen fun given => Serves.findMany mine_pending) ?_
  rintro pending _ rfl
  refine Serves.andThen ?_ fun _ => ?_
  · split
    · exact serves_assertSeatAvailable
    · exact Serves.pure rfl
  refine Serves.andThen ?_ fun _ => ?_
  · split
    · refine Serves.forEach fun invitation member => serves_rethrowBetterAuthError (serves_cancelInvitation ?_)
      exact List.mem_append_left _
        (List.mem_map_of_mem (f := fun row : WorkspaceInvitation => key (toRow row : Row)) member)
    · exact Serves.pure rfl
  refine (serves_rethrowBetterAuthError serves_storeInvitation).andThen fun invitation => ?_
  refine Serves.require.andThen fun _ => ?_
  exact Serves.bind (Serves.transaction (serves_record rfl (by simp))) fun _ _ _ => Serves.pure rfl

theorem serves_revokeInvitation : (WorkspaceInvitationService.revokeInvitation w u t).Serves w keys fun _ more =>
    more = [] := by
  refine Serves.bind (Serves.findFirst (mine_own ?_)) ?_
  · intro view row chosen
    simp only [Bool.and_eq_true, decide_eq_true_eq] at chosen
    exact congrArg Home.tenant chosen.2
  rintro invitation _ ⟨⟨_, chosen⟩, rfl⟩
  simp only [Bool.and_eq_true, decide_eq_true_eq] at chosen
  obtain ⟨rfl, _⟩ := chosen
  refine (serves_rethrowBetterAuthError (serves_cancelInvitation List.mem_cons_self)).andThen fun _ => ?_
  exact Serves.bind (Serves.transaction (serves_record rfl (by simp))) fun _ _ _ => Serves.pure rfl

/-- The library looks the invitation up by its id alone. -/
theorem serves_findInvitation {now : DateTime} {error : Error} (met : Key.workspaceInvitation t ∈ keys) :
    (found (.findFirst fun _ (row : WorkspaceInvitation) => row.id = t && row.status = .pending && now < row.expiresAt)
      error : Service WorkspaceInvitation).Serves w keys
        fun invitation more => invitation.workspaceId = w ∧ more = [.workspaceInvitation invitation.id] := by
  apply Serves.found
  intro view coherent near invitation hit
  have stored := mem_table.mp (List.mem_of_find?_eq_some hit)
  have chosen := List.find?_some hit
  simp only [Bool.and_eq_true, decide_eq_true_eq] at chosen
  obtain ⟨⟨rfl, _⟩, _⟩ := chosen
  have own : Of w view (toRow invitation : Row) :=
    (near _ met).of coherent.toIntact stored (by simp [home, toRow, Row.home])
  refine ⟨_, ⟨own.only coherent.unique (.own rfl), rfl⟩, fun k member => ?_⟩
  rw [List.mem_singleton] at member
  subst member
  exact near _ met

theorem serves_acceptMembership (met : Key.workspaceInvitation t ∈ keys) :
    (BetterAuth.acceptInvitation t u).Serves w keys fun member _ => member.workspaceId = w := by
  refine Serves.transaction (serves_fresh.andThen fun given => ?_)
  refine (serves_findInvitation met).bind ?_
  rintro invitation _ ⟨rfl, rfl⟩
  refine Serves.andThen (Serves.forget (Serves.query
    (Statement.Serves.update (mine_invitation List.mem_cons_self ?_) ?_ ?_ ?_))) fun _ => ?_
  · simp
  · exact fun _ => rfl
  · exact fun _ => rfl
  · exact fun _ _ listed => .inl listed
  refine Serves.weaken (Serves.query (Statement.Serves.create ⟨?_, ?_, ?_⟩)) ?_
  · simp [home, toRow, Row.home]
  · simp [home, toRow, Row.home, eq_comm]
  · simp only [toRow, refs, Row.refs, Reference.cascades, Reference.restricts, List.mem_cons, List.not_mem_nil, or_false]
    rintro ref (rfl | rfl)
    · exact known_workspace
    · exact known_user
  · rintro member _ ⟨rfl, _⟩
    rfl

theorem serves_acceptInvitation {config : InvitationConfig} :
    (WorkspaceInvitationService.acceptInvitation config w t u).Serves w keys fun _ more => more = [] := by
  refine Serves.bind (Serves.findFirst (mine_own ?_)) ?_
  · intro view row chosen
    simp only [Bool.and_eq_true, decide_eq_true_eq] at chosen
    exact congrArg Home.tenant chosen.2
  rintro invitation _ ⟨⟨_, chosen⟩, rfl⟩
  simp only [Bool.and_eq_true, decide_eq_true_eq] at chosen
  obtain ⟨⟨rfl, _⟩, _⟩ := chosen
  refine serves_assertSeatAvailable.andThen fun _ => ?_
  refine (serves_rethrowBetterAuthError (serves_acceptMembership List.mem_cons_self)).bind ?_
  rintro member more rfl
  refine Serves.andThen (Serves.found fun _ _ _ _ _ => ⟨[], rfl, by simp⟩) fun user => ?_
  exact Serves.bind (Serves.transaction (serves_record rfl (by simp))) fun _ _ _ => Serves.pure rfl

end Invitations

/-- A call for a workspace. -/
inductive TenantCall where
  | createBoard (config : PlanConfig) (actorId : Id) (dto : CreateBoardDto) (negotiated : Option Locale)
  | updateBoard (boardId actorId : Id) (dto : UpdateBoardDto)
  | removeBoard (boardId actorId : Id)
  | createColumn (boardId actorId : Id) (dto : CreateColumnDto)
  | createDefaults (boardId actorId : Id) (negotiated : Option Locale)
  | updateColumn (columnId actorId : Id) (dto : UpdateColumnDto)
  | moveColumn (columnId actorId : Id) (dto : MoveColumnDto)
  | removeColumn (columnId actorId : Id)
  | createTask (boardId userId : Id) (dto : CreateTaskDto)
  | updateTask (taskId actorId : Id) (dto : UpdateTaskDto)
  | moveTask (taskId actorId : Id) (dto : MoveTaskDto)
  | removeTask (taskId actorId : Id)
  | createLabel (boardId actorId : Id) (dto : CreateLabelDto)
  | updateLabel (labelId actorId : Id) (dto : UpdateLabelDto)
  | removeLabel (labelId actorId : Id)
  | addLabel (taskId actorId : Id) (dto : AddTaskLabelDto)
  | removeTaskLabel (taskId actorId labelId : Id)
  | createChecklist (taskId actorId : Id) (dto : CreateChecklistDto)
  | updateChecklist (taskId actorId checklistId : Id) (dto : UpdateChecklistDto)
  | moveChecklist (taskId actorId checklistId : Id) (dto : MoveChecklistDto)
  | removeChecklist (taskId actorId checklistId : Id)
  | createChecklistItem (taskId actorId checklistId : Id) (dto : CreateChecklistItemDto)
  | updateChecklistItem (taskId actorId itemId : Id) (dto : UpdateChecklistItemDto)
  | moveChecklistItem (taskId actorId itemId : Id) (dto : MoveChecklistItemDto)
  | removeChecklistItem (taskId actorId itemId : Id)
  | addAssignee (mailEnabled : Bool) (taskId actorId : Id) (dto : AddAssigneeDto)
  | removeAssignee (taskId actorId assigneeUserId : Id)
  | createComment (mailEnabled : Bool) (taskId userId : Id) (dto : CreateCommentDto)
  | removeComment (commentId actorId : Id) (actorRole : MemberRole)
  | markRead (userId notificationId : Id)
  | markAllRead (userId : Id)
  | removeMember (targetUserId : Id) (actor : WorkspaceMember)
  | updateMemberRole (targetUserId : Id) (nextRole : MemberRole) (actor : WorkspaceMember)
  | leave (actor : WorkspaceMember)
  | createInvitation (config : InvitationConfig) (actorId : Id) (dto : CreateInvitationDto) (delivery : Option String)
  | revokeInvitation (actorId invitationId : Id)
  | acceptInvitation (config : InvitationConfig) (invitationId userId : Id)
  | createToken (hashToken : String → String) (userId : Id) (dto : CreateTokenDto) (secret : String)
  | revokeToken (userId tokenId : Id)

namespace TenantCall

def service (w : Id) : TenantCall → Service Unit
  | .createBoard config actorId dto negotiated => do let _ ← BoardService.create config w actorId dto negotiated
  | .updateBoard boardId actorId dto => do let _ ← BoardService.update w boardId actorId dto
  | .removeBoard boardId actorId => BoardService.remove w boardId actorId
  | .createColumn boardId actorId dto => do let _ ← ColumnService.create w boardId actorId dto
  | .createDefaults boardId actorId negotiated => do let _ ← ColumnService.createDefaults w boardId actorId negotiated
  | .updateColumn columnId actorId dto => do let _ ← ColumnService.update w columnId actorId dto
  | .moveColumn columnId actorId dto => do let _ ← ColumnService.move w columnId actorId dto
  | .removeColumn columnId actorId => ColumnService.remove w columnId actorId
  | .createTask boardId userId dto => do let _ ← TaskService.create w boardId userId dto
  | .updateTask taskId actorId dto => do let _ ← TaskService.update w taskId actorId dto
  | .moveTask taskId actorId dto => do let _ ← TaskService.move w taskId actorId dto
  | .removeTask taskId actorId => TaskService.remove w taskId actorId
  | .createLabel boardId actorId dto => do let _ ← LabelService.create w boardId actorId dto
  | .updateLabel labelId actorId dto => do let _ ← LabelService.update w labelId actorId dto
  | .removeLabel labelId actorId => LabelService.remove w labelId actorId
  | .addLabel taskId actorId dto => do let _ ← TaskLabelService.addLabel w taskId actorId dto
  | .removeTaskLabel taskId actorId labelId => do let _ ← TaskLabelService.removeLabel w taskId actorId labelId
  | .createChecklist taskId actorId dto => do let _ ← ChecklistService.create w taskId actorId dto
  | .updateChecklist taskId actorId checklistId dto => do let _ ← ChecklistService.update w taskId actorId checklistId dto
  | .moveChecklist taskId actorId checklistId dto => do let _ ← ChecklistService.move w taskId actorId checklistId dto
  | .removeChecklist taskId actorId checklistId => do let _ ← ChecklistService.remove w taskId actorId checklistId
  | .createChecklistItem taskId actorId checklistId dto => do
      let _ ← ChecklistItemService.create w taskId actorId checklistId dto
  | .updateChecklistItem taskId actorId itemId dto => do let _ ← ChecklistItemService.update w taskId actorId itemId dto
  | .moveChecklistItem taskId actorId itemId dto => do let _ ← ChecklistItemService.move w taskId actorId itemId dto
  | .removeChecklistItem taskId actorId itemId => do let _ ← ChecklistItemService.remove w taskId actorId itemId
  | .addAssignee mailEnabled taskId actorId dto
      => do let _ ← TaskAssigneeService.addAssignee mailEnabled w taskId actorId dto
  | .removeAssignee taskId actorId assigneeUserId => do
      let _ ← TaskAssigneeService.removeAssignee w taskId actorId assigneeUserId
  | .createComment mailEnabled taskId userId dto => do let _ ← CommentService.create mailEnabled w taskId userId dto
  | .removeComment commentId actorId actorRole => CommentService.remove w commentId actorId actorRole
  | .markRead userId notificationId => do let _ ← NotificationService.markRead w userId notificationId
  | .markAllRead userId => do let _ ← NotificationService.markAllRead w userId
  | .removeMember targetUserId actor => WorkspaceMemberService.removeMember w targetUserId actor
  | .updateMemberRole targetUserId nextRole actor => do
      let _ ← WorkspaceMemberService.updateMemberRole w targetUserId nextRole actor
  | .leave actor => WorkspaceMemberService.leave w actor
  | .createInvitation config actorId dto delivery => do
      let _ ← WorkspaceInvitationService.createInvitation config w actorId dto delivery
  | .revokeInvitation actorId invitationId => WorkspaceInvitationService.revokeInvitation w actorId invitationId
  | .acceptInvitation config invitationId userId => do
      let _ ← WorkspaceInvitationService.acceptInvitation config w invitationId userId
  | .createToken hashToken userId dto secret => do let _ ← TokenService.create hashToken w userId dto secret
  | .revokeToken userId tokenId => TokenService.revoke w userId tokenId

theorem answered {call : Service α} (serves : Prog.Serves w keys call fun _ more => more = []) :
    (do let _ ← call : Service Unit).Serves w keys fun _ more => more = [] :=
  serves.andThen fun _ => Serves.pure rfl

theorem serves (call : TenantCall) : (call.service w).Serves w keys fun _ more => more = [] := by
  cases call with
  | createBoard => exact answered serves_createBoard
  | updateBoard => exact answered serves_updateBoard
  | removeBoard => exact serves_removeBoard
  | createColumn => exact answered serves_createColumn
  | createDefaults => exact answered serves_createDefaults
  | updateColumn => exact answered serves_updateColumn
  | moveColumn => exact answered serves_moveColumn
  | removeColumn => exact serves_removeColumn
  | createTask => exact answered serves_createTask
  | updateTask => exact answered serves_updateTask
  | moveTask => exact answered serves_moveTask
  | removeTask => exact serves_removeTask
  | createLabel => exact answered serves_createLabel
  | updateLabel => exact answered serves_updateLabel
  | removeLabel => exact serves_removeLabel
  | addLabel => exact answered serves_addLabel
  | removeTaskLabel => exact answered serves_removeTaskLabel
  | createChecklist => exact answered serves_createChecklist
  | updateChecklist => exact answered serves_updateChecklist
  | moveChecklist => exact answered serves_moveChecklist
  | removeChecklist => exact answered serves_removeChecklist
  | createChecklistItem => exact answered serves_createChecklistItem
  | updateChecklistItem => exact answered serves_updateChecklistItem
  | moveChecklistItem => exact answered serves_moveChecklistItem
  | removeChecklistItem => exact answered serves_removeChecklistItem
  | addAssignee => exact answered serves_addAssignee
  | removeAssignee => exact answered serves_removeAssignee
  | createComment => exact answered serves_createComment
  | removeComment => exact serves_removeComment
  | markRead => exact answered serves_markRead
  | markAllRead => exact answered serves_markAllRead
  | removeMember => exact serves_removeMember
  | updateMemberRole => exact answered serves_updateMemberRole
  | leave => exact serves_leave
  | createInvitation => exact answered serves_createInvitation
  | revokeInvitation => exact serves_revokeInvitation
  | acceptInvitation => exact answered serves_acceptInvitation
  | createToken => exact answered serves_createToken
  | revokeToken => exact serves_revokeToken

end TenantCall

structure TenantRequest where
  workspaceId : Id
  call : TenantCall

def TenantRequest.service (request : TenantRequest) : Service Unit := request.call.service request.workspaceId

/-- Whatever is asked for and whatever fails: no reference leads from one workspace to another,
a workspace that nothing is asked for has the rows it had, and users and their accounts are as before.
Nothing is said of sessions: Better Auth writes to them what the model leaves out. -/
theorem workspaces_stay_apart (oracle : Nat → Choice Input Error) (requests : List TenantRequest)
    {s : Store.Session Row Key Event} (coherent : Coherent s.rows) :
    Coherent (runAll oracle (requests.map TenantRequest.service) s).rows ∧
      (∀ w, (∀ request ∈ requests, request.workspaceId ≠ w) → ∀ row,
        (row ∈ (runAll oracle (requests.map TenantRequest.service) s).rows ∧
            Of w (runAll oracle (requests.map TenantRequest.service) s).rows row) ↔
          (row ∈ s.rows ∧ Of w s.rows row)) ∧
      ∀ row : Row, row.home = .shared → (∀ session : Session, row ≠ .session session) →
        (row ∈ (runAll oracle (requests.map TenantRequest.service) s).rows ↔ row ∈ s.rows) := by
  induction requests generalizing s with
  | nil => exact ⟨coherent, fun _ _ _ => Iff.rfl, fun _ _ _ => Iff.rfl⟩
  | cons request rest ih =>
      have first : Store.Keeps request.workspaceId s.rows (request.service.run oracle { s with pending := [] }).2.rows :=
        (TenantCall.serves request.call).keeps (s := { s with pending := [] }) coherent rfl oracle
      obtain ⟨ends, others, shared⟩ := ih first.coherent
      refine ⟨ends, fun w away row => ?_, fun row nobody plain => ?_⟩
      · have left : w ≠ request.workspaceId := Ne.symm (away request List.mem_cons_self)
        have earlier := others w (fun other member => away other (List.mem_cons_of_mem _ member)) row
        exact earlier.trans (first.moves.others coherent.toIntact first.coherent.toIntact left)
      · exact (shared row nobody plain).trans (first.moves.unowned nobody)

/-- The event is for members of the workspace, or for those who watch a board that is the workspace's then. -/
def Event.Reaches (w : Id) (rows : List Row) : Event → Prop
  | .emitToBoard boardId _ => ∃ board : Board, toRow board ∈ rows ∧ board.id = boardId ∧ board.workspaceId = w
  | .emitToUser workspaceId _ _ | .evicted workspaceId _ => workspaceId = w
  | .mailSent _ | .logged _ => False

theorem heard_by {w w' : Id} {rows : List Row} {event : Event} (heard : Heard w rows event)
    (reaches : event.Reaches w' rows) :
    w' = w := by
  cases event with
  | emitToBoard boardId event =>
      obtain ⟨board, stored, rfl, rfl⟩ := reaches
      exact heard (toRow board) stored rfl _ (.own rfl)
  | emitToUser workspaceId userId event | evicted workspaceId userId =>
      obtain rfl := reaches
      exact heard
  | mailSent message => cases reaches
  | logged line => cases reaches

/-- What each of the calls adds to the log, one part a call. -/
def parts (oracle : Nat → Choice Input Error) : List TenantRequest → Store.Session Row Key Event →
    List (List (Occurrence Row Key Event))
  | [], _ => []
  | request :: rest, s =>
      let ended := (request.service.run oracle { s with pending := [] }).2
      ended.log.drop s.log.length :: parts oracle rest ended

/-- What the calls tell, one after the other, reaches no workspace but the one of the call. -/
theorem calls_are_heard_at_home (oracle : Nat → Choice Input Error) (requests : List TenantRequest)
    {s : Store.Session Row Key Event} (coherent : Coherent s.rows) :
    (runAll oracle (requests.map TenantRequest.service) s).log = s.log ++ (parts oracle requests s).flatten ∧
      List.Forall₂ (fun request told => ∀ event rows, Occurrence.emitted event rows ∈ told →
        ∀ w, event.Reaches w rows → w = request.workspaceId) requests (parts oracle requests s) := by
  induction requests generalizing s with
  | nil => exact ⟨by simp [runAll, parts], .nil⟩
  | cons request rest ih =>
      have serves : Prog.Serves request.workspaceId [] request.service fun _ more => more = [] :=
        TenantCall.serves request.call
      have first : Store.Keeps request.workspaceId s.rows (request.service.run oracle { s with pending := [] }).2.rows :=
        serves.keeps (s := { s with pending := [] }) coherent rfl oracle
      obtain ⟨now, log, heard⟩ := serves.heard (s := { s with pending := [] }) coherent rfl oracle
      have part : (request.service.run oracle { s with pending := [] }).2.log.drop s.log.length = now := by
        rw [log, List.drop_left]
      obtain ⟨more, others⟩ := ih first.coherent
      refine ⟨?_, .cons ?_ others⟩
      · rw [List.map_cons, runAll, more, parts, List.flatten_cons, part, log, List.append_assoc]
      · rw [part]
        exact fun event rows member w reaches => heard_by (heard event rows member) reaches

/-- Another workspace beside the one of the examples. -/
def twoWorkspaces : List Row := sampleWorkspace ++ [
  .workspace { id := "v", name := "Other", slug := "other" },
  .workspaceMember { id := "m3", workspaceId := "v", userId := "bob", role := .OWNER },
  .board { id := "c", workspaceId := "v" }]

theorem twoWorkspaces_coherent : Coherent twoWorkspaces :=
  Intact.coherent ⟨by decide +kernel, by decide +kernel⟩ (by decide +kernel) (by decide +kernel)

/-- A column and a task, an edit of the other's board that finds none, and a board less. -/
def requestsForOne : List TenantRequest := [
  ⟨"w", .createColumn "b" "ann" { name := "To Do" }⟩,
  ⟨"w", .createTask "b" "ann" { columnId := "3", title := "Read" }⟩,
  ⟨"w", .updateBoard "c" "ann" { name := some "Mine" }⟩,
  ⟨"w", .removeBoard "b" "ann"⟩]

theorem workspaces_stay_apart_example :
    Row.board { id := "c", workspaceId := "v" } ∈
        (runAll smooth (requestsForOne.map TenantRequest.service) { rows := twoWorkspaces }).rows ∧
      Row.board { id := "b", workspaceId := "w" } ∉
        (runAll smooth (requestsForOne.map TenantRequest.service) { rows := twoWorkspaces }).rows := by
  refine ⟨?_, by decide +kernel⟩
  have apart := (workspaces_stay_apart smooth requestsForOne (s := { rows := twoWorkspaces })
    twoWorkspaces_coherent).2.1 "v" (by decide) (.board { id := "c", workspaceId := "v" })
  exact (apart.mpr ⟨by decide +kernel, .own rfl⟩).1

theorem calls_are_heard_at_home_example :
    (runAll smooth (requestsForOne.map TenantRequest.service) { rows := twoWorkspaces }).log =
        (parts smooth requestsForOne { rows := twoWorkspaces }).flatten ∧
      ∀ told ∈ parts smooth requestsForOne { rows := twoWorkspaces }, ∀ event rows, Occurrence.emitted event rows ∈ told →
        ¬ event.Reaches "v" rows := by
  obtain ⟨log, heard⟩ :=
    calls_are_heard_at_home smooth requestsForOne (s := { rows := twoWorkspaces }) twoWorkspaces_coherent
  refine ⟨log, ?_⟩
  intro told member event rows emitted reaches
  obtain ⟨i, bound, rfl⟩ := List.getElem_of_mem member
  have asked : i < requestsForOne.length := heard.length_eq ▸ bound
  have only := heard.get asked bound event rows emitted "v" reaches
  have home : ∀ request ∈ requestsForOne, request.workspaceId = "w" := by decide
  rw [List.get_eq_getElem, home _ (List.getElem_mem asked)] at only
  exact absurd only (by decide)

end Kurul
