import Kurul.Account.AccountDeletion
import Kurul.Cascade
import Kurul.Store.Clearing

/-! What an account deletion takes out of the database before it commits: the assignments
and memberships of the account, and its name in audit rows. -/
namespace Kurul

open Store Prog

/-- An audit row about the user that holds a name other than the anonymous one. -/
def spellsOut (userId : Id) : Row → Bool
  | .activity activity => payloadText activity.payload "targetUserId" = some userId &&
      (payloadText activity.payload "targetName").any (· ≠ ANONYMOUS_USER_NAME)
  | _ => false

def assigns (userId : Id) : Row → Bool
  | .taskAssignee row => row.userId = userId
  | _ => false

def admits (userId : Id) : Row → Bool
  | .workspaceMember row => row.userId = userId
  | _ => false

section Marks

variable {userId : Id}

theorem spellsOut_unset (k : Key) (row : Row) :
    spellsOut userId (unset k row) = true → spellsOut userId row = true := by
  cases row <;> exact id

theorem assigns_unset (k : Key) (row : Row) :
    assigns userId (unset k row) = true → assigns userId row = true := by
  cases row <;> exact id

/-- Deletions put audit rows and notifications only. -/
theorem quiet_deletion {mark : Row → Bool} (activities : ∀ activity, mark (.activity activity) = false)
    (notifications : ∀ notification, mark (.notification notification) = false) (view : List Row)
    (doomed : List Key) (row : Row) (stored : .put row ∈ deletion view doomed) : ¬ mark row = true := by
  obtain ⟨_, _, same⟩ | ⟨_, _, _, emitted⟩ := mem_deletion stored
  · cases same
  · obtain ⟨activity, same⟩ | ⟨notification, same⟩ := orphaned_history emitted
    · cases same
      simp [activities]
    · cases same
      simp [notifications]

/-- The first value under a key, where that key's values are replaced. -/
theorem lookup_replaced (payload : Payload) (name : String) (value : Json.Field) :
    (payload.map fun (key, old) => if key = name then (key, value) else (key, old)).lookup name =
      (payload.lookup name).map fun _ => value := by
  induction payload with
  | nil => rfl
  | cons first rest ih =>
      obtain ⟨key, old⟩ := first
      by_cases same : key = name
      · subst same
        simp
      · have other : (name == key) = false := by simpa using fun equal : name = key => same equal.symm
        simp [same, List.lookup_cons, other, ih]

end Marks

namespace AccountDeletionService

variable {bad : Row → Prop}

/-- Statements on tables other than the comments leave the program where it is: before its clearing statement,
or after it where only comments can be bad. -/
inductive Aloof (bad : Row → Prop) : Clearance → Prop where
  | due : Aloof bad .due
  | comments (only : ∀ row, bad row → ∃ comment, row = .comment comment) : Aloof bad .pending

section Aloof

variable {c : Clearance} {α : Type} [Entity Row α]

theorem Aloof.opened (aloof : Aloof bad c) : c ≠ .committed := by
  cases aloof <;> simp

/-- What is put is no comment. -/
theorem Aloof.stays {β : Type} {exec : Statement Row Key Error β} (aloof : Aloof bad c)
    (other : ∀ view o, exec view = .ok o → ∀ comment, .put (.comment comment) ∉ o.writes) :
    (query exec : Service β).Stays bad c := by
  cases aloof with
  | due => exact Stays.due exec
  | comments only =>
      apply Stays.keep
      apply Statement.KeepsClear.of_puts
      intro view o _ ran row stored worse
      obtain ⟨comment, rfl⟩ := only row worse
      exact other view o ran comment stored

/-- A table that holds no comments. -/
abbrev NoComments (α : Type) [Entity Row α] : Prop := ∀ (a : α) comment, (toRow a : Row) ≠ .comment comment

theorem Aloof.create (aloof : Aloof bad c) (a : α) (other : NoComments α := by intro _ _ same; cases same) :
    (query (.create a) : Service α).Stays bad c := by
  apply aloof.stays
  intro view o ran comment stored
  rw [(Statement.create_ok ran).2.1] at stored
  exact other a comment (by simpa using (List.mem_singleton.mp stored).symm)

theorem Aloof.update (aloof : Aloof bad c) (where_ : Where Row α) (change : α → α)
    (other : NoComments α := by intro _ _ same; cases same) : (query (.update where_ change) : Service α).Stays bad c := by
  apply aloof.stays
  intro view o ran comment stored
  obtain ⟨a, _, _, _, written⟩ := Statement.update_ok ran
  rw [written] at stored
  exact other (change a) comment (by simpa using (List.mem_singleton.mp stored).symm)

/-- Deletions put audit rows and notifications. -/
theorem deletion_comment {view : List Row} {doomed : List Key} (comment : Comment) :
    .put (.comment comment) ∉ deletion view doomed := by
  intro stored
  obtain ⟨_, _, same⟩ | ⟨_, _, _, emitted⟩ := mem_deletion stored
  · cases same
  · obtain ⟨_, same⟩ | ⟨_, same⟩ := orphaned_history emitted <;> cases same

theorem Aloof.delete (aloof : Aloof bad c) (where_ : Where Row α) : (query (.delete where_) : Service α).Stays bad c := by
  apply aloof.stays
  intro view o ran comment stored
  obtain ⟨a, _, _, _, written⟩ := Statement.delete_ok ran
  rw [written] at stored
  exact deletion_comment comment stored

theorem Aloof.deleteMany (aloof : Aloof bad c) (where_ : Where Row α) :
    (query (.deleteMany where_) : Service Nat).Stays bad c := by
  apply aloof.stays
  intro view o ran comment stored
  rw [(Statement.deleteMany_ok ran).2] at stored
  exact deletion_comment comment stored

theorem Aloof.updateMany (aloof : Aloof bad c) (where_ : Where Row α) (change : α → α)
    (other : NoComments α := by intro _ _ same; cases same) :
    (query (.updateMany where_ change) : Service Nat).Stays bad c := by
  apply aloof.stays
  intro view o ran comment stored
  rw [(Statement.updateMany_ok ran).2] at stored
  obtain ⟨a, _, same⟩ := List.mem_map.mp stored
  exact other (change a) comment (by simpa using same)

theorem Aloof.record (aloof : Aloof bad c) (input : ActivityService.RecordActivityInput) :
    (ActivityService.record input).Stays bad c := by
  intro given
  exact aloof.create _

end Aloof

theorem settle_stays {c : Clearance} (aloof : Aloof bad c) (dispositions : List WorkspaceDispositionDto) (userId : Id)
    (actorId : Option Id) (membership : MembershipRow) : (settle dispositions userId actorId membership).Stays bad c := by
  unfold settle
  apply Stays.bind
  · apply Stays.getOrThrow
  intro disposition
  split
  · unfold transferOwnership
    apply Stays.bind
    · apply Stays.bind
      · exact Stays.read _ aloof.opened
      intro target
      apply Stays.bind
      · apply Stays.getOrThrow
      intro target
      apply Stays.bind
      · apply Stays.require
      intro _
      apply Stays.bind
      · apply Stays.require
      intro _
      apply Stays.bind
      · exact aloof.update _ _
      intro _
      apply Stays.bind
      · exact aloof.record _
      intro _
      rfl
    intro _
    rfl
  · trivial
  · unfold deleteWorkspace
    apply Stays.bind
    · apply Stays.bind
      · exact Stays.read _ aloof.opened
      intro _
      apply Stays.bind
      · exact aloof.delete _
      intro _
      rfl
    intro _
    rfl

theorem recordDeparture_stays {c : Clearance} (aloof : Aloof bad c) (userId : Id) (initiatedBy : DeletionInitiator)
    (membership : MembershipRow) : (recordDeparture userId initiatedBy membership).Stays bad c := by
  apply Stays.bind
  · exact aloof.record _
  intro _
  rfl

section Comments

variable {c : Clearance} (open_ : c ≠ .committed) (harmless : ∀ comment, ¬ bad (.comment comment))
include open_ harmless

theorem redactComment_stays (userId : Id) (comment : Id × String) :
    (redactComment userId comment).Stays bad c := by
  unfold redactComment
  dsimp only
  split
  · rfl
  · apply Stays.bind
    · cases c with
      | due => apply Stays.due
      | pending =>
          apply Stays.keep
          apply Statement.KeepsClear.update
          intro row
          exact harmless _
      | committed => exact absurd rfl open_
    intro _
    rfl

theorem redactCommentMentions_stays (userId : Id) (pages : Nat) (cursor : Option Id)
    (rewritten : Nat) : (redactCommentMentions userId pages cursor rewritten).Stays bad c := by
  induction pages generalizing cursor rewritten with
  | zero => trivial
  | succ pages ih =>
      unfold redactCommentMentions
      apply Stays.bind
      · exact Stays.read _ open_
      intro page
      split
      · rfl
      · apply Stays.bind
        · exact Stays.collect page (redactComment_stays open_ harmless userId)
        intro changed
        dsimp only
        split
        · rfl
        · exact ih _ _

end Comments

variable (toLowerCase : String → String) (pages : Nat) (user : User) (counts : AccountDeletionCounts)

theorem erase_due (harmless : ∀ comment, ¬ bad (.comment comment)) :
    (erase toLowerCase pages user counts).Stays bad .due := by
  unfold erase
  refine Stays.bind (Stays.due _) fun _ => Stays.bind (Stays.due _) fun _ => Stays.bind (Stays.due _) fun _ => ?_
  refine Stays.bind (redactCommentMentions_stays (by simp) harmless _ _ _ _) fun _ => ?_
  refine Stays.bind (Stays.due _) fun _ => Stays.bind (Stays.due _) fun _ => Stays.bind (Stays.due _) fun _ => ?_
  refine Stays.bind (Stays.due _) fun _ => Stays.bind (Stays.due _) fun _ => Stays.bind (Stays.due _) fun _ => ?_
  exact Stays.bind (Stays.due _) fun _ => rfl

theorem erase_assignments :
    (erase toLowerCase pages user counts).Clears (assigns user.id · = true) (fun _ c => c = .pending) .due := by
  have keep : ∀ {α : Type} [Entity Row α] (where_ : Where Row α),
      (query (.deleteMany where_) : Service Nat).Stays (assigns user.id · = true) .pending := by
    intro α _ where_
    exact Stays.keep (Statement.KeepsClear.deleteMany assigns_unset)
  unfold erase
  apply Clears.bind
  apply Clears.clearing
  · apply Statement.Clears.deleteMany
    · exact quiet_deletion (fun _ => rfl) fun _ => rfl
    · intro view row marked
      cases row with
      | taskAssignee row => exact ⟨row, rfl, marked⟩
      | _ => cases marked
  intro _
  refine Stays.andThen (keep _) fun _ => Stays.andThen (keep _) fun _ => ?_
  refine Stays.andThen (redactCommentMentions_stays (by simp) (by simp [assigns]) _ _ _ _) fun _ => ?_
  refine Stays.andThen (Stays.keep (Statement.KeepsClear.updateMany (by simp [assigns, toRow]))) fun _ => ?_
  refine Stays.andThen (keep _) fun _ => Stays.andThen (keep _) fun _ => Stays.andThen (keep _) fun _ => ?_
  exact Stays.andThen (keep _) fun _ => Stays.andThen (keep _) fun _ => Stays.andThen (keep _) fun _ => rfl

/-- After the rewriting no audit row about the user holds a name. -/
theorem redactActivityPayloads_clears :
    (redactActivityPayloads user.id).Clears (spellsOut user.id · = true) (fun _ c => c = .pending) .due := by
  apply Clears.clearing
  · apply Statement.Clears.updateMany
    · intro activity marked
      simp only [toRow, spellsOut, payloadText, lookup_replaced, Bool.and_eq_true] at marked
      cases named : activity.payload.lookup "targetName" with
      | none => simp [named] at marked
      | some value => simp [named] at marked
    · intro activity
      rfl
    · intro view row marked
      cases row with
      | activity activity =>
          refine ⟨activity, rfl, ?_⟩
          simp only [spellsOut, Bool.and_eq_true] at marked ⊢
          refine ⟨marked.1, ?_⟩
          cases named : payloadText activity.payload "targetName" with
          | none => simp [named] at marked
          | some name => rfl
      | _ => cases marked
  · intro _
    rfl

theorem erase_names :
    (erase toLowerCase pages user counts).Clears (spellsOut user.id · = true) (fun _ c => c = .pending) .due := by
  have keep : ∀ {α : Type} [Entity Row α] (where_ : Where Row α),
      (query (.deleteMany where_) : Service Nat).Stays (spellsOut user.id · = true) .pending := by
    intro α _ where_
    exact Stays.keep (Statement.KeepsClear.deleteMany spellsOut_unset)
  unfold erase
  refine Stays.andThen (Stays.due _) fun _ => Stays.andThen (Stays.due _) fun _ => Stays.andThen (Stays.due _) fun _ => ?_
  refine Stays.andThen (redactCommentMentions_stays (by simp) (by simp [spellsOut]) _ _ _ _) fun _ => ?_
  apply Clears.bind
  apply (redactActivityPayloads_clears user).weaken
  rintro _ _ rfl
  refine Stays.andThen (keep _) fun _ => Stays.andThen (keep _) fun _ => Stays.andThen (keep _) fun _ => ?_
  exact Stays.andThen (keep _) fun _ => Stays.andThen (keep _) fun _ => Stays.andThen (keep _) fun _ => rfl

section Execution

variable {soleOwned other : List MembershipRow} {dispositions : List WorkspaceDispositionDto}
  {deletedAt : DateTime} {initiatedBy : DeletionInitiator} {actorId : Option Id}

/-- The steps around an erasure that clears. -/
theorem execute_erased {mark : Row → Bool} (lost : ∀ k row, mark (unset k row) = true → mark row = true)
    (users : ∀ user, mark (.user user) = false)
    (erases : ∀ counts, (erase toLowerCase pages user counts).Clears (mark · = true)
      (fun _ c => c = .pending) .due) :
    (execute toLowerCase pages user soleOwned other dispositions deletedAt initiatedBy actorId).Clears
      (mark · = true) (fun _ c => c = .pending) .due := by
  unfold execute
  refine Stays.andThen (Stays.collect _ (settle_stays .due _ _ _)) fun _ => ?_
  refine Stays.andThen (Stays.forEach _ (recordDeparture_stays .due _ _)) fun _ => ?_
  apply Clears.bind
  apply (erases _).weaken
  rintro counts _ rfl
  refine Stays.andThen (Stays.keep (Statement.KeepsClear.deleteMany lost)) fun _ => ?_
  exact Stays.andThen (Stays.keep (Statement.KeepsClear.update fun _ => by simp [toRow, users])) fun _ => rfl

/-- The steps up to the deletion of the memberships, and after it. -/
theorem execute_memberships :
    (execute toLowerCase pages user soleOwned other dispositions deletedAt initiatedBy actorId).Clears
      (admits user.id · = true) (fun _ c => c = .pending) .due := by
  unfold execute
  refine Stays.andThen (Stays.collect _ (settle_stays .due _ _ _)) fun _ => ?_
  refine Stays.andThen (Stays.forEach _ (recordDeparture_stays .due _ _)) fun _ => ?_
  refine Stays.andThen (erase_due toLowerCase pages user _ (by simp [admits])) fun _ => ?_
  apply Clears.bind
  apply Clears.clearing
  · apply Statement.Clears.deleteMany
    · exact quiet_deletion (fun _ => rfl) fun _ => rfl
    · intro view row marked
      cases row with
      | workspaceMember row => exact ⟨row, rfl, marked⟩
      | _ => cases marked
  intro _
  exact Stays.andThen (Stays.keep (Statement.KeepsClear.update fun _ => by simp [toRow, admits])) fun _ => rfl

end Execution

variable {userId : Id} {dto : DeleteAccountDto} {initiatedBy : DeletionInitiator} {actorId : Option Id}

/-- The checks before the transaction, and the events after its commit. -/
theorem deleteAccount_due {mark : Row → Bool}
    (executes : ∀ user soleOwned other dispositions deletedAt, user.id = userId →
      (execute toLowerCase pages user soleOwned other dispositions deletedAt initiatedBy actorId).Clears
        (mark · = true) (fun _ c => c = .pending) .due) :
    (deleteAccount toLowerCase pages userId dto initiatedBy actorId).ClearingDue (mark · = true) := by
  unfold deleteAccount requireLiveUser partitionMemberships
  apply Clears.bind
  apply Clears.bind
  apply Clears.found
  intro view user hit
  have own : user.id = userId := by simpa using List.find?_some hit
  refine Stays.andThen (Stays.require _ _) fun _ => ?_
  refine Stays.andThen (Stays.require _ _) fun _ => ?_
  apply Stays.andThen
  · apply Stays.bind
    · apply Stays.due
    intro memberships
    dsimp only
    split
    · apply Stays.bind
      · apply Stays.pure
      intro _
      rfl
    · apply Stays.bind
      · apply Stays.due
      intro _
      rfl
  rintro ⟨soleOwned, other⟩
  refine Stays.andThen (Stays.ofExcept _) fun dispositions => ?_
  apply Clears.bind
  intro given
  apply Clears.bind
  apply Clears.transaction
  apply (executes user soleOwned other dispositions given.now own).weaken
  rintro ⟨counts, deletedWorkspaces, evictions⟩ _ rfl
  refine ⟨rfl, ?_⟩
  refine Stays.andThen (Stays.forEach _ fun _ => rfl) fun _ => ?_
  exact Stays.andThen (Stays.forEach _ fun _ => rfl) fun _ => rfl

theorem deleteAccount_assignments_due :
    (deleteAccount toLowerCase pages userId dto initiatedBy actorId).ClearingDue
      (assigns userId · = true) := by
  apply deleteAccount_due
  rintro user _ _ _ _ rfl
  exact execute_erased _ _ _ assigns_unset (fun _ => rfl) (erase_assignments _ _ _)

theorem deleteAccount_memberships_due :
    (deleteAccount toLowerCase pages userId dto initiatedBy actorId).ClearingDue
      (admits userId · = true) := by
  apply deleteAccount_due
  rintro user _ _ _ _ rfl
  exact execute_memberships _ _ _

theorem deleteAccount_names_due :
    (deleteAccount toLowerCase pages userId dto initiatedBy actorId).ClearingDue
      (spellsOut userId · = true) := by
  apply deleteAccount_due
  rintro user _ _ _ _ rfl
  exact execute_erased _ _ _ spellsOut_unset (fun _ => rfl) (erase_names _ _ _)

end AccountDeletionService
end Kurul
