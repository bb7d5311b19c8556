import Kurul.Account.AccountDeletion
import Kurul.Cascade
import Kurul.Store.RelyGuarantee

/-! What an account deletion leaves of the owners of workspaces, statement by
statement. It spares the ownerships of everybody else but in the workspaces it
deletes, and other deletions running beside it cannot undo that. -/
namespace Kurul

open Store Prog

/-- The account is there and not deleted. -/
def Live (userId : Id) (rows : List Row) : Prop :=
  ∃ user ∈ (table rows : List User), user.id = userId ∧ user.deletedAt = none

def LiveOwner (workspaceId : Id) (rows : List Row) (member : WorkspaceMember) : Prop :=
  member.workspaceId = workspaceId ∧ member.role = .OWNER ∧ Live member.userId rows

def LiveOwners (rows : List Row) : Prop :=
  ∀ workspace ∈ (table rows : List Workspace), ∃ member ∈ (table rows : List WorkspaceMember),
    LiveOwner workspace.id rows member

instance (userId : Id) (rows : List Row) : Decidable (Live userId rows) :=
  inferInstanceAs (Decidable (∃ _ ∈ _, _))

instance (workspaceId : Id) (rows : List Row) (member : WorkspaceMember) :
    Decidable (LiveOwner workspaceId rows member) :=
  inferInstanceAs (Decidable (_ ∧ _ ∧ _))

instance (rows : List Row) : Decidable (LiveOwners rows) :=
  inferInstanceAs (Decidable (∀ _ ∈ _, ∃ _ ∈ _, _))

/-- Memberships vanish or change their role, and none comes in. -/
def Descends (before after : List Row) : Prop :=
  ∀ member ∈ (table after : List WorkspaceMember), ∃ old ∈ (table before : List WorkspaceMember),
    old.id = member.id ∧ old.workspaceId = member.workspaceId ∧ old.userId = member.userId

/-- An account is deleted together with its memberships, under their locks. -/
def owners : Protocol Row Key where
  inv rows := UniqueKeys rows ∧ LiveOwners rows
  rely held before after := Descends before after ∧
    ∀ userId, Live userId before → ¬ Live userId after →
      (∀ member ∈ (table before : List WorkspaceMember), member.userId = userId →
        ¬ Owns held (.workspaceMember member.id)) ∧
      ∀ member ∈ (table after : List WorkspaceMember), member.userId ≠ userId
  guar held before after := Descends before after ∧
    ∀ userId, Live userId before → ¬ Live userId after →
      (∀ member ∈ (table before : List WorkspaceMember), member.userId = userId →
        Owns held (.workspaceMember member.id)) ∧
      ∀ member ∈ (table after : List WorkspaceMember), member.userId ≠ userId
  narrows grown relied := by
    refine ⟨relied.1, fun userId live dead => ?_⟩
    obtain ⟨free, none⟩ := relied.2 userId live dead
    refine ⟨fun member stored own ⟨mode, held, strong⟩ => ?_, none⟩
    exact free member stored own ⟨mode, grown held, strong⟩
  compatible apart _ _ guaranteed := by
    refine ⟨guaranteed.1, fun userId live dead => ?_⟩
    obtain ⟨owned, none⟩ := guaranteed.2 userId live dead
    exact ⟨fun member stored own mine => mine.exclusive apart (owned member stored own), none⟩

/-- What the deletion of an account does to the rows of the others: it spares their
ownerships but in the workspaces it deletes, and their accounts. -/
structure Departs (userId : Id) (deletes : Id → Prop) (before after : List Row) : Prop where
  spares : ∀ member ∈ (table before : List WorkspaceMember), member.role = .OWNER →
    member.userId ≠ userId → ¬ deletes member.workspaceId → member ∈ (table after : List WorkspaceMember)
  descends : Descends before after
  workspaces : ∀ workspace ∈ (table after : List Workspace), workspace ∈ (table before : List Workspace)
  users : ∀ user : User, user.id ≠ userId →
    (user ∈ (table before : List User) ↔ user ∈ (table after : List User))

section Departing

variable {userId : Id} {deletes : Id → Prop} {rows before after : List Row}

theorem Departs.refl (rows : List Row) : Departs userId deletes rows rows where
  spares _ stored _ _ _ := stored
  descends member stored := ⟨member, stored, rfl, rfl, rfl⟩
  workspaces _ stored := stored
  users _ _ := Iff.rfl

theorem Departs.trans {last : List Row} (first : Departs userId deletes before after)
    (second : Departs userId deletes after last) : Departs userId deletes before last where
  spares member stored owner other kept :=
    second.spares member (first.spares member stored owner other kept) owner other kept
  descends member stored := by
    obtain ⟨middle, there, id, workspace, user⟩ := second.descends member stored
    obtain ⟨old, here, id', workspace', user'⟩ := first.descends middle there
    exact ⟨old, here, id'.trans id, workspace'.trans workspace, user'.trans user⟩
  workspaces workspace stored := first.workspaces workspace (second.workspaces workspace stored)
  users user other := (first.users user other).trans (second.users user other)

theorem Departs.live (departs : Departs userId deletes before after) {other : Id}
    (different : other ≠ userId) : Live other before ↔ Live other after := by
  constructor
  · rintro ⟨user, stored, rfl, live⟩
    exact ⟨user, (departs.users user different).mp stored, rfl, live⟩
  · rintro ⟨user, stored, rfl, live⟩
    exact ⟨user, (departs.users user different).mpr stored, rfl, live⟩

/-- Nothing of users, workspaces and memberships. -/
def Key.Aside : Key → Prop
  | .user _ | .workspace _ | .workspaceMember _ => False
  | _ => True

/-- A row that the departing account may take along. -/
def Leaves (userId : Id) (deletes : Id → Prop) (rows : List Row) : Key → Prop
  | .user _ => False
  | .workspace id => deletes id
  | .workspaceMember id => ∀ member ∈ (table rows : List WorkspaceMember), member.id = id →
      member.userId = userId ∨ deletes member.workspaceId
  | _ => True

theorem departs_writes {writes : List (Write Row Key)}
    (puts : ∀ row, .put row ∈ writes → (key row).Aside ∨ key row = .user userId)
    (dels : ∀ k, .del k ∈ writes → Leaves userId deletes rows k) :
    Departs userId deletes rows (applyAll rows writes) := by
  have cases_ : ∀ {row : Row}, key row ∈ touched writes →
      (key row).Aside ∨ key row = .user userId ∨ Leaves userId deletes rows (key row) := by
    intro row written
    obtain ⟨write, member, target⟩ := List.mem_map.mp written
    cases write with
    | put stored =>
        have same : key stored = key row := target
        obtain aside | own := puts stored member
        · exact Or.inl (same ▸ aside)
        · exact Or.inr (Or.inl (same ▸ own))
    | del k =>
        have same : k = key row := target
        exact Or.inr (Or.inr (same ▸ dels k member))
  refine ⟨fun member stored _ other kept => ?_, fun member stored => ?_, fun workspace stored => ?_,
    fun user other => ⟨fun stored => ?_, fun stored => ?_⟩⟩
  · rw [mem_table] at stored ⊢
    refine (mem_applyAll_untouched writes fun written => ?_).mpr stored
    obtain aside | own | leaves := cases_ written
    · exact aside
    · cases own
    · obtain own | deleted := leaves member (mem_table.mpr stored) rfl
      · exact other own
      · exact kept deleted
  · obtain put | ⟨old, _⟩ := mem_applyAll_cases (mem_table.mp stored)
    · obtain aside | own := puts _ put
      · exact aside.elim
      · cases own
    · exact ⟨member, mem_table.mpr old, rfl, rfl, rfl⟩
  · obtain put | ⟨old, _⟩ := mem_applyAll_cases (mem_table.mp stored)
    · obtain aside | own := puts _ put
      · exact aside.elim
      · cases own
    · exact mem_table.mpr old
  · rw [mem_table] at stored ⊢
    refine (mem_applyAll_untouched writes fun written => ?_).mpr stored
    obtain aside | own | leaves := cases_ written
    · exact aside
    · exact other (Key.user.inj own)
    · exact leaves
  · obtain put | ⟨old, _⟩ := mem_applyAll_cases (mem_table.mp stored)
    · obtain aside | own := puts _ put
      · exact aside.elim
      · exact absurd (Key.user.inj own) other
    · exact mem_table.mpr old

/-- A key names one membership. -/
theorem member_eq (unique : UniqueKeys rows) {a b : WorkspaceMember}
    (left : a ∈ (table rows : List WorkspaceMember)) (right : b ∈ (table rows : List WorkspaceMember))
    (same : a.id = b.id) : a = b := by
  have rows_ := unique.eq_of_key (mem_table.mp left) (mem_table.mp right)
    (congrArg Key.workspaceMember same)
  simpa [toRow] using rows_

/-- What a deletion takes along leaves with what it starts from. -/
theorem leaves_cascade (unique : UniqueKeys rows) {keys : List Key}
    (start : ∀ k ∈ keys, Leaves userId deletes rows k) :
    ∀ k ∈ cascade rows keys, Leaves userId deletes rows k := by
  refine cascade_subset (fun row stored ref listed cascades leaves => ?_) start
  cases row with
  | user | workspace => cases listed
  | workspaceMember member =>
      intro other there same
      obtain rfl := member_eq unique there (mem_table.mpr stored) same
      obtain rfl | ⟨_, rfl⟩ : ref = .cascades (.workspace other.workspaceId) ∨
          ∃ k, ref = .restricts k := by
        simp only [refs, Row.refs, List.mem_cons, List.not_mem_nil, or_false] at listed
        exact listed.imp_right fun same => ⟨_, same⟩
      · exact Or.inr leaves
      · cases cascades
  | _ => trivial

theorem departs_deletion (unique : UniqueKeys rows) {keys : List Key}
    (start : ∀ k ∈ keys, Leaves userId deletes rows k) :
    Departs userId deletes rows (applyAll rows (deletion rows (cascade rows keys))) := by
  refine departs_writes (fun row put => Or.inl ?_) fun k deleted => ?_
  · obtain ⟨_, _, same⟩ | ⟨_, _, _, emitted⟩ := mem_deletion put
    · cases same
    · obtain ⟨_, same⟩ | ⟨_, same⟩ := orphaned_history emitted <;> cases same <;> trivial
  · obtain ⟨_, doomed, same⟩ | ⟨_, _, _, emitted⟩ := mem_deletion deleted
    · cases same
      exact leaves_cascade unique start _ doomed
    · obtain ⟨_, same⟩ | ⟨_, same⟩ := orphaned_history emitted <;> cases same

theorem departs_promotion (unique : UniqueKeys rows) {member : WorkspaceMember}
    (stored : member ∈ (table rows : List WorkspaceMember)) :
    Departs userId deletes rows
      (applyAll rows [.put (toRow { member with role := MemberRole.OWNER })]) := by
  have touches : ∀ {row : Row},
      key row ∈ touched [Write.put (toRow { member with role := MemberRole.OWNER } : Row)] →
        key row = .workspaceMember member.id := by
    intro row written
    exact List.mem_singleton.mp written
  refine ⟨fun other there owner _ _ => ?_, fun after there => ?_, fun workspace there => ?_,
    fun user _ => ⟨fun there => ?_, fun there => ?_⟩⟩
  · rw [mem_table]
    by_cases same : other.id = member.id
    · obtain rfl := member_eq unique there stored same
      have self : ({ other with role := .OWNER } : WorkspaceMember) = other := by rw [← owner]
      rw [self]
      exact mem_applyAll_put rows _
    · refine (mem_applyAll_untouched _ fun written => same ?_).mpr (mem_table.mp there)
      exact Key.workspaceMember.inj (touches written)
  · obtain put | ⟨old, _⟩ := mem_applyAll_cases (mem_table.mp there)
    · cases List.mem_singleton.mp put
      exact ⟨member, stored, rfl, rfl, rfl⟩
    · exact ⟨after, mem_table.mpr old, rfl, rfl, rfl⟩
  · obtain put | ⟨old, _⟩ := mem_applyAll_cases (mem_table.mp there)
    · cases List.mem_singleton.mp put
    · exact mem_table.mpr old
  · rw [mem_table] at there ⊢
    refine (mem_applyAll_untouched _ fun written => ?_).mpr there
    cases touches written
  · obtain put | ⟨old, _⟩ := mem_applyAll_cases (mem_table.mp there)
    · cases List.mem_singleton.mp put
    · exact mem_table.mpr old

end Departing

section Standing

variable {userId workspaceId : Id} {deletes : Id → Prop} {done : List Id} {l : Local Row Key}
  {rows before after : List Row}

/-- What has become of a workspace that the request names. -/
inductive Settled (userId : Id) (deletes : Id → Prop) (workspaceId : Id) (l : Local Row Key)
    (rows : List Row) : Prop where
  | deleted (owned : Owns l.held (.workspace workspaceId))
      (gone : ∀ workspace ∈ (table (l.view rows) : List Workspace), workspace.id ≠ workspaceId)
  | transferred (member : WorkspaceMember)
      (stored : member ∈ (table (l.view rows) : List WorkspaceMember))
      (owned : Owns l.held (.workspaceMember member.id)) (other : member.userId ≠ userId)
      (kept : ¬ deletes workspaceId) (owner : LiveOwner workspaceId rows member)

/-- A deletion under way that is through with these workspaces. -/
structure Standing (userId : Id) (deletes : Id → Prop) (done : List Id) (l : Local Row Key)
    (rows : List Row) : Prop where
  owned : ∀ k ∈ touched l.pending, Owns l.held k
  departs : Departs userId deletes rows (l.view rows)
  settled : ∀ workspaceId ∈ done, Settled userId deletes workspaceId l rows

theorem Departs.stable (moved : Interference owners l.held before after)
    (owned : ∀ k ∈ touched l.pending, Owns l.held k)
    (departs : Departs userId deletes before (l.view before)) :
    Departs userId deletes after (l.view after) := by
  have own : ∀ {row : Row}, key row ∈ touched l.pending → (row ∈ before ↔ row ∈ after) :=
    fun written => moved.frame _ (owned _ written)
  have same : ∀ {row : Row}, key row ∈ touched l.pending → (row ∈ l.view before ↔ row ∈ l.view after) :=
    fun written => mem_applyAll_touched before after written
  have left : ∀ {rows : List Row} {row : Row}, key row ∉ touched l.pending →
      (row ∈ l.view rows ↔ row ∈ rows) :=
    fun untouched => mem_applyAll_untouched l.pending untouched
  refine ⟨fun member stored owner other kept => ?_, fun member stored => ?_, fun workspace stored => ?_,
    fun user other => ?_⟩
  · rw [mem_table] at stored ⊢
    by_cases written : key (toRow member : Row) ∈ touched l.pending
    · have there := departs.spares member (mem_table.mpr ((own written).mpr stored)) owner other kept
      exact (same written).mp (mem_table.mp there)
    · exact (left written).mpr stored
  · rw [mem_table] at stored
    by_cases written : key (toRow member : Row) ∈ touched l.pending
    · obtain ⟨old, there, id, facts⟩ := departs.descends member (mem_table.mpr ((same written).mpr stored))
      have key_ : key (toRow old : Row) = key (toRow member : Row) := congrArg Key.workspaceMember id
      exact ⟨old, mem_table.mpr ((own (key_ ▸ written)).mp (mem_table.mp there)), id, facts⟩
    · exact ⟨member, mem_table.mpr ((left written).mp stored), rfl, rfl, rfl⟩
  · rw [mem_table] at stored ⊢
    by_cases written : key (toRow workspace : Row) ∈ touched l.pending
    · have there := departs.workspaces workspace (mem_table.mpr ((same written).mpr stored))
      exact (own written).mp (mem_table.mp there)
    · exact (left written).mp stored
  · rw [mem_table, mem_table]
    by_cases written : key (toRow user : Row) ∈ touched l.pending
    · rw [← own written, ← same written, ← mem_table, ← mem_table]
      exact departs.users user other
    · exact (left written).symm

/-- A live account that has a membership under lock stays live. -/
theorem live_stable {held : Held Key} (moved : Interference owners held before after)
    {member : WorkspaceMember} (stored : member ∈ (table before : List WorkspaceMember))
    (owned : Owns held (.workspaceMember member.id)) (live : Live member.userId before) :
    Live member.userId after := by
  by_contra dead
  exact (moved.rely.2 member.userId live dead).1 member stored rfl owned

theorem Settled.stable (moved : Interference owners l.held before after)
    (departs : Departs userId deletes before (l.view before))
    (settled : Settled userId deletes workspaceId l before) :
    Settled userId deletes workspaceId l after := by
  have kept : ∀ {row : Row}, Owns l.held (key row) → (row ∈ l.view before ↔ row ∈ l.view after) := by
    intro row owned
    by_cases written : key row ∈ touched l.pending
    · exact mem_applyAll_touched before after written
    · rw [Local.view, Local.view, mem_applyAll_untouched _ written, mem_applyAll_untouched _ written]
      exact moved.frame row owned
  cases settled with
  | deleted owned gone =>
      refine .deleted owned fun workspace stored same => ?_
      subst same
      exact gone workspace (mem_table.mpr ((kept owned).mpr (mem_table.mp stored))) rfl
  | transferred member stored owned other keeps owner =>
      obtain ⟨here, role, live⟩ := owner
      obtain ⟨old, there, id, _, user⟩ := departs.descends member stored
      have live' : Live old.userId after :=
        live_stable moved there (id ▸ owned) (user ▸ live)
      exact .transferred member (mem_table.mpr ((kept owned).mp (mem_table.mp stored))) owned other keeps
        ⟨here, role, user ▸ live'⟩

theorem Standing.stable : Stable owners l.held (Standing userId deletes done l) :=
  fun _ _ moved standing =>
    ⟨standing.owned, standing.departs.stable moved standing.owned,
      fun workspaceId member => (standing.settled workspaceId member).stable moved standing.departs⟩

theorem Standing.initial (l : Local Row Key) (clean : l.pending = []) (rows : List Row) :
    Standing userId deletes [] l rows where
  owned := by simp [clean, touched]
  departs := by
    rw [Local.view, clean]
    exact Departs.refl rows
  settled := by simp

/-- A statement that spares the others leaves the deletion standing. -/
theorem Standing.ran {o : Outcome Row Key β} (standing : Standing userId deletes done l rows)
    (departs : Departs userId deletes (l.view rows) (applyAll (l.view rows) o.writes)) :
    Standing userId deletes done (l.ran rows o) rows := by
  refine ⟨(l.grown_ran rows o).owned standing.owned, ?_, fun workspaceId member => ?_⟩
  · rw [Local.view_ran]
    exact standing.departs.trans departs
  · cases standing.settled workspaceId member with
    | deleted owned gone =>
        refine .deleted (owned.append _) fun workspace stored => ?_
        rw [Local.view_ran] at stored
        exact gone workspace (departs.workspaces workspace stored)
    | transferred member stored owned other kept owner =>
        refine .transferred member ?_ (owned.append _) other kept owner
        rw [Local.view_ran]
        exact departs.spares member stored owner.2.1 other (owner.1 ▸ kept)

end Standing

/-- The program leaves the deletion standing wherever it was. -/
def Keeps (userId : Id) (deletes : Id → Prop) (allow : Assertion Row) (p : Service α) : Prop :=
  ∀ done l, Verified owners allow {} p l (Standing userId deletes done l) fun _ l' A =>
    A = Standing userId deletes done l'

namespace Keeps

variable {userId : Id} {deletes : Id → Prop} {allow : Assertion Row}

theorem pure (value : α) : Keeps userId deletes allow (.pure value) := fun _ _ => rfl

theorem bind {p : Service α} {f : α → Service β} (first : Keeps userId deletes allow p)
    (rest : ∀ value, Keeps userId deletes allow (f value)) : Keeps userId deletes allow (p.bind f) :=
  fun done l => (first done l).andThen fun value l' _ same => same ▸ rest value done l'

theorem forEach {body : β → Service Unit} (items : List β)
    (round : ∀ item, Keeps userId deletes allow (body item)) :
    Keeps userId deletes allow (Prog.forEach items body) := by
  induction items with
  | nil => exact pure ()
  | cons item rest ih => exact bind (round item) fun _ => ih

theorem collect {body : β → Service γ} (items : List β)
    (round : ∀ item, Keeps userId deletes allow (body item)) :
    Keeps userId deletes allow (Prog.collect items body) := by
  induction items with
  | nil => exact pure []
  | cons item rest ih => exact bind (round item) fun _ => bind ih fun _ => pure _

theorem query {exec : Statement Row Key Error β} (departs : ∀ rows o, UniqueKeys rows →
    exec rows = .ok o → Departs userId deletes rows (applyAll rows o.writes)) :
    Keeps userId deletes allow (Prog.query exec) := by
  intro done l
  refine Verified.query trivial fun rows inv standing o ran => ?_
  exact ⟨_, standing.ran (departs _ o (inv.1.applyAll _) ran), Standing.stable (l := l.ran rows o), rfl⟩

theorem read (answer : List Row → β) :
    Keeps userId deletes allow (Prog.query (.read answer)) := by
  refine query fun rows o _ ran => ?_
  cases ran
  exact Departs.refl rows

theorem leaves {k : Key} {rows : List Row} (aside : k.Aside) :
    Leaves userId deletes rows k := by
  cases k <;> trivial

section Aside

variable [Entity Row α]

/-- A table that no user, workspace or membership is stored in. -/
abbrev AsideTable (α : Type) [Entity Row α] : Prop := ∀ a : α, (key (toRow a : Row)).Aside

theorem puts (items : List α) (rows : List Row) (aside : AsideTable α) : Departs userId deletes rows
    (applyAll rows (items.map fun a => .put (toRow a : Row))) := by
  refine departs_writes (fun row put => ?_) fun k deleted => ?_
  · obtain ⟨a, _, same⟩ := List.mem_map.mp put
    cases same
    exact Or.inl (aside a)
  · obtain ⟨_, _, same⟩ := List.mem_map.mp deleted
    cases same

theorem create (a : α) (aside : AsideTable α := by exact fun _ => trivial) :
    Keeps userId deletes allow (Prog.query (.create a)) := by
  refine query fun rows o _ ran => ?_
  rw [(Statement.create_ok ran).2.1]
  exact puts [a] rows aside

theorem update (where_ : Where Row α) (change : α → α)
    (aside : AsideTable α := by exact fun _ => trivial) :
    Keeps userId deletes allow (Prog.query (.update where_ change)) := by
  refine query fun rows o _ ran => ?_
  obtain ⟨a, _, _, _, written⟩ := Statement.update_ok ran
  rw [written]
  exact puts [change a] rows aside

theorem updateMany (where_ : Where Row α) (change : α → α)
    (aside : AsideTable α := by exact fun _ => trivial) :
    Keeps userId deletes allow (Prog.query (.updateMany where_ change)) := by
  refine query fun rows o _ ran => ?_
  rw [(Statement.updateMany_ok ran).2]
  have departs : Departs userId deletes rows _ :=
    puts (((table rows).filter (where_ rows)).map change) rows aside
  rw [List.map_map] at departs
  exact departs

theorem deleteMany (where_ : Where Row α) (aside : AsideTable α := by exact fun _ => trivial) :
    Keeps userId deletes allow (Prog.query (.deleteMany where_)) := by
  refine query fun rows o unique ran => ?_
  rw [(Statement.deleteMany_ok ran).2]
  refine departs_deletion unique fun k member => ?_
  obtain ⟨a, _, rfl⟩ := List.mem_map.mp member
  exact leaves (aside a)

end Aside

theorem record (input : ActivityService.RecordActivityInput) :
    Keeps userId deletes allow (ActivityService.record input) :=
  bind (fun _ _ _ => rfl) fun _ => create _

theorem redactComment (departing : Id) (comment : Id × String) :
    Keeps userId deletes allow (AccountDeletionService.redactComment departing comment) := by
  unfold AccountDeletionService.redactComment
  dsimp only
  split
  · exact pure false
  · exact bind (update _ _) fun _ => pure true

theorem redactCommentMentions (departing : Id) (pages : Nat) (cursor : Option Id) (rewritten : Nat) :
    Keeps userId deletes allow
      (AccountDeletionService.redactCommentMentions departing pages cursor rewritten) := by
  induction pages generalizing cursor rewritten with
  | zero => exact fun _ _ => trivial
  | succ pages ih =>
      unfold AccountDeletionService.redactCommentMentions
      refine bind (read _) fun page => ?_
      split
      · exact pure rewritten
      · refine bind (collect page (redactComment departing)) fun changed => ?_
        dsimp only
        split
        · exact pure _
        · exact ih _ _

theorem erase (toLowerCase : String → String) (pages : Nat) (user : User)
    (counts : AccountDeletionCounts) :
    Keeps userId deletes allow (AccountDeletionService.erase toLowerCase pages user counts) := by
  unfold AccountDeletionService.erase
  refine bind (deleteMany _) fun _ => ?_
  refine bind (deleteMany _) fun _ => ?_
  refine bind (deleteMany _) fun _ => ?_
  refine bind (redactCommentMentions _ _ _ _) fun _ => ?_
  refine bind (updateMany _ _) fun _ => ?_
  refine bind (deleteMany _) fun _ => ?_
  refine bind (deleteMany _) fun _ => ?_
  refine bind (deleteMany _) fun _ => ?_
  refine bind (deleteMany _) fun _ => ?_
  refine bind (deleteMany _) fun _ => ?_
  exact bind (deleteMany _) fun _ => pure _

end Keeps

end Kurul
