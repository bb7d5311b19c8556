import Kurul.Cascade
import Kurul.Store.Answers
import Kurul.Store.RelyGuarantee
import Kurul.Workspace.MemberService

/-! Tokens beside the memberships they were created under. Creation inserts after its
guard, a removal revokes after it has deleted the member, and a use looks the member up
after the token. Where these gaps are clear of a membership that begins anew, a token
lets nobody in under a membership other than its own. -/
namespace Kurul

open Store Prog

inductive TokenCall where
  | createToken (workspaceId userId : Id) (dto : CreateTokenDto) (secret : String)
  | removeMember (workspaceId targetUserId : Id) (actor : WorkspaceMember)
  | leave (workspaceId : Id) (actor : WorkspaceMember)
  | addMember (workspaceId userId : Id) (role : MemberRole)
  | useToken (workspaceId : Id) (plaintext : String)

inductive TokenAnswer where
  | created (membership : WorkspaceMember) (token : CreatedPersonalAccessTokenDto)
  | authorised (token : ResolvedToken) (membership : WorkspaceMember)
  | done
  deriving DecidableEq

/-- The guards of the two routes that matter come first. -/
def TokenCall.service (hashToken : String → String) : TokenCall → Service TokenAnswer
  | .createToken workspaceId userId dto secret => do
      let membership ← WorkspaceGuard.canActivate workspaceId userId none
      let token ← TokenService.create hashToken workspaceId userId dto secret
      return .created membership token
  | .removeMember workspaceId targetUserId actor => do
      WorkspaceMemberService.removeMember workspaceId targetUserId actor
      return .done
  | .leave workspaceId actor => do
      WorkspaceMemberService.leave workspaceId actor
      return .done
  | .addMember workspaceId userId role => do
      let _ ← BetterAuth.addMember workspaceId userId role
      return .done
  | .useToken workspaceId plaintext => do
      let token ← SessionAuthGuard.authenticateToken hashToken plaintext workspaceId
      let membership ← WorkspaceGuard.canActivate workspaceId token.user.id (some token)
      return .authorised token membership

/-- What a guard finds. -/
def membershipIn (workspaceId userId : Id) (rows : List Row) : Option WorkspaceMember :=
  (table rows).find? fun (member : WorkspaceMember) =>
    member.workspaceId = workspaceId && member.userId = userId

/-- The membership is one of the user in the workspace. -/
def WorkspaceMember.of (workspaceId userId : Id) (member : WorkspaceMember) : Prop :=
  member.workspaceId = workspaceId ∧ member.userId = userId

instance (workspaceId userId : Id) (member : WorkspaceMember) :
    Decidable (member.of workspaceId userId) :=
  inferInstanceAs (Decidable (_ ∧ _))

theorem membershipIn_some {workspaceId userId : Id} {rows : List Row} {member : WorkspaceMember}
    (found : membershipIn workspaceId userId rows = some member) :
    member ∈ (table rows : List WorkspaceMember) ∧ member.of workspaceId userId := by
  constructor
  · exact List.mem_of_find?_eq_some found
  · simpa [WorkspaceMember.of] using List.find?_some found

theorem byHash_some {hash : String} {rows : List Row} {row : PersonalAccessToken} {user : User}
    (found : TokenService.byHash hash rows = some (row, user)) :
    row ∈ (table rows : List PersonalAccessToken) ∧ row.tokenHash = hash ∧ user.id = row.userId := by
  obtain ⟨first, stored, rest⟩ := Option.bind_eq_some_iff.mp found
  obtain ⟨second, owner, same⟩ := Option.bind_eq_some_iff.mp rest
  cases same
  refine ⟨List.mem_of_find?_eq_some stored, ?_, ?_⟩
  · simpa using List.find?_some stored
  · simpa using List.find?_some owner

section Calls

variable (hashToken : String → String)

/-- The call brings in this token. -/
def TokenCall.Mints : TokenCall → PersonalAccessToken → Prop
  | .createToken workspaceId userId _ secret, token =>
      token.workspaceId = workspaceId ∧ token.userId = userId ∧
        token.tokenHash = (mintToken hashToken secret).hash
  | _, _ => False

/-- The call brings in this membership. -/
def TokenCall.Admits : TokenCall → WorkspaceMember → Prop
  | .addMember workspaceId userId _, member => member.of workspaceId userId
  | _, _ => False

/-- A token that can be used was one before, or is the call's own; only an addition brings
in memberships. -/
def TokenCall.Puts (call : TokenCall) (rows : List Row) : Row → Prop
  | .personalAccessToken token => token.revokedAt = none → call.Mints hashToken token ∨
      ∃ old ∈ (table rows : List PersonalAccessToken), old.revokedAt = none ∧
        old.tokenHash = token.tokenHash ∧ old.workspaceId = token.workspaceId ∧
          old.userId = token.userId
  | .workspaceMember member => call.Admits member
  | _ => True

def TokenCall.promise (call : TokenCall) : Promise Row Key where
  statement l := l.pending = []
  commit l rows := ∀ row, .put row ∈ l.pending → call.Puts hashToken rows row

/-- What an answer says of the views behind it. -/
def TokenCall.Fits : TokenCall → List (List Row) → TokenAnswer → Prop
  | .createToken workspaceId userId _ secret, seen, .created membership token =>
      seen.head?.bind (membershipIn workspaceId userId) = some membership ∧
        token.token = (mintToken hashToken secret).plaintext
  | .useToken workspaceId plaintext, seen, .authorised _ membership => ∃ row user,
      seen.head?.bind (TokenService.byHash (hashToken plaintext)) = some (row, user) ∧
        row.revokedAt = none ∧ row.workspaceId = workspaceId ∧
          seen.getLast?.bind (membershipIn workspaceId user.id) = some membership
  | _, _, _ => True

variable {hashToken} {call : TokenCall} {l : Local Row Key} {A : Assertion Row}

/-- The free protocol, whose only assertions are those of the locks. -/
abbrev TokenCall.Verified (hashToken : String → String) (call : TokenCall) (p : Service α)
    (l : Local Row Key) (A : Assertion Row) (post : α → Local Row Key → Assertion Row → Prop) : Prop :=
  Store.Verified Protocol.free (fun _ => True) (call.promise hashToken) p l A post

theorem TokenCall.verified_fresh {post : Input → Local Row Key → Assertion Row → Prop}
    (rest : ∀ given, post given l A) : call.Verified hashToken Service.fresh l A post :=
  rest

/-- A transaction of one write whose rows are the call's to put, whatever is stored. -/
theorem TokenCall.verified_write {post : α → Local Row Key → Assertion Row → Prop}
    {exec : Statement Row Key Error α} (clean : l.pending = [])
    (puts : ∀ view o row, exec view = .ok o → .put row ∈ o.writes → ∀ rows, call.Puts hashToken rows row)
    (rest : ∀ value l', l'.pending = [] → post value l' fun _ => True) :
    call.Verified hashToken (transaction (query exec)) l A post := by
  apply Verified.transaction
  apply Verified.query clean
  intro view _ _ o ran
  refine ⟨fun _ => True, trivial, Stable.const _ _ True, ?_⟩
  intro rows _ _ _ _
  refine ⟨trivial, trivial, ?_, fun _ => True, trivial, Stable.const _ _ True, rest _ _ rfl⟩
  intro row member
  rw [Local.ran, clean, List.nil_append] at member
  exact puts _ o row ran member rows

theorem TokenCall.verified_create [Entity Row α] {post : α → Local Row Key → Assertion Row → Prop}
    (row : Input → α) (clean : l.pending = [])
    (puts : ∀ given rows, call.Puts hashToken rows (toRow (row given)))
    (rest : ∀ value l', l'.pending = [] → post value l' fun _ => True) :
    call.Verified hashToken
      (transaction (Service.fresh.bind fun given => query (.create (row given)))) l A post := by
  intro given
  apply TokenCall.verified_write clean _ rest
  intro view o stored ran member rows
  rw [(Statement.create_ok ran).2.1, List.mem_singleton, Write.put.injEq] at member
  subst member
  exact puts given rows

theorem TokenCall.verified_record {post : Activity → Local Row Key → Assertion Row → Prop}
    (input : ActivityService.RecordActivityInput) (clean : l.pending = [])
    (rest : ∀ value l', l'.pending = [] → post value l' fun _ => True) :
    call.Verified hashToken (transaction (ActivityService.record input)) l A post :=
  TokenCall.verified_create _ clean (fun _ _ => trivial) rest

theorem TokenCall.verified_lookup {post : α → Local Row Key → Assertion Row → Prop} {error : Error}
    {answer : List Row → Option α} (clean : l.pending = [])
    (rest : ∀ value l', l'.pending = [] → post value l' fun _ => True) :
    call.Verified hashToken (found (.read answer) error) l A post := by
  apply Verified.found clean
  intro rows value _ _ _
  exact ⟨fun _ => True, trivial, Stable.const _ _ True, rest _ _ clean⟩

theorem TokenCall.verified_isLastOwner {post : Bool → Local Row Key → Assertion Row → Prop} {workspaceId : Id}
    (clean : l.pending = []) (rest : ∀ value l', l'.pending = [] → post value l' fun _ => True) :
    call.Verified hashToken (WorkspaceMemberService.isLastOwner workspaceId) l A post := by
  apply Verified.bind
  apply Verified.query clean
  intro rows _ _ o ran
  cases ran
  exact ⟨fun _ => True, trivial, Stable.const _ _ True, rest _ _ (by simp [Local.ran, clean])⟩

theorem TokenCall.verified_deleteMember {post : Unit → Local Row Key → Assertion Row → Prop}
    {workspaceId memberId : Id} (clean : l.pending = [])
    (rest : ∀ l', l'.pending = [] → post () l' fun _ => True) :
    call.Verified hashToken
      (WorkspaceMemberService.rethrowMemberWriteError (BetterAuth.deleteMember workspaceId memberId))
      l A post := by
  have deleted : call.Verified hashToken (BetterAuth.deleteMember workspaceId memberId) l A post := by
    apply Verified.bind
    apply TokenCall.verified_write clean
    · intro view o row ran member rows
      obtain ⟨_, _, _, _, written⟩ := Statement.delete_ok ran
      rw [written] at member
      obtain ⟨_, gone, _⟩ | ⟨_, same⟩ | ⟨_, same⟩ := deletion_writes (d := 0) (by simp) member
      · cases gone
      · cases same; trivial
      · cases same; trivial
    · intro _ l' clean
      exact rest l' clean
  apply deleted.ending
  · intro _ _ _ rest
    exact rest
  · intro error _ _
    by_cases gone : error = .database .recordNotFound
    · rw [if_pos gone]
      trivial
    · rw [if_neg gone]
      trivial

theorem TokenCall.verified_revokeAllForMember {post : Nat → Local Row Key → Assertion Row → Prop}
    {workspaceId userId : Id} (clean : l.pending = [])
    (rest : ∀ value l', l'.pending = [] → post value l' fun _ => True) :
    call.Verified hashToken (TokenService.revokeAllForMember workspaceId userId) l A post := by
  intro clock
  apply TokenCall.verified_write clean _ rest
  intro view o row ran member rows
  rw [(Statement.updateMany_ok ran).2] at member
  obtain ⟨token, _, same⟩ := List.mem_map.mp member
  cases same
  intro usable
  cases usable

/-- The stamped row is locked until the commit, so it is not one revoked in the meantime. -/
theorem TokenCall.verified_stamp {post : Unit → Local Row Key → Assertion Row → Prop} {now : DateTime}
    {token : PersonalAccessToken} (clean : l.pending = [])
    (rest : ∀ l' A', l'.pending = [] → post () l' A') :
    call.Verified hashToken (TokenService.stamp now token) l A post := by
  unfold TokenService.stamp
  split
  · apply Verified.bind
    apply Verified.transaction
    apply Verified.query clean
    intro view _ _ o ran
    obtain ⟨old, stored, _, _, written⟩ := Statement.update_ok ran
    have fresh : l.view view = view := by rw [Local.view, clean, applyAll_nil]
    rw [fresh] at stored
    have owns : Owns (l.held ++ o.footprint) (key (toRow old : Row)) :=
      Owns.of_footprint (by simp [written, touched, Write.target]; rfl) _
    refine ⟨fun rows => toRow old ∈ rows, mem_table.mp stored, ?_, ?_⟩
    · intro before after moved there
      exact (moved.frame _ owns).mp there
    · intro rows _ there _ _
      refine ⟨trivial, trivial, ?_, fun _ => True, trivial, Stable.const _ _ True, rest _ _ rfl⟩
      intro row member
      rw [Local.ran, clean, List.nil_append, written, List.mem_singleton, Write.put.injEq] at member
      subst member
      intro usable
      exact .inr ⟨old, mem_table.mpr there, usable, rfl, rfl, rfl⟩
  · exact rest l A clean

theorem TokenCall.verified_assertMayRemove {post : Unit → Local Row Key → Assertion Row → Prop} {workspaceId : Id}
    {target : MemberRow} {actor : WorkspaceMember} (clean : l.pending = [])
    (rest : ∀ l' A', l'.pending = [] → post () l' A') :
    call.Verified hashToken (WorkspaceMemberService.assertMayRemove workspaceId target actor) l A post := by
  unfold WorkspaceMemberService.assertMayRemove
  split
  · apply Verified.bind
    apply Verified.require
    intro _
    apply Verified.bind
    apply TokenCall.verified_isLastOwner clean
    intro last l clean
    apply Verified.require
    intro _
    exact rest l _ clean
  · exact rest l A clean

theorem TokenCall.verified_assertMayLeave {post : Unit → Local Row Key → Assertion Row → Prop} {workspaceId : Id}
    {membership : MemberRow} (clean : l.pending = []) (rest : ∀ l' A', l'.pending = [] → post () l' A') :
    call.Verified hashToken (WorkspaceMemberService.assertMayLeave workspaceId membership) l A post := by
  unfold WorkspaceMemberService.assertMayLeave
  split
  · apply Verified.bind
    apply TokenCall.verified_isLastOwner clean
    intro last l clean
    apply Verified.require
    intro _
    exact rest l _ clean
  · exact rest l A clean

theorem TokenCall.verified_resolve {post : Option ResolvedToken → Local Row Key → Assertion Row → Prop}
    {plaintext : String} (clean : l.pending = [])
    (rest : ∀ value l' A', l'.pending = [] → post value l' A') :
    call.Verified hashToken (TokenService.resolve hashToken plaintext) l A post := by
  apply Verified.bind
  apply TokenCall.verified_fresh
  intro clock
  apply Verified.bind
  apply Verified.query clean
  intro rows _ _ o ran
  cases ran
  refine ⟨fun _ => True, trivial, Stable.const _ _ True, ?_⟩
  dsimp only
  split
  · exact rest _ _ _ (by simp [Local.ran, clean])
  · split
    · apply Verified.bind
      apply TokenCall.verified_stamp
      · simp [Local.ran, clean]
      · intro l A clean
        exact rest _ l A clean
    · exact rest _ _ _ (by simp [Local.ran, clean])

/-- Every call keeps its promise. -/
theorem TokenCall.verified (hashToken : String → String) (call : TokenCall) :
    call.Verified hashToken (call.service hashToken) {} (fun _ => True) fun _ _ _ => True := by
  cases call with
  | createToken workspaceId userId dto secret =>
      apply Verified.bind
      apply Verified.bind
      apply Verified.require
      intro _
      apply TokenCall.verified_lookup rfl
      intro membership l clean
      apply Verified.bind
      apply Verified.bind
      apply TokenCall.verified_fresh
      intro clock
      apply Verified.bind
      apply Verified.require
      intro _
      apply Verified.bind
      apply TokenCall.verified_create _ clean
      · intro given rows _
        exact .inl ⟨rfl, rfl, rfl⟩
      · intro row l clean
        apply Verified.bind
        apply TokenCall.verified_record _ clean
        intro _ l clean
        trivial
  | removeMember workspaceId targetUserId actor =>
      apply Verified.bind
      apply Verified.bind
      apply Verified.require
      intro _
      apply Verified.bind
      apply TokenCall.verified_lookup rfl
      intro target l clean
      apply Verified.bind
      apply TokenCall.verified_assertMayRemove clean
      intro l A clean
      apply Verified.bind
      apply TokenCall.verified_deleteMember clean
      intro l clean
      apply Verified.bind
      apply Verified.bind
      apply TokenCall.verified_record _ clean
      intro _ l clean
      apply Verified.bind
      apply TokenCall.verified_revokeAllForMember clean
      intro _ l clean
      trivial
  | leave workspaceId actor =>
      apply Verified.bind
      apply Verified.bind
      apply TokenCall.verified_lookup rfl
      intro membership l clean
      apply Verified.bind
      apply TokenCall.verified_assertMayLeave clean
      intro l A clean
      apply Verified.bind
      apply TokenCall.verified_deleteMember clean
      intro l clean
      apply Verified.bind
      apply TokenCall.verified_record _ clean
      intro _ l clean
      apply Verified.bind
      apply Verified.bind
      apply TokenCall.verified_revokeAllForMember clean
      intro _ l clean
      trivial
  | addMember workspaceId userId role =>
      apply Verified.bind
      apply TokenCall.verified_create _ rfl
      · intro given rows
        exact ⟨rfl, rfl⟩
      · intro _ _ _
        trivial
  | useToken workspaceId plaintext =>
      apply Verified.bind
      apply Verified.bind
      apply TokenCall.verified_resolve rfl
      intro resolved l A clean
      apply Verified.bind
      apply Verified.getOrThrow
      intro token _
      apply Verified.bind
      apply Verified.require
      intro _
      apply Verified.bind
      apply Verified.bind
      apply Verified.require
      intro _
      apply TokenCall.verified_lookup clean
      intro membership l clean
      trivial

/-- The first view stays the first. -/
theorem head_append {seen : List (List Row)} {first : List Row} (more : List Row)
    (head : seen.head? = some first) : (seen ++ [more]).head? = some first := by
  cases seen with
  | nil => cases head
  | cons => exact head

theorem TokenCall.create_answers (hashToken : String → String) (workspaceId userId : Id) (dto : CreateTokenDto)
    (secret : String) {seen : List (List Row)} {first : List Row} (head : seen.head? = some first) :
    (TokenService.create hashToken workspaceId userId dto secret).Answers
      (fun seen token => seen.head? = some first ∧
        token.token = (mintToken hashToken secret).plaintext) seen := by
  apply Answers.bind
  intro clock
  apply Answers.bind
  apply Answers.require
  intro _
  apply Answers.bind
  apply Answers.any (I := fun seen => seen.head? = some first) (fun _ _ => head_append _) _ head
  intro seen row head
  apply Answers.bind
  apply Answers.any (I := fun seen => seen.head? = some first) (fun _ _ => head_append _) _ head
  intro seen _ head
  exact ⟨head, rfl⟩

theorem TokenCall.resolve_answers (hashToken : String → String) (plaintext : String) :
    (TokenService.resolve hashToken plaintext).Answers
      (fun seen resolved => ∀ token, resolved = some token → ∃ row user,
        seen.head?.bind (TokenService.byHash (hashToken plaintext)) = some (row, user) ∧
          row.revokedAt = none ∧ token.workspaceId = row.workspaceId ∧ token.user = user) [] := by
  apply Answers.bind
  intro clock
  apply Answers.bind
  apply Answers.read
  intro first
  cases hit : TokenService.byHash (hashToken plaintext) first with
  | none =>
      intro token resolved
      cases resolved
  | some found =>
      obtain ⟨row, user⟩ := found
      dsimp only
      split
      · rename_i live
        apply Answers.bind
        apply Answers.any (I := fun seen => seen.head? = some first) (fun _ _ => head_append _) _ rfl
        rintro seen _ head token resolved
        cases resolved
        simp only [TokenService.isLive, Bool.and_eq_true, Option.isNone_iff_eq_none] at live
        exact ⟨row, user, by rw [head]; exact hit, live.1.1, rfl, rfl⟩
      · intro token resolved
        cases resolved

/-- Answers fit, in whatever order the statements run. -/
theorem TokenCall.answers (hashToken : String → String) (call : TokenCall) :
    (call.service hashToken).Answers (call.Fits hashToken) [] := by
  cases call with
  | createToken workspaceId userId dto secret =>
      apply Answers.bind
      apply Answers.bind
      apply Answers.require
      intro _
      apply Answers.found
      intro first membership hit
      have head : [first].head? = some first := rfl
      apply (TokenCall.create_answers hashToken workspaceId userId dto secret head).andThen
      rintro token seen ⟨head, same⟩
      refine ⟨?_, same⟩
      rw [head]
      exact hit
  | useToken workspaceId plaintext =>
      apply Answers.bind
      apply (TokenCall.resolve_answers hashToken plaintext).andThen
      intro resolved seen known
      apply Answers.bind
      apply Answers.getOrThrow
      intro token got
      obtain ⟨row, user, head, live, workspace, owner⟩ := known token got
      apply Answers.bind
      apply Answers.require
      intro same
      apply Answers.bind
      apply Answers.bind
      apply Answers.require
      intro _
      apply Answers.found
      intro view membership hit
      refine ⟨row, user, ?_, live, ?_, ?_⟩
      · cases seen with
        | nil => cases head
        | cons => exact head
      · rw [← workspace]
        exact (of_decide_eq_true same).symm
      · rw [List.getLast?_append, ← owner]
        exact hit
  | removeMember | leave | addMember =>
      exact Answers.any (I := fun _ => True) (fun _ _ _ => trivial) (fun _ _ _ => trivial) trivial _

end Calls

section Runs

/-- The hash a creation stores. -/
def TokenCall.mintedHash (hashToken : String → String) : TokenCall → Option String
  | .createToken _ _ _ secret => some (mintToken hashToken secret).hash
  | _ => none

/-- No two creations mint the same token, and none mints one that is stored. -/
structure FreshSecrets {ι : Type} (hashToken : String → String) (calls : ι → TokenCall)
    (rows : List Row) : Prop where
  distinct : ∀ {i j hash}, (calls i).mintedHash hashToken = some hash →
    (calls j).mintedHash hashToken = some hash → i = j
  unstored : ∀ i, ∀ token ∈ (table rows : List PersonalAccessToken),
    (calls i).mintedHash hashToken ≠ some token.tokenHash

/-- The membership a creation's guard has found, from the views so far. -/
def foundBy (workspaceId userId : Id) (seen : List (List Row)) : Option Id :=
  (seen.head?.bind (membershipIn workspaceId userId)).map (·.id)

/-- The user's only membership in the workspace is this one. -/
def OnlyMember (workspaceId userId : Id) (found : Option Id) (rows : List Row) : Prop :=
  ∀ member ∈ (table rows : List WorkspaceMember), member.of workspaceId userId → some member.id = found

/-- Before the guard has run, nothing can contradict it. -/
theorem OnlyMember.grown {workspaceId userId : Id} {seen more : List (List Row)} {rows : List Row}
    (only : OnlyMember workspaceId userId (foundBy workspaceId userId seen) rows) :
    OnlyMember workspaceId userId (foundBy workspaceId userId (seen ++ more)) rows := by
  cases seen with
  | nil =>
      intro member stored own
      cases only member stored own
  | cons => exact only

variable {ι : Type} [DecidableEq ι] {hashToken : String → String} {calls : ι → TokenCall}
  {s u : System ι Row Key Event Input Error TokenAnswer}

/-- The write stores a token. -/
def storesToken : Write Row Key → Bool
  | .put (.personalAccessToken _) => true
  | _ => false

/-- A token is committed while its membership has no successor, a membership is committed
while no usable token of the user is left, and a use looks up no membership that was not
there when it looked up the token. -/
def TokenCall.Timely (hashToken : String → String) (t : Thread Row Key Event Input Error TokenAnswer)
    (rows : List Row) : TokenCall → Prop
  | .createToken workspaceId userId _ _ => t.prog.commits = true → t.pending.any storesToken = true →
      OnlyMember workspaceId userId (foundBy workspaceId userId t.seen) rows
  | .addMember workspaceId userId _ => t.prog.commits = true →
      ∀ token ∈ (table rows : List PersonalAccessToken),
        token.workspaceId = workspaceId → token.userId = userId → token.revokedAt ≠ none
  | .useToken _ plaintext => t.prog.commits = false →
      ∀ view ∈ t.seen.head?, ∀ hit ∈ TokenService.byHash (hashToken plaintext) view,
        ∀ member ∈ (table rows : List WorkspaceMember), member.of hit.1.workspaceId hit.2.id →
          ∃ old ∈ (table view : List WorkspaceMember),
            old.id = member.id ∧ old.of hit.1.workspaceId hit.2.id
  | .removeMember .. | .leave .. => True

instance (t : Thread Row Key Event Input Error TokenAnswer) (rows : List Row) :
    (call : TokenCall) → Decidable (call.Timely hashToken t rows)
  | .createToken .. => inferInstanceAs (Decidable (_ → _ → ∀ _ ∈ _, _))
  | .addMember .. => inferInstanceAs (Decidable (_ → ∀ _ ∈ _, _))
  | .useToken .. => inferInstanceAs (Decidable (_ → ∀ _ ∈ _, _))
  | .removeMember .. | .leave .. => .isTrue trivial

def TokenTimely (hashToken : String → String) (calls : ι → TokenCall)
    (s : System ι Row Key Event Input Error TokenAnswer) : Action ι Input Error → Prop
  | .run i _ => (calls i).Timely hashToken (s.threads i) s.rows
  | .fail .. => True

instance (s : System ι Row Key Event Input Error TokenAnswer) :
    (action : Action ι Input Error) → Decidable (TokenTimely hashToken calls s action)
  | .run i _ => inferInstanceAs (Decidable ((calls i).Timely hashToken (s.threads i) s.rows))
  | .fail .. => .isTrue trivial

/-- What is known of the token with this hash: while it can be used, its user's only
membership is the one found before its creation, and so it is in the views of its uses. -/
structure Tied (hashToken : String → String) (calls : ι → TokenCall) (c : ι)
    (workspaceId userId : Id) (hash : String)
    (s : System ι Row Key Event Input Error TokenAnswer) : Prop where
  stored : ∀ token ∈ (table s.rows : List PersonalAccessToken), token.tokenHash = hash →
    token.revokedAt = none → token.workspaceId = workspaceId ∧ token.userId = userId ∧
      OnlyMember workspaceId userId (foundBy workspaceId userId (s.threads c).seen) s.rows
  used : ∀ {j w plaintext row user}, calls j = .useToken w plaintext → hashToken plaintext = hash →
    (s.threads j).seen.head?.bind (TokenService.byHash hash) = some (row, user) →
      row.revokedAt = none → row.workspaceId = workspaceId ∧ row.userId = userId ∧
        ∀ view ∈ (s.threads j).seen,
          OnlyMember workspaceId userId (foundBy workspaceId userId (s.threads c).seen) view

variable {c : ι} {workspaceId userId : Id} {hash : String}

omit [DecidableEq ι] in
/-- A commit under the promises of the calls. -/
theorem Tied.commit (tied : Tied hashToken calls c workspaceId userId hash s) {i : ι} {x : Input}
    {dto : CreateTokenDto} {secret : String}
    (creates : calls c = .createToken workspaceId userId dto secret)
    (minted : (mintToken hashToken secret).hash = hash)
    (distinct : ∀ {i j hash}, (calls i).mintedHash hashToken = some hash →
      (calls j).mintedHash hashToken = some hash → i = j)
    (timely : TokenTimely hashToken calls s (.run i x)) (commits : (s.threads i).prog.commits = true)
    (promised : ∀ row, .put row ∈ (s.threads i).pending → (calls i).Puts hashToken s.rows row) :
    ∀ token ∈ (table (applyAll s.rows (s.threads i).pending) : List PersonalAccessToken),
      token.tokenHash = hash → token.revokedAt = none →
        token.workspaceId = workspaceId ∧ token.userId = userId ∧
          OnlyMember workspaceId userId (foundBy workspaceId userId (s.threads c).seen)
            (applyAll s.rows (s.threads i).pending) := by
  intro token member same usable
  have old : ∀ old ∈ (table s.rows : List PersonalAccessToken), old.revokedAt = none →
      old.tokenHash = hash → old.workspaceId = workspaceId ∧ old.userId = userId ∧
        OnlyMember workspaceId userId (foundBy workspaceId userId (s.threads c).seen)
          (applyAll s.rows (s.threads i).pending) := by
    intro old stored live sameHash
    obtain ⟨inWorkspace, ofUser, only⟩ := tied.stored old stored sameHash live
    refine ⟨inWorkspace, ofUser, ?_⟩
    intro someone present own
    rcases mem_applyAll_cases (mem_table.mp present) with written | ⟨before, _⟩
    · have admits : (calls i).Admits someone := promised _ written
      cases call : calls i with
      | addMember w v role =>
          rw [call] at admits
          simp only [TokenTimely, call, TokenCall.Timely] at timely
          obtain ⟨left, right⟩ := admits
          obtain ⟨left', right'⟩ := own
          exact absurd live (timely commits old stored (by rw [inWorkspace, ← left', left])
            (by rw [ofUser, ← right', right]))
      | _ =>
          rw [call] at admits
          cases admits
    · exact only someone (mem_table.mpr before) own
  rcases mem_applyAll_cases (mem_table.mp member) with written | ⟨before, _⟩
  · rcases promised _ written usable with mints | ⟨previous, stored, live, sameHash, inWorkspace, ofUser⟩
    · cases call : calls i with
      | createToken w v dto' secret' =>
          rw [call] at mints
          have mine : (calls i).mintedHash hashToken = some hash := by
            rw [call, TokenCall.mintedHash, ← mints.2.2, same]
          have first : (calls c).mintedHash hashToken = some hash := by
            rw [creates, TokenCall.mintedHash, minted]
          have itself : i = c := distinct mine first
          subst itself
          simp only [creates, TokenCall.createToken.injEq] at call
          obtain ⟨rfl, rfl, _, _⟩ := call
          refine ⟨mints.1, mints.2.1, ?_⟩
          simp only [TokenTimely, creates, TokenCall.Timely] at timely
          intro someone present own
          rcases mem_applyAll_cases (mem_table.mp present) with added | ⟨before, _⟩
          · have admits : (calls i).Admits someone := promised _ added
            rw [creates] at admits
            cases admits
          · exact timely commits (List.any_eq_true.mpr ⟨_, written, rfl⟩) someone (mem_table.mpr before) own
      | _ =>
          rw [call] at mints
          cases mints
    · rw [← inWorkspace, ← ofUser]
      exact old previous stored live (sameHash.trans same)
  · exact old token (mem_table.mpr before) usable same

/-- A statement is shown the committed rows. -/
theorem Tied.ran (tied : Tied hashToken calls c workspaceId userId hash s) {i : ι} {x : Input}
    (timely : TokenTimely hashToken calls s (.run i x)) (asks : (s.threads i).prog.commits = false)
    (rows : u.rows = s.rows) (seen : (u.threads i).seen = (s.threads i).seen ++ [s.rows])
    (others : ∀ j, j ≠ i → u.threads j = s.threads j) :
    Tied hashToken calls c workspaceId userId hash u := by
  have grown : ∀ rows, OnlyMember workspaceId userId (foundBy workspaceId userId (s.threads c).seen) rows →
      OnlyMember workspaceId userId (foundBy workspaceId userId (u.threads c).seen) rows := by
    intro rows only
    by_cases same : c = i
    · subst same
      rw [seen]
      exact only.grown
    · rwa [others c same]
  constructor
  · rw [rows]
    intro token stored same usable
    obtain ⟨inWorkspace, ofUser, only⟩ := tied.stored token stored same usable
    exact ⟨inWorkspace, ofUser, grown _ only⟩
  · intro j w plaintext row user uses hashed shown usable
    by_cases mine : j = i
    · subst mine
      rw [seen] at shown ⊢
      cases before : (s.threads j).seen with
      | nil =>
          rw [before] at shown
          obtain ⟨stored, same, _⟩ := byHash_some shown
          obtain ⟨inWorkspace, ofUser, only⟩ := tied.stored row stored same usable
          refine ⟨inWorkspace, ofUser, ?_⟩
          intro view member
          rw [List.nil_append, List.mem_singleton] at member
          subst member
          exact grown _ only
      | cons first rest =>
          rw [before] at shown
          have head : (s.threads j).seen.head?.bind (TokenService.byHash hash) = some (row, user) := by
            rw [before]
            exact shown
          obtain ⟨inWorkspace, ofUser, only⟩ := tied.used uses hashed head usable
          refine ⟨inWorkspace, ofUser, ?_⟩
          intro view member
          rcases List.mem_append.mp member with earlier | now
          · exact grown _ (only view (before ▸ earlier))
          · rw [List.mem_singleton] at now
            subst now
            apply grown
            intro someone stored own
            simp only [TokenTimely, uses, TokenCall.Timely, hashed] at timely
            have owner : user.id = userId := (byHash_some shown).2.2.trans ofUser
            obtain ⟨old, there, sameId, ownOld⟩ := timely asks first (by rw [before]; rfl) (row, user) shown
              someone stored (by rw [inWorkspace, owner]; exact own)
            rw [← sameId]
            rw [inWorkspace, owner] at ownOld
            exact only first (by rw [before]; exact List.mem_cons_self) old there ownOld
    · rw [others j mine] at shown ⊢
      obtain ⟨inWorkspace, ofUser, only⟩ := tied.used uses hashed shown usable
      exact ⟨inWorkspace, ofUser, fun view member => grown _ (only view member)⟩

omit [DecidableEq ι] in
/-- Where the views stay as they are, only the rows are to be shown. -/
theorem Tied.of_seen (tied : Tied hashToken calls c workspaceId userId hash s)
    (seen : ∀ j, (u.threads j).seen = (s.threads j).seen)
    (stored : ∀ token ∈ (table u.rows : List PersonalAccessToken), token.tokenHash = hash →
      token.revokedAt = none → token.workspaceId = workspaceId ∧ token.userId = userId ∧
        OnlyMember workspaceId userId (foundBy workspaceId userId (s.threads c).seen) u.rows) :
    Tied hashToken calls c workspaceId userId hash u := by
  constructor
  · rw [seen]
    exact stored
  · intro j w plaintext row user uses hashed shown usable
    rw [seen] at shown ⊢
    rw [seen]
    exact tied.used uses hashed shown usable

theorem Tied.step (sound : Sound Protocol.free (fun _ _ => True) (fun i => (calls i).promise hashToken) s)
    (tied : Tied hashToken calls c workspaceId userId hash s) {action : Action ι Input Error}
    {dto : CreateTokenDto} {secret : String}
    (creates : calls c = .createToken workspaceId userId dto secret)
    (minted : (mintToken hashToken secret).hash = hash)
    (distinct : ∀ {i j hash}, (calls i).mintedHash hashToken = some hash →
      (calls j).mintedHash hashToken = some hash → i = j)
    (timely : TokenTimely hashToken calls s action) (stepped : s.step action = some u) :
    Tied hashToken calls c workspaceId userId hash u := by
  obtain ⟨effect, others⟩ := System.step_effect stepped
  have stays : (u.threads action.actor).seen = (s.threads action.actor).seen →
      ∀ j, (u.threads j).seen = (s.threads j).seen := by
    intro own j
    by_cases same : j = action.actor
    · rw [same]
      exact own
    · rw [others j same]
  cases effect with
  | ran exec next o here answered rows thread =>
      have clean : (s.threads action.actor).pending = [] := sound.waits here
      have seen : (u.threads action.actor).seen = (s.threads action.actor).seen ++ [s.rows] := by
        rw [thread, clean, applyAll_nil]
      cases action with
      | run i x =>
          rw [Action.actor] at here
          exact tied.ran timely (by rw [here]; rfl) rows seen others
      | fail i error =>
          rw [Action.actor] at here seen
          simp only [System.step, here, Option.some.injEq] at stepped
          subst stepped
          simp at seen
  | committed x next acts here rows thread =>
      have runs : TokenTimely hashToken calls s (.run action.actor x) := by
        rw [← acts]
        exact timely
      have promised := (sound.commit action.actor here trivial).1
      apply tied.of_seen (stays (by rw [thread]))
      rw [rows]
      exact tied.commit creates minted distinct runs (by rw [here]; rfl) promised
  | moved rows seen ended =>
      apply tied.of_seen (stays seen)
      rw [rows]
      exact tied.stored

theorem reaches_tied {rows : List Row} (fresh : FreshSecrets hashToken calls rows)
    {dto : CreateTokenDto} {secret : String}
    (creates : calls c = .createToken workspaceId userId dto secret)
    (run : System.Reaches (TokenTimely hashToken calls)
      { rows, threads := fun i => { prog := (calls i).service hashToken } } s) :
    Tied hashToken calls c workspaceId userId (mintToken hashToken secret).hash s := by
  have both : Sound Protocol.free (fun _ _ => True) (fun i => (calls i).promise hashToken) s ∧
      Tied hashToken calls c workspaceId userId (mintToken hashToken secret).hash s := by
    apply run.invariant
    · rintro t action u ⟨sound, tied⟩ timely stepped
      constructor
      · exact sound.step (fun _ _ _ _ _ => trivial) stepped
      · exact tied.step sound creates rfl fresh.distinct timely stepped
    · constructor
      · exact Sound.initial trivial fun i => (calls i).verified hashToken
      · constructor
        · intro token stored same
          apply absurd _ (fresh.unstored c token stored)
          rw [creates, TokenCall.mintedHash, same]
        · intro j w plaintext row user _ _ shown
          cases shown
  exact both.2

/-- A token that a creation answered lets a request in only under the membership that the
creation was let in under. -/
theorem token_keeps_to_its_membership (hashToken : String → String) (calls : ι → TokenCall)
    {rows : List Row} (fresh : FreshSecrets hashToken calls rows)
    (run : System.Reaches (TokenTimely hashToken calls)
      { rows, threads := fun i => { prog := (calls i).service hashToken } } s)
    {i j : ι} {dto : CreateTokenDto} {secret : String} {route : Id}
    {membership found : WorkspaceMember} {token : CreatedPersonalAccessTokenDto}
    {resolved : ResolvedToken} (creates : calls i = .createToken workspaceId userId dto secret)
    (created : (s.threads i).prog = .pure (.created membership token))
    (uses : calls j = .useToken route token.token)
    (authorised : (s.threads j).prog = .pure (.authorised resolved found)) :
    found.id = membership.id := by
  have answers : ∀ i, (s.threads i).prog.Answers ((calls i).Fits hashToken) (s.threads i).seen :=
    run.answers fun i => (calls i).answers hashToken
  have minted := answers i
  have used := answers j
  rw [created, creates] at minted
  rw [authorised, uses] at used
  obtain ⟨guarded, same⟩ := minted
  obtain ⟨row, user, shown, usable, here, last⟩ := used
  have tied := reaches_tied fresh creates run
  have hashed : hashToken token.token = (mintToken hashToken secret).hash := by
    rw [same]
    rfl
  rw [hashed] at shown
  obtain ⟨inWorkspace, ofUser, only⟩ := tied.used uses hashed shown usable
  obtain ⟨view, ends, hit⟩ := Option.bind_eq_some_iff.mp last
  obtain ⟨first, _, found'⟩ := Option.bind_eq_some_iff.mp shown
  obtain ⟨stored, own⟩ := membershipIn_some hit
  have same : some found.id = foundBy workspaceId userId (s.threads i).seen := by
    apply only view (List.mem_of_getLast? ends) found stored
    rw [← inWorkspace, ← ofUser, here, ← (byHash_some found').2.2]
    exact own
  rw [foundBy, guarded, Option.map_some, Option.some.injEq] at same
  exact same

end Runs

section Sample

/-- Ann owns the workspace of which Bob is a member. -/
inductive TokenCaller where
  | create | remove | rejoin | use
  deriving DecidableEq

def sampleSecret : String := "AAECAwQFBgcICQoLDA0ODxAREhMUFRYXGBkaGxwdHh8"

/-- SHA-256, as far as the samples need it. -/
def sampleHash (plaintext : String) : String :=
  if plaintext = PERSONAL_ACCESS_TOKEN_PREFIX ++ sampleSecret then
    "c00a32271d12ebf85fa77155360278887a523c02056883b9e8273f8977774a12"
  else plaintext

/-- Bob's token is created while he is removed, and used when he is back. -/
def tokenCalls : TokenCaller → TokenCall
  | .create => .createToken "w" "bob" { name := "laptop" } sampleSecret
  | .remove => .removeMember "w" "bob" { id := "m1", workspaceId := "w", userId := "ann", role := .OWNER }
  | .rejoin => .addMember "w" "bob" .MEMBER
  | .use => .useToken "w" (PERSONAL_ACCESS_TOKEN_PREFIX ++ sampleSecret)

def tokenStart : System TokenCaller Row Key Event Input Error TokenAnswer :=
  { rows := sampleWorkspace, threads := fun i => { prog := (tokenCalls i).service sampleHash } }

theorem fresh_sample : FreshSecrets sampleHash tokenCalls sampleWorkspace := by
  constructor
  · intro i j hash left right
    cases i <;> cases j <;> simp_all [tokenCalls, TokenCall.mintedHash]
  · intro i token stored
    simp [table, sampleWorkspace, ofRow] at stored

/-- The memberships of the creation and of the use, where both have been let in. -/
def letIn (s : System TokenCaller Row Key Event Input Error TokenAnswer) : Option (Id × Id × String) :=
  match (s.threads .create).prog.answer, (s.threads .use).prog.answer with
  | some (.created membership token), some (.authorised _ found) =>
      some (membership.id, found.id, token.token)
  | _, _ => none

/-- The guard of the creation lets Bob in before he is removed, and the token is stored
after his tokens have been revoked; the next membership brings it to life. -/
theorem token_outlives_its_membership :
    ¬ ∀ (hashToken : String → String) (calls : TokenCaller → TokenCall) (rows : List Row)
      (s : System TokenCaller Row Key Event Input Error TokenAnswer) (i j : TokenCaller)
      (workspaceId userId route : Id) (dto : CreateTokenDto) (secret : String)
      (membership found : WorkspaceMember) (token : CreatedPersonalAccessTokenDto)
      (resolved : ResolvedToken),
      UniqueKeys rows → FreshSecrets hashToken calls rows →
      System.Reaches (fun _ _ => True)
        { rows, threads := fun i => { prog := (calls i).service hashToken } } s →
      calls i = .createToken workspaceId userId dto secret →
      (s.threads i).prog = .pure (.created membership token) →
      calls j = .useToken route token.token →
      (s.threads j).prog = .pure (.authorised resolved found) → found.id = membership.id := by
  intro claim
  have ends : (tokenStart.runs (turns (List.replicate 1 .create ++ List.replicate 10 .remove ++
      List.replicate 7 .create ++ List.replicate 3 .rejoin ++ List.replicate 5 .use))).map letIn =
      some (some ("m2", "18", PERSONAL_ACCESS_TOKEN_PREFIX ++ sampleSecret)) := by
    decide +kernel
  obtain ⟨s, ran, facts⟩ := Option.map_eq_some_iff.mp ends
  unfold letIn at facts
  split at facts
  · rename_i membership token resolved found created authorised
    simp only [Option.some.injEq, Prod.mk.injEq] at facts
    obtain ⟨first, second, same⟩ := facts
    have kept := claim sampleHash tokenCalls sampleWorkspace s .create .use _ _ _ _ _ _ _ _ _
      (by decide +kernel) fresh_sample (.of_runs (fun _ _ => trivial) _ ran) rfl (of_answer created)
      (by rw [same]; rfl) (of_answer authorised)
    rw [first, second] at kept
    exact absurd kept (by decide)
  · cases facts

/-- The token is created and used while nothing else happens. -/
theorem token_keeps_to_its_membership_in_turn :
    ∃ (s : System TokenCaller Row Key Event Input Error TokenAnswer) (membership found : WorkspaceMember)
      (token : CreatedPersonalAccessTokenDto) (resolved : ResolvedToken),
    System.Reaches (TokenTimely sampleHash tokenCalls) tokenStart s ∧
    (s.threads .create).prog = .pure (.created membership token) ∧
    (s.threads .use).prog = .pure (.authorised resolved found) ∧ found.id = membership.id := by
  have ends : (tokenStart.runsChecked (fun s action => TokenTimely sampleHash tokenCalls s action)
      (turns (List.replicate 8 .create ++ List.replicate 5 .use))).map letIn =
      some (some ("m2", "m2", PERSONAL_ACCESS_TOKEN_PREFIX ++ sampleSecret)) := by
    decide +kernel
  obtain ⟨s, ran, facts⟩ := Option.map_eq_some_iff.mp ends
  unfold letIn at facts
  split at facts
  · rename_i membership token resolved found created authorised
    simp only [Option.some.injEq, Prod.mk.injEq] at facts
    have run : System.Reaches (TokenTimely sampleHash tokenCalls) tokenStart s :=
      .of_runsChecked (fun _ _ => of_decide_eq_true) _ ran
    refine ⟨s, membership, found, token, resolved, run, of_answer created, of_answer authorised, ?_⟩
    exact token_keeps_to_its_membership sampleHash tokenCalls fresh_sample run rfl (of_answer created)
      (by rw [facts.2.2]; rfl) (of_answer authorised)
  · cases facts

end Sample
end Kurul
