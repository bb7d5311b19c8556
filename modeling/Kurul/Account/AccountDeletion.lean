import Kurul.Service
import Kurul.Text
import Mathlib

/-! Account deletion: what becomes of every workspace the account solely owns is
decided by the request, and one transaction then anonymises the user row and removes
the rest. Which workspaces those are is read before the transaction. -/
namespace Kurul

open Store Prog

def ANONYMOUS_USER_NAME : String := "Deleted user"
def COMMENT_REDACTION_PAGE : Nat := 500

def anonymisedEmailFor (userId : Id) : String := "deleted-" ++ userId ++ "@deleted.invalid"

/-- The columns an erasure writes over the user row. -/
def anonymisedUserFields (deletedAt : DateTime) (user : User) : User :=
  { user with
    email := anonymisedEmailFor user.id
    name := ANONYMOUS_USER_NAME
    emailVerified := false
    avatarUrl := none
    locale := none
    deletedAt := some deletedAt }

inductive WorkspaceDispositionAction where
  | transfer | delete
  deriving DecidableEq

structure WorkspaceDispositionDto where
  workspaceId : Id
  action : WorkspaceDispositionAction
  newOwnerUserId : Option Id := none

structure DeleteAccountDto where
  confirmEmail : String
  dispositions : Option (List WorkspaceDispositionDto) := none

/-- `dto.dispositions ?? []`. -/
def DeleteAccountDto.decisions (dto : DeleteAccountDto) : List WorkspaceDispositionDto :=
  dto.dispositions.getD []

structure MembershipRow where
  workspaceId : Id
  role : MemberRole

namespace DeletionInitiator

def text : DeletionInitiator → String
  | .self => "self"
  | .instance_admin => "instance_admin"

end DeletionInitiator

def MemberRole.text : MemberRole → String
  | .OWNER => "OWNER"
  | .ADMIN => "ADMIN"
  | .MEMBER => "MEMBER"
  | .GUEST => "GUEST"

/-- `payload->>key`, for the text payloads that the audit rows hold under it. -/
def payloadText (payload : Payload) (key : String) : Option String :=
  match payload.lookup key with
  | some (.scalar (.text value)) => some value
  | _ => none

namespace AccountDeletionService

/-- An account already anonymised answers as one that never existed. -/
def requireLiveUser (userId : Id) : Service User := do
  let user ← found (.findFirst fun _ (user : User) => user.id = userId) (.notFound "Account not found")
  require (user.deletedAt = none) (.notFound "Account not found")
  return user

/-- `where: { userId }, orderBy: { workspaceId: 'asc' }`. -/
def memberships (userId : Id) (rows : List Row) : List MembershipRow :=
  (((table rows : List WorkspaceMember).filter (·.userId = userId)).map fun member =>
    { workspaceId := member.workspaceId, role := member.role : MembershipRow }).insertionSort
      fun a b => a.workspaceId ≤ b.workspaceId

/-- How many owners each of these workspaces has, deleted accounts among them. -/
def ownerCounts (ownedIds : List Id) (rows : List Row) : List (Id × Nat) :=
  let owners := ((table rows : List WorkspaceMember).filter fun member =>
    ownedIds.contains member.workspaceId && member.role = .OWNER).map WorkspaceMember.workspaceId
  owners.dedup.map fun workspaceId => (workspaceId, owners.count workspaceId)

/-- The workspaces that need a decision, and the other ones. -/
def partitionMemberships (userId : Id) : Service (List MembershipRow × List MembershipRow) := do
  let memberships ← query (.read (memberships userId))
  let ownedIds := (memberships.filter (·.role = .OWNER)).map MembershipRow.workspaceId
  let ownersByWorkspace ←
    if ownedIds = [] then Prog.pure [] else query (.read (ownerCounts ownedIds))
  return memberships.partition fun row =>
    row.role = .OWNER && (ownersByWorkspace.lookup row.workspaceId).getD 0 ≤ 1

def matchDisposition (required : List Id) (byWorkspace : List WorkspaceDispositionDto)
    (disposition : WorkspaceDispositionDto) : Except Error (List WorkspaceDispositionDto) :=
  if byWorkspace.any (·.workspaceId = disposition.workspaceId) then
    .error (.conflict ("Two decisions were sent for the same workspace: " ++ disposition.workspaceId))
  else if disposition.workspaceId ∉ required then
    .error (.conflict ("This account is not the only owner of workspace " ++ disposition.workspaceId ++
      "; no decision is needed for it"))
  else .ok (byWorkspace ++ [disposition])

/-- The decisions by workspace: one for each solely owned workspace and for no other. -/
def matchDispositions (soleOwned : List MembershipRow) (dispositions : List WorkspaceDispositionDto) :
    Except Error (List WorkspaceDispositionDto) := do
  let required := soleOwned.map MembershipRow.workspaceId
  let byWorkspace ← dispositions.foldlM (matchDisposition required) []
  let undecided := required.filter fun id => !byWorkspace.any (·.workspaceId = id)
  if undecided = [] then return byWorkspace
  else .error (.conflict ("Decide what happens to each workspace this account solely owns before " ++
    "it can be deleted: " ++ ", ".intercalate undecided))

def dispositionOf (byWorkspace : List WorkspaceDispositionDto) (workspaceId : Id) :
    Option WorkspaceDispositionDto :=
  byWorkspace.find? (·.workspaceId = workspaceId)

/-- `{ role, user: { name, deletedAt } }` of one member. -/
def transferTarget (workspaceId userId : Id) (rows : List Row) :
    Option (MemberRole × String × Option DateTime) := do
  let member ← (table rows : List WorkspaceMember).find? fun member =>
    member.workspaceId = workspaceId && member.userId = userId
  let user ← (table rows : List User).find? (·.id = member.userId)
  return (member.role, user.name, user.deletedAt)

def transferOwnership (membership : MembershipRow) (newOwnerUserId departingUserId : Id) :
    Service Unit := do
  let target ← query (.read (transferTarget membership.workspaceId newOwnerUserId))
  let (role, name, deletedAt) ← getOrThrow target (.notFound "Workspace member not found")
  require (newOwnerUserId ≠ departingUserId) (.notFound "Workspace member not found")
  require (deletedAt = none)
    (.conflict "That member has been deleted and cannot become an owner")
  let _ ← query (.update
    (fun _ (member : WorkspaceMember) =>
      member.workspaceId = membership.workspaceId && member.userId = newOwnerUserId)
    fun member => { member with role := .OWNER })
  let _ ← ActivityService.record {
    workspaceId := membership.workspaceId
    userId := departingUserId
    type := .MemberRoleChanged
    payload := [
      ("targetUserId", .scalar (.text newOwnerUserId)),
      ("targetName", .scalar (.text name)),
      ("previousRole", .scalar (.text role.text)),
      ("newRole", .scalar (.text MemberRole.OWNER.text)),
      ("actorRole", .scalar (.text membership.role.text)),
      ("reason", .scalar (.text "account.deleted"))] }

/-- The details are gathered before the row and all below it are gone. -/
def deleteWorkspace (workspaceId departingUserId actorId : Id) : Service LogLine := do
  let doomed ← query (.read fun rows =>
    ((table rows : List Workspace).find? (·.id = workspaceId)).map fun workspace =>
      (workspace, (table rows : List WorkspaceMember).countP (·.workspaceId = workspaceId),
        (table rows : List Board).countP (·.workspaceId = workspaceId)))
  let _ ← query (.delete fun _ (workspace : Workspace) => workspace.id = workspaceId)
  return .workspaceDeleted workspaceId actorId (doomed.map (·.1.name)) (doomed.map (·.1.slug))
    (doomed.map (·.2.1)) (doomed.map (·.2.2)) departingUserId

/-- One solely owned workspace, handed over or deleted; a deletion leaves its line. -/
def settle (dispositions : List WorkspaceDispositionDto) (userId : Id) (actorId : Option Id)
    (membership : MembershipRow) : Service (Option LogLine) := do
  let disposition ← getOrThrow (dispositionOf dispositions membership.workspaceId)
    (.conflict ("Decide what happens to workspace " ++ membership.workspaceId ++
      " before this account can be deleted"))
  match disposition.action, disposition.newOwnerUserId with
  | .transfer, some newOwnerUserId => do
      transferOwnership membership newOwnerUserId userId
      return none
  | .transfer, none =>
      Service.refuse
        (.conflict ("A transfer needs a new owner for workspace " ++ membership.workspaceId))
  | .delete, _ => do
      let line ← deleteWorkspace membership.workspaceId userId (actorId.getD userId)
      return some line

/-- The audit row in a workspace that the account leaves behind. -/
def recordDeparture (userId : Id) (initiatedBy : DeletionInitiator) (membership : MembershipRow) :
    Service Unit := do
  let _ ← ActivityService.record {
    workspaceId := membership.workspaceId
    userId
    type := .AccountDeleted
    payload := [
      ("targetUserId", .scalar (.text userId)),
      ("previousRole", .scalar (.text membership.role.text)),
      ("initiatedBy", .scalar (.text initiatedBy.text))] }

/-- The next comments that spell out the id, `select: { id, body }`. -/
def commentPage (userId : Id) (cursor : Option Id) (rows : List Row) : List (Id × String) :=
  ((((table rows : List Comment).filter fun comment =>
    contains userId comment.body && cursor.all (· < comment.id)).map fun comment =>
      (comment.id, comment.body)).insertionSort fun a b => a.1 ≤ b.1).take COMMENT_REDACTION_PAGE

/-- Answers whether the comment was rewritten. -/
def redactComment (userId : Id) (comment : Id × String) : Service Bool :=
  let body := redactMentionsOf comment.2 userId ANONYMOUS_USER_NAME
  if body = comment.2 then return false
  else do
    let _ ← query (.update (fun _ (row : Comment) => row.id = comment.1) fun row => { row with body })
    return true

/-- The loop goes on as long as pages are full; `pages` is how many the time limit of
the transaction leaves room for. -/
def redactCommentMentions (userId : Id) : (pages : Nat) → (cursor : Option Id := none) →
    (rewritten : Nat := 0) → Service Nat
  | 0, _, _ => Service.refuse (.database .transactionTimeout)
  | pages + 1, cursor, rewritten => do
      let page ← query (.read (commentPage userId cursor))
      if page = [] then return rewritten
      else do
        let changed ← collect page (redactComment userId)
        let rewritten := rewritten + changed.count true
        if page.length < COMMENT_REDACTION_PAGE then return rewritten
        else redactCommentMentions userId pages (page.getLast?.map Prod.fst) rewritten

/-- `jsonb_set` of `targetName` where the payload is about the user and has one. -/
def redactActivityPayloads (userId : Id) : Service Nat :=
  query (.updateMany
    (fun _ (activity : Activity) => payloadText activity.payload "targetUserId" = some userId &&
      (payloadText activity.payload "targetName").isSome)
    fun activity => { activity with
      payload := activity.payload.map fun (key, value) =>
        if key = "targetName" then (key, .scalar (.text ANONYMOUS_USER_NAME)) else (key, value) })

/-- Everything that is only about this person. -/
def erase (toLowerCase : String → String) (pages : Nat) (user : User)
    (counts : AccountDeletionCounts) : Service AccountDeletionCounts := do
  let assignmentsRemoved ← query (.deleteMany fun _ (row : TaskAssignee) => row.userId = user.id)
  let invitationsRevoked ← query (.deleteMany fun _ (row : WorkspaceInvitation) =>
    row.inviterId = user.id && row.status = .pending)
  let invitationsReceivedDeleted ← query (.deleteMany fun _ (row : WorkspaceInvitation) =>
    row.email = toLowerCase user.email)
  let commentsRedacted ← redactCommentMentions user.id pages
  let activitiesRedacted ← redactActivityPayloads user.id
  let notificationsDeleted ← query (.deleteMany fun _ (row : Notification) => row.userId = user.id)
  let usagePingsDeleted ← query (.deleteMany fun _ (row : UsagePing) => row.userId = user.id)
  let sessionsDeleted ← query (.deleteMany fun _ (row : Session) => row.userId = user.id)
  let accessTokensDeleted ← query (.deleteMany fun _ (row : PersonalAccessToken) => row.userId = user.id)
  let accountsDeleted ← query (.deleteMany fun _ (row : Account) => row.userId = user.id)
  let verificationsDeleted ← query (.deleteMany fun _ (row : Verification) =>
    row.value = user.id || contains (escapeLikePattern user.email) row.identifier)
  return { counts with
    assignmentsRemoved, invitationsRevoked, invitationsReceivedDeleted, commentsRedacted,
    activitiesRedacted, notificationsDeleted, usagePingsDeleted, sessionsDeleted,
    accessTokensDeleted, accountsDeleted, verificationsDeleted }

/-- The body of the transaction: what was counted, the lines of the deleted
workspaces and the workspaces to evict the user from. -/
def execute (toLowerCase : String → String) (pages : Nat) (user : User)
    (soleOwned other : List MembershipRow) (dispositions : List WorkspaceDispositionDto)
    (deletedAt : DateTime) (initiatedBy : DeletionInitiator) (actorId : Option Id) :
    Service (AccountDeletionCounts × List LogLine × List Id) := do
  let settled ← collect soleOwned (settle dispositions user.id actorId)
  let removedWorkspaces := settled.filterMap id
  let surviving := (soleOwned.filter fun row =>
    (dispositionOf dispositions row.workspaceId).any (·.action = .transfer)) ++ other
  forEach surviving (recordDeparture user.id initiatedBy)
  let counts ← erase toLowerCase pages user {
    workspacesTransferred := settled.length - removedWorkspaces.length
    workspacesDeleted := removedWorkspaces.length }
  let membershipsRemoved ← query (.deleteMany fun _ (row : WorkspaceMember) => row.userId = user.id)
  let _ ← query (.update (fun _ (row : User) => row.id = user.id) (anonymisedUserFields deletedAt))
  return ({ counts with membershipsRemoved }, removedWorkspaces, surviving.map MembershipRow.workspaceId)

/-- Evictions and log lines come after the commit, since neither can be taken back. -/
def deleteAccount (toLowerCase : String → String) (pages : Nat) (userId : Id) (dto : DeleteAccountDto)
    (initiatedBy : DeletionInitiator) (actorId : Option Id) : Service AccountDeletionCounts := do
  let user ← requireLiveUser userId
  require (toLowerCase (trim dto.confirmEmail) = toLowerCase (trim user.email))
    (.forbidden "The confirmation address does not match this account")
  let (soleOwned, other) ← partitionMemberships userId
  let dispositions ← ofExcept (matchDispositions soleOwned dto.decisions)
  let given ← Service.fresh
  let (counts, deletedWorkspaces, evictions) ← transaction
    (execute toLowerCase pages user soleOwned other dispositions given.now initiatedBy actorId)
  forEach evictions fun workspaceId => Service.emit (.evicted workspaceId userId)
  forEach deletedWorkspaces fun line => Service.emit (.logged line)
  Service.emit (.logged (.accountDeleted userId initiatedBy actorId counts))
  return counts

end AccountDeletionService
end Kurul
