import Kurul.Account.AccountDeletion
import Kurul.Workspace.TokenService

/-! Removing a member, changing a member's role and leaving. The membership rows belong to
Better Auth, which is taken at its word: one write of the row that a call is about, and nothing
here of the workspace that a session has open. The audit row and the revocation of tokens follow in
statements of their own. -/
namespace Kurul

open Store Prog

structure MemberRow where
  id : Id
  workspaceId : Id
  userId : Id
  role : MemberRole
  name : String
  avatarUrl : Option String
  deriving DecidableEq

namespace BetterAuth

/-- `removeMember` and `leaveOrganization`: the membership row goes. -/
def deleteMember (workspaceId memberId : Id) : Service Unit := do
  let _ ← transaction (query (.delete fun _ (member : WorkspaceMember) =>
    member.id = memberId && member.workspaceId = workspaceId))

def updateMemberRole (workspaceId memberId : Id) (role : MemberRole) : Service Unit := do
  let _ ← transaction (query (.update
    (fun _ (member : WorkspaceMember) => member.id = memberId && member.workspaceId = workspaceId)
    fun member => { member with role }))

/-- The membership that comes with an accepted invitation. -/
def addMember (workspaceId userId : Id) (role : MemberRole) : Service WorkspaceMember :=
  transaction do
    let given ← Service.fresh
    query (.create { id := given.id, workspaceId, userId, role : WorkspaceMember })

end BetterAuth

namespace WorkspaceMemberService

/-- The membership, with the name and the avatar of its user. -/
def memberRow (workspaceId userId : Id) (rows : List Row) : Option MemberRow := do
  let member ← (table rows : List WorkspaceMember).find? fun member =>
    member.workspaceId = workspaceId && member.userId = userId
  let user ← (table rows : List User).find? (·.id = member.userId)
  return {
    id := member.id
    workspaceId := member.workspaceId
    userId := member.userId
    role := member.role
    name := user.name
    avatarUrl := user.avatarUrl }

def requireMember (workspaceId userId : Id) : Service MemberRow :=
  found (.read (memberRow workspaceId userId)) (.notFound "Workspace member not found")

def isLastOwner (workspaceId : Id) : Service Bool := do
  let owners ← query (.count fun _ (member : WorkspaceMember) =>
    member.workspaceId = workspaceId && member.role = .OWNER)
  return owners ≤ 1

/-- A write of Better Auth's that found no row. -/
def rethrowMemberWriteError (write : Service Unit) : Service Unit :=
  write.catching fun error =>
    if error = .database .recordNotFound then .throw (.notFound "Workspace member not found")
    else .throw error

/-- The checks on a target that is an owner. -/
def assertMayRemove (workspaceId : Id) (target : MemberRow) (actor : WorkspaceMember) : Service Unit :=
  if target.role = .OWNER then do
    require (actor.role = .OWNER) (.forbidden "Only an OWNER can remove another OWNER")
    let last ← isLastOwner workspaceId
    require (!last) (.conflict "The last OWNER cannot be removed from the workspace")
  else Prog.pure ()

def removeMember (workspaceId targetUserId : Id) (actor : WorkspaceMember) : Service Unit := do
  require (targetUserId ≠ actor.userId)
    (.badRequest "Use POST /workspaces/:workspaceId/members/me/leave to remove yourself")
  let target ← requireMember workspaceId targetUserId
  assertMayRemove workspaceId target actor
  rethrowMemberWriteError (BetterAuth.deleteMember workspaceId target.id)
  Service.emit (.evicted workspaceId targetUserId)
  let _ ← transaction (ActivityService.record {
    workspaceId
    userId := actor.userId
    type := .MemberRemoved
    payload := [
      ("targetUserId", .scalar (.text targetUserId)),
      ("targetName", .scalar (.text target.name)),
      ("previousRole", .scalar (.text target.role.text)),
      ("actorRole", .scalar (.text actor.role.text))] })
  let _ ← TokenService.revokeAllForMember workspaceId targetUserId

/-- The checks on a change to or from an owner. -/
def assertMayChange (workspaceId : Id) (target : MemberRow) (nextRole : MemberRole)
    (actor : WorkspaceMember) : Service Unit := do
  require (!(target.role = .OWNER || nextRole = .OWNER) || actor.role = .OWNER)
    (.forbidden "Only an OWNER can change ownership")
  if target.role = .OWNER then do
    let last ← isLastOwner workspaceId
    require (!last) (.conflict "The last OWNER cannot be demoted; promote another OWNER first")
  else Prog.pure ()

def updateMemberRole (workspaceId targetUserId : Id) (nextRole : MemberRole)
    (actor : WorkspaceMember) : Service MemberRow := do
  let target ← requireMember workspaceId targetUserId
  if target.role = nextRole then return target
  else do
    assertMayChange workspaceId target nextRole actor
    rethrowMemberWriteError (BetterAuth.updateMemberRole workspaceId target.id nextRole)
    let _ ← transaction (ActivityService.record {
      workspaceId
      userId := actor.userId
      type := .MemberRoleChanged
      payload := [
        ("targetUserId", .scalar (.text targetUserId)),
        ("targetName", .scalar (.text target.name)),
        ("previousRole", .scalar (.text target.role.text)),
        ("newRole", .scalar (.text nextRole.text)),
        ("actorRole", .scalar (.text actor.role.text))] })
    return { target with role := nextRole }

def assertMayLeave (workspaceId : Id) (membership : MemberRow) : Service Unit :=
  if membership.role = .OWNER then do
    let last ← isLastOwner workspaceId
    require (!last) (.conflict
      "The last OWNER cannot leave the workspace; transfer ownership or delete the workspace")
  else Prog.pure ()

def leave (workspaceId : Id) (actor : WorkspaceMember) : Service Unit := do
  let membership ← requireMember workspaceId actor.userId
  assertMayLeave workspaceId membership
  rethrowMemberWriteError (BetterAuth.deleteMember workspaceId membership.id)
  let _ ← transaction (ActivityService.record {
    workspaceId
    userId := actor.userId
    type := .MemberLeft
    payload := [
      ("targetUserId", .scalar (.text actor.userId)),
      ("targetName", .scalar (.text membership.name)),
      ("previousRole", .scalar (.text membership.role.text))] })
  Service.emit (.evicted workspaceId actor.userId)
  let _ ← TokenService.revokeAllForMember workspaceId actor.userId

end WorkspaceMemberService
end Kurul
