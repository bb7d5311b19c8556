import Kurul.Plan.PlanLimits
import Kurul.Workspace.MemberService

/-! The life of an invitation. The rows are Better Auth's, whose calls are one step each; the
seat ceiling is checked before them and the audit row follows in a statement of its own. -/
namespace Kurul

open Store Prog

structure CreateInvitationDto where
  email : String
  role : MemberRole

structure InvitationDto where
  id : Id
  workspaceId : Id
  email : String
  role : MemberRole
  status : InvitationStatus
  expiresAt : DateTime
  acceptUrl : String
  emailDelivery : Option String := none
  deriving DecidableEq

structure WorkspaceMemberDto where
  id : Id
  workspaceId : Id
  userId : Id
  role : MemberRole
  name : String
  avatarUrl : Option String
  deriving DecidableEq

/-- What the service takes from its surroundings. -/
structure InvitationConfig where
  plan : PlanConfig
  toLowerCase : String → String
  buildInviteAcceptUrl : Id → String
  expiresIn : Int

namespace BetterAuth

/-- Only the status changes. -/
def cancelInvitation (invitationId : Id) : Service Unit := do
  let _ ← transaction (query (.update (fun _ (row : WorkspaceInvitation) => row.id = invitationId)
    fun row => { row with status := .canceled }))

/-- With `resend: true`: the pending invitation of the address with a new expiry, or a new one. -/
def createInvitation (expiresIn : Int) (workspaceId inviterId : Id) (email : String) (role : MemberRole) :
    Service WorkspaceInvitation :=
  transaction do
    let given ← Service.fresh
    let pending ← query (.findFirst fun _ (row : WorkspaceInvitation) =>
      pendingInvitationWhere workspaceId given.now row && row.email = email)
    match pending with
    | some invitation => query (.update (fun _ (row : WorkspaceInvitation) => row.id = invitation.id)
        fun row => { row with expiresAt := given.now + expiresIn })
    | none => query (.create {
        id := given.id
        email
        inviterId
        workspaceId
        status := .pending
        role := some role
        expiresAt := given.now + expiresIn : WorkspaceInvitation })

/-- A pending invitation that has not expired becomes a membership; any other is refused. -/
def acceptInvitation (invitationId userId : Id) : Service WorkspaceMember :=
  transaction do
    let given ← Service.fresh
    let invitation ← found (.findFirst fun _ (row : WorkspaceInvitation) =>
      row.id = invitationId && row.status = .pending && given.now < row.expiresAt)
      (.badRequest "Invitation not found")
    let _ ← query (.update (fun _ (row : WorkspaceInvitation) => row.id = invitation.id)
      fun row => { row with status := .accepted })
    query (.create {
      id := given.id
      workspaceId := invitation.workspaceId
      userId
      role := invitation.role.getD .GUEST : WorkspaceMember })

end BetterAuth

/-- A refusal of the library's keeps its status and gets a text of ours; any other error goes
through. -/
def rethrowBetterAuthError (call : Service α) (message : String)
    (notFound forbidden : String := message) : Service α :=
  call.catching fun error =>
    match error with
    | .badRequest _ => .throw (.badRequest message)
    | .notFound _ => .throw (.notFound notFound)
    | .forbidden _ => .throw (.forbidden forbidden)
    | error => .throw error

namespace WorkspaceInvitationService

def findPendingInvitations (workspaceId : Id) (email : String) : Service (List WorkspaceInvitation) := do
  let given ← Service.fresh
  query (.findMany fun _ (row : WorkspaceInvitation) =>
    pendingInvitationWhere workspaceId given.now row && row.email = email)

/-- `delivery` is what the send of the mail came to, where one was seen. -/
def createInvitation (config : InvitationConfig) (workspaceId actorId : Id) (dto : CreateInvitationDto)
    (delivery : Option String) : Service InvitationDto := do
  require (dto.role ≠ .OWNER) (.badRequest "Cannot invite someone as OWNER")
  let email := config.toLowerCase dto.email
  let pending ← findPendingInvitations workspaceId email
  (if pending.isEmpty then PlanLimitsService.assertSeatAvailable config.plan workspaceId true
    else Prog.pure ())
  (if pending.any fun invitation => invitation.role ≠ some dto.role then
      forEach pending fun invitation => rethrowBetterAuthError
        (BetterAuth.cancelInvitation invitation.id) "Failed to replace the pending invitation"
    else Prog.pure ())
  let invitation ← rethrowBetterAuthError
    (BetterAuth.createInvitation config.expiresIn workspaceId actorId email dto.role)
    "Failed to create invitation" "Failed to create invitation"
    "You are not allowed to send this invitation"
  require (invitation.role.all (· = dto.role))
    (.conflict "Invitation was changed concurrently, please try again")
  let _ ← transaction (ActivityService.record {
    workspaceId
    userId := actorId
    type := .InvitationCreated
    payload := [
      ("invitationId", .scalar (.text invitation.id)),
      ("role", .scalar (.text dto.role.text))] ++
      delivery.toList.map fun verdict => ("emailDelivery", .scalar (.text verdict)) })
  return {
    id := invitation.id
    workspaceId
    email := invitation.email
    role := dto.role
    status := invitation.status
    expiresAt := invitation.expiresAt
    acceptUrl := config.buildInviteAcceptUrl invitation.id
    emailDelivery := delivery }

def revokeInvitation (workspaceId actorId invitationId : Id) : Service Unit := do
  let invitation ← found (.findFirst fun _ (row : WorkspaceInvitation) =>
    row.id = invitationId && row.workspaceId = workspaceId) (.notFound "Invitation not found")
  rethrowBetterAuthError (BetterAuth.cancelInvitation invitationId) "Failed to revoke invitation"
    "Invitation not found"
  let _ ← transaction (ActivityService.record {
    workspaceId
    userId := actorId
    type := .InvitationRevoked
    payload := [
      ("invitationId", .scalar (.text invitationId)),
      ("role", .scalar (Json.ofOption (fun role => .text role.text) invitation.role))] })

/-- `userId` is the user of the session. -/
def acceptInvitation (config : InvitationConfig) (workspaceId invitationId userId : Id) :
    Service WorkspaceMemberDto := do
  let _ ← found (.findFirst fun _ (row : WorkspaceInvitation) =>
    row.id = invitationId && row.status = .pending && row.workspaceId = workspaceId)
    (.notFound "Invitation not found")
  PlanLimitsService.assertSeatAvailable config.plan workspaceId false
  let member ← rethrowBetterAuthError (BetterAuth.acceptInvitation invitationId userId)
    "Failed to accept invitation" "Invitation not found"
  let user ← found (.findFirst fun _ (user : User) => user.id = member.userId)
    (.database .recordNotFound)
  let _ ← transaction (ActivityService.record {
    workspaceId := member.workspaceId
    userId := member.userId
    type := .InvitationAccepted
    payload := [
      ("invitationId", .scalar (.text invitationId)),
      ("role", .scalar (.text member.role.text))] })
  return {
    id := member.id
    workspaceId := member.workspaceId
    userId := member.userId
    role := member.role
    name := user.name
    avatarUrl := user.avatarUrl }

end WorkspaceInvitationService
end Kurul
