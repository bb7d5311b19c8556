import Kurul.Service

/-! Creating a workspace. That the account is live, that the instance has room and that the
slug is free is read before Better Auth writes the workspace and its owner. -/
namespace Kurul

open Store Prog

structure CreateWorkspaceDto where
  name : String
  slug : String

structure WorkspaceDto where
  id : Id
  name : String
  slug : String
  deriving DecidableEq

/-- A session may outlive its account for as long as its cookie is cached. -/
def assertAccountNotDeleted (userId : Id) : Service Unit := do
  let user ← query (.read fun rows => (table rows : List User).find? (·.id = userId))
  require (user.any (·.deletedAt.isNone)) (.unauthorized "This account has been deleted")

/-- `workspaces` is the ceiling of the instance, if it has one. -/
def PlanLimitsService.assertWorkspaceAvailable (workspaces : Option Nat) : Service Unit :=
  match workspaces with
  | none => Prog.pure ()
  | some limit => do
      let current ← query (.count fun _ (_ : Workspace) => true)
      require (current < limit) (.planLimitExceeded limit current
        "This instance has reached the number of workspaces it allows")

/-- The workspace and its creator's membership in one write. -/
def BetterAuth.createOrganization (userId : Id) (dto : CreateWorkspaceDto) : Service Workspace :=
  transaction do
    let given ← Service.fresh
    let workspace ← query (.create { id := given.id, name := dto.name, slug := dto.slug : Workspace })
    let other ← Service.fresh
    let _ ← query (.create {
      id := other.id
      workspaceId := workspace.id
      userId
      role := .OWNER : WorkspaceMember })
    return workspace

namespace WorkspaceService

def create (workspaces : Option Nat) (userId : Id) (dto : CreateWorkspaceDto) :
    Service WorkspaceDto := do
  assertAccountNotDeleted userId
  PlanLimitsService.assertWorkspaceAvailable workspaces
  let existing ← query (.read fun rows => (table rows : List Workspace).find? (·.slug = dto.slug))
  require existing.isNone (.conflict "Workspace slug already taken")
  let created ← conflictOnUniqueViolation (BetterAuth.createOrganization userId dto)
    "Workspace slug already taken"
  return { id := created.id, name := created.name, slug := created.slug }

end WorkspaceService
end Kurul
