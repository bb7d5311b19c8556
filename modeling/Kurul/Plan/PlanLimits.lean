import Kurul.Service
import Kurul.Store.Tables
import Mathlib

/-! The ceilings of a plan: those of the instance, a workspace's own where it has them, and
the checks before a write that would go past one. -/
namespace Kurul

open Store Prog

/-- The `PLAN_MAX_*` variables; none is unlimited. -/
structure InstancePlanLimits where
  seatsPerWorkspace : Option Nat := none
  boardsPerWorkspace : Option Nat := none

/-- An outer `none` is an absent key, an inner one no ceiling. -/
structure WorkspacePlanOverride where
  seats : Option (Option Nat) := none
  boards : Option (Option Nat) := none
  storageBytes : Option (Option Nat) := none

structure WorkspacePlanLimitsDto where
  seats : Option Nat
  boards : Option Nat
  storageBytes : Option Nat

/-- What the plan layer reads from its surroundings. A byte quota of zero is none. -/
structure PlanConfig where
  instance_ : InstancePlanLimits := {}
  workspaceQuotaBytes : Nat := 0
  instanceQuotaBytes : Nat := 0

def parseOverrideValue : StoredLimit → Option (Option Nat)
  | .null => some none
  | .number value =>
      if value.den ≠ 1 ∨ value < 0 then none
      else if value = 0 then some none else some (some value.num.toNat)
  | .other => none

/-- Unknown and unusable keys are dropped. -/
def parseWorkspacePlanOverride (stored : Option (List (String × StoredLimit))) : WorkspacePlanOverride :=
  let value (key : String) := ((stored.getD []).lookup key).bind parseOverrideValue
  { seats := value "seats", boards := value "boards", storageBytes := value "storageBytes" }

def quotaBytesToCeiling (bytes : Nat) : Option Nat := if bytes = 0 then none else some bytes

def resolveWorkspacePlanLimits (config : PlanConfig) (override : WorkspacePlanOverride) :
    WorkspacePlanLimitsDto where
  seats := override.seats.getD config.instance_.seatsPerWorkspace
  boards := override.boards.getD config.instance_.boardsPerWorkspace
  storageBytes := override.storageBytes.getD (quotaBytesToCeiling config.workspaceQuotaBytes)

/-- A pending invitation that has not expired. -/
def pendingInvitationWhere (workspaceId : Id) (now : DateTime) (row : WorkspaceInvitation) : Bool :=
  row.workspaceId = workspaceId && row.status = .pending && now < row.expiresAt

namespace PlanLimitsService

/-- The ceilings of a workspace as its row stands. -/
def limitsOf (config : PlanConfig) (workspaceId : Id) (rows : List Row) : WorkspacePlanLimitsDto :=
  resolveWorkspacePlanLimits config (parseWorkspacePlanOverride
    (((table rows : List Workspace).find? (·.id = workspaceId)).bind Workspace.planLimits))

theorem limitsOf_elsewhere {config : PlanConfig} {workspaceId : Id} {rows : List Row}
    {writes : List (Write Row Key)} (elsewhere : ∀ write ∈ writes, write.Elsewhere Workspace) :
    limitsOf config workspaceId (applyAll rows writes) = limitsOf config workspaceId rows := by
  simp only [limitsOf, table_applyAll_elsewhere elsewhere]

def forWorkspace (config : PlanConfig) (workspaceId : Id) : Service WorkspacePlanLimitsDto :=
  query (.read (limitsOf config workspaceId))

/-- `0` is unlimited. -/
def workspaceStorageQuotaBytes (config : PlanConfig) (workspaceId : Id) : Service Nat := do
  let limits ← forWorkspace config workspaceId
  return limits.storageBytes.getD 0

def countMembers (workspaceId : Id) : Service Nat :=
  query (.count fun _ (member : WorkspaceMember) => member.workspaceId = workspaceId)

/-- A pending invitation holds its seat. -/
def seatsUsed (workspaceId : Id) : Service Nat := do
  let given ← Service.fresh
  let members ← countMembers workspaceId
  let invitations ← query (.count fun _ (row : WorkspaceInvitation) =>
    pendingInvitationWhere workspaceId given.now row)
  return members + invitations

/-- At accept time the invitation itself is not counted. -/
def assertSeatAvailable (config : PlanConfig) (workspaceId : Id) (countsInvitations : Bool) :
    Service Unit := do
  let limits ← forWorkspace config workspaceId
  match limits.seats with
  | none => return ()
  | some seats => do
      let current ← if countsInvitations then seatsUsed workspaceId else countMembers workspaceId
      require (current < seats) (.planLimitExceeded seats current
        "This workspace has no seats left on its plan")

def countBoards (workspaceId : Id) : Service Nat :=
  query (.count fun _ (board : Board) => board.workspaceId = workspaceId)

def assertBoardAvailable (config : PlanConfig) (workspaceId : Id) : Service Unit := do
  let limits ← forWorkspace config workspaceId
  match limits.boards with
  | none => return ()
  | some boards => do
      let current ← countBoards workspaceId
      require (current < boards) (.planLimitExceeded boards current
        "This workspace has reached the number of boards its plan allows")

end PlanLimitsService
end Kurul
