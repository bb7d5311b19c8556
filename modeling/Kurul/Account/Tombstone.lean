import Kurul.Account.Erasure
import Kurul.Task.TaskAssigneeService
import Kurul.Workspace.WorkspaceService

/-! A deleted account beside creates of workspaces by it and assignments of others to it.
Where these commit their rows ahead of the deletion's own deletes, the account is left
without memberships and assignments. -/
namespace Kurul

open Store Prog

inductive StandingCall where
  | deleteAccount (userId : Id) (dto : DeleteAccountDto) (initiatedBy : DeletionInitiator)
      (actorId : Option Id)
  | create (userId : Id) (dto : CreateWorkspaceDto)
  | addAssignee (workspaceId taskId actorId : Id) (dto : AddAssigneeDto)

/-- What the instance is configured with, and what bounds the deletion's transaction. -/
structure Instance where
  toLowerCase : String → String
  pages : Nat
  workspaces : Option Nat := none
  mailEnabled : Bool := true

def StandingCall.service (config : Instance) : StandingCall → Service Unit
  | .deleteAccount userId dto initiatedBy actorId => do
      let _ ← AccountDeletionService.deleteAccount config.toLowerCase config.pages userId dto
        initiatedBy actorId
  | .create userId dto => do
      let _ ← WorkspaceService.create config.workspaces userId dto
  | .addAssignee workspaceId taskId actorId dto => do
      let _ ← TaskAssigneeService.addAssignee config.mailEnabled workspaceId taskId actorId dto

/-- The account has no membership and no assignment, and owns no workspace alone. -/
structure WithoutStanding (userId : Id) (rows : List Row) : Prop where
  memberships : ∀ member ∈ (table rows : List WorkspaceMember), member.userId ≠ userId
  assignments : ∀ assignee ∈ (table rows : List TaskAssignee), assignee.userId ≠ userId
  owners : ∀ workspace ∈ (table rows : List Workspace),
    ¬ ((∃ member ∈ (table rows : List WorkspaceMember),
        member.workspaceId = workspace.id ∧ member.role = .OWNER ∧ member.userId = userId) ∧
      ∀ member ∈ (table rows : List WorkspaceMember),
        member.workspaceId = workspace.id → member.role = .OWNER → member.userId = userId)

section Runs

variable {ι : Type} [DecidableEq ι] {s : System ι Row Key Event Input Error Unit}

/-- Another call commits an assignment or a membership of the account only while the
deletion has yet to delete those. -/
def StandingTimely (userId : Id) (d : ι) (s : System ι Row Key Event Input Error Unit)
    (action : Action ι Input Error) : Prop :=
  System.Timely (assigns userId · = true) d s action ∧ System.Timely (admits userId · = true) d s action

/-- Once the deletion has committed, the account has no standing left. -/
theorem deleted_account_without_standing (config : Instance) (calls : ι → StandingCall) (d : ι)
    {userId : Id} {dto : DeleteAccountDto} {initiatedBy : DeletionInitiator} {actorId : Option Id}
    (deletes : calls d = .deleteAccount userId dto initiatedBy actorId) {rows : List Row}
    (run : System.Reaches (StandingTimely userId d)
      { rows, threads := fun i => { prog := (calls i).service config } } s)
    (committed : (s.threads d).prog.succeeded) : WithoutStanding userId s.rows := by
  have assignments : ∀ row ∈ s.rows, ¬ assigns userId row = true := by
    apply System.cleared_at_end (fun _ _ both => both.1) run _ committed
    simp only [deletes]
    exact (AccountDeletionService.deleteAccount_assignments_due _ _).call
  have memberships : ∀ row ∈ s.rows, ¬ admits userId row = true := by
    apply System.cleared_at_end (fun _ _ both => both.2) run _ committed
    simp only [deletes]
    exact (AccountDeletionService.deleteAccount_memberships_due _ _).call
  have members : ∀ member ∈ (table s.rows : List WorkspaceMember), member.userId ≠ userId := by
    intro member stored own
    exact memberships _ (mem_table.mp stored) (decide_eq_true own)
  constructor
  · exact members
  · intro assignee stored own
    exact assignments _ (mem_table.mp stored) (decide_eq_true own)
  · rintro workspace _ ⟨⟨member, stored, _, _, own⟩, _⟩
    exact members member stored own

end Runs

section Sample

/-- Bob's account is deleted while Ann assigns him. -/
def tombstoneCalls : Caller → StandingCall
  | .ann => .addAssignee "w" "t" "ann" { userId := "bob" }
  | .bob => .deleteAccount "bob" { confirmEmail := "bob@kurul.dev" } .self none

def tombstoneRows : List Row := sampleWorkspace ++ [
  .column { id := "c", boardId := "b", name := "To Do", position := 1000 },
  .task { id := "t", boardId := "b", columnId := "c", title := "Read", position := 1000, createdById := "ann" }]

def sampleInstance : Instance := { toLowerCase := asciiLowerCase, pages := 2 }

def tombstoneStart : System Caller Row Key Event Input Error Unit :=
  { rows := tombstoneRows, threads := fun i => { prog := (tombstoneCalls i).service sampleInstance } }

/-- The assignment is stored between the check of the membership and the end of the call,
which is when the deletion runs. -/
theorem assignment_outlives_account :
    ¬ ∀ (config : Instance) (calls : Caller → StandingCall) (d : Caller) (userId : Id)
      (dto : DeleteAccountDto) (rows : List Row) (s : System Caller Row Key Event Input Error Unit),
      UniqueKeys rows → calls d = .deleteAccount userId dto .self none →
      System.Reaches (fun _ _ => True)
        { rows, threads := fun i => { prog := (calls i).service config } } s →
      (∀ i, (s.threads i).prog.succeeded) → WithoutStanding userId s.rows := by
  intro claim
  have ends : (tombstoneStart.runs
      (turns (List.replicate 2 .ann ++ List.replicate 21 .bob ++ List.replicate 12 .ann))).map
      (fun s : System Caller Row Key Event Input Error Unit =>
        ((s.threads .ann).prog.succeeded, (s.threads .bob).prog.succeeded,
          (table s.rows : List TaskAssignee).any (·.userId = "bob"))) =
      some (true, true, true) := by
    decide +kernel
  obtain ⟨s, ran, facts⟩ := Option.map_eq_some_iff.mp ends
  simp only [Prod.mk.injEq, List.any_eq_true, decide_eq_true_eq] at facts
  obtain ⟨ann, bob, assignee, stored, own⟩ := facts
  have without := claim sampleInstance tombstoneCalls .bob "bob" _ tombstoneRows s (by decide +kernel)
    rfl (.of_runs (fun _ _ => trivial) _ ran) (by intro i; cases i <;> assumption)
  exact without.assignments assignee stored own

/-- The assignment comes first, and goes with the account. -/
theorem deleted_account_without_standing_in_turn : ∃ s,
    (tombstoneStart.runs (inTurn .ann 0 14)).bind (·.runs (inTurn .bob 14 21)) = some s ∧
    WithoutStanding "bob" s.rows := by
  have ends : ((tombstoneStart.runs (inTurn .ann 0 14)).bind (·.runs (inTurn .bob 14 21))).map
      (fun s => (s.threads .bob).prog.succeeded) = some true := by
    decide +kernel
  obtain ⟨s, ran, committed⟩ := Option.map_eq_some_iff.mp ends
  refine ⟨s, ran, ?_⟩
  obtain ⟨middle, first, second⟩ := Option.bind_eq_some_iff.mp ran
  have assigned : System.Reaches (StandingTimely "bob" .bob) tombstoneStart middle := by
    apply System.Reaches.ahead (d := .bob) _ _ first
    · simp [inTurn, Action.actor]
    · intro t action same
      constructor
      · apply System.timely_of_due
        rw [same]
        exact (AccountDeletionService.deleteAccount_assignments_due _ _).call
      · apply System.timely_of_due
        rw [same]
        exact (AccountDeletionService.deleteAccount_memberships_due _ _).call
  have deleted : System.Reaches (StandingTimely "bob" .bob) middle s := by
    apply System.Reaches.of_runs_keeping (I := fun _ => True) (fun _ _ _ => trivial) _ trivial second
    intro t action member _
    obtain ⟨turn, _, rfl⟩ := List.mem_map.mp member
    exact ⟨fun other => absurd rfl other, fun other => absurd rfl other⟩
  exact deleted_account_without_standing sampleInstance tombstoneCalls .bob rfl
    (assigned.trans deleted) committed

end Sample

end Kurul
