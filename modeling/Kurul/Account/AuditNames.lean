import Kurul.Account.Erasure
import Kurul.Workspace.MemberService

/-! The name of a deleted account in audit rows, beside calls that copy it from a read of
their own: removals, role changes, departures and transfers of ownership. Where their
audit rows are committed ahead of the deletion's rewriting, none keeps the name. -/
namespace Kurul

open Store Prog

inductive NamingCall where
  | deleteAccount (userId : Id) (dto : DeleteAccountDto) (initiatedBy : DeletionInitiator)
      (actorId : Option Id)
  | removeMember (workspaceId targetUserId : Id) (actor : WorkspaceMember)
  | updateMemberRole (workspaceId targetUserId : Id) (nextRole : MemberRole) (actor : WorkspaceMember)
  | leave (workspaceId : Id) (actor : WorkspaceMember)

def NamingCall.service (toLowerCase : String → String) (pages : Nat) : NamingCall → Service Unit
  | .deleteAccount userId dto initiatedBy actorId => do
      let _ ← AccountDeletionService.deleteAccount toLowerCase pages userId dto initiatedBy actorId
  | .removeMember workspaceId targetUserId actor =>
      WorkspaceMemberService.removeMember workspaceId targetUserId actor
  | .updateMemberRole workspaceId targetUserId nextRole actor => do
      let _ ← WorkspaceMemberService.updateMemberRole workspaceId targetUserId nextRole actor
  | .leave workspaceId actor => WorkspaceMemberService.leave workspaceId actor

/-- No audit row about the user holds a name other than the anonymous one. -/
def NamesErased (userId : Id) (rows : List Row) : Prop :=
  ∀ activity ∈ (table rows : List Activity),
    payloadText activity.payload "targetUserId" = some userId →
      ∀ name, payloadText activity.payload "targetName" = some name → name = ANONYMOUS_USER_NAME

theorem namesErased_of_unmarked {userId : Id} {rows : List Row}
    (unmarked : ∀ row ∈ rows, ¬ spellsOut userId row = true) : NamesErased userId rows := by
  intro activity stored about name named
  by_contra other
  apply unmarked _ (mem_table.mp stored)
  simp [toRow, spellsOut, about, named, other]

section Runs

variable {ι : Type} [DecidableEq ι] {s : System ι Row Key Event Input Error Unit}

/-- Where every other call commits its audit rows with the account's name ahead of the
deletion's rewriting, no name is left once the deletion has committed. -/
theorem audit_rows_lose_name (toLowerCase : String → String) (pages : Nat) (calls : ι → NamingCall)
    (d : ι) {userId : Id} {dto : DeleteAccountDto} {initiatedBy : DeletionInitiator}
    {actorId : Option Id} (deletes : calls d = .deleteAccount userId dto initiatedBy actorId)
    {rows : List Row}
    (run : System.Reaches (System.Timely (spellsOut userId · = true) d)
      { rows, threads := fun i => { prog := (calls i).service toLowerCase pages } } s)
    (committed : (s.threads d).prog.succeeded) : NamesErased userId s.rows := by
  apply namesErased_of_unmarked
  apply System.cleared_at_end (fun _ _ timely => timely) run _ committed
  simp only [deletes]
  apply Clears.bind
  exact AccountDeletionService.deleteAccount_names_due _ _

end Runs

section Sample

/-- Ann removes Bob while his account is deleted. -/
def namingCalls : Caller → NamingCall
  | .ann => .removeMember "w" "bob" { id := "m1", workspaceId := "w", userId := "ann", role := .OWNER }
  | .bob => .deleteAccount "bob" { confirmEmail := "bob@kurul.dev" } .self none

def namingStart : System Caller Row Key Event Input Error Unit :=
  { rows := sampleWorkspace, threads := fun i => { prog := (namingCalls i).service asciiLowerCase 2 } }

/-- The audit row comes in after the deletion, with the name read before it. -/
theorem removal_keeps_name :
    ¬ ∀ (toLowerCase : String → String) (pages : Nat) (calls : Caller → NamingCall) (d : Caller)
      (userId : Id) (dto : DeleteAccountDto) (rows : List Row)
      (s : System Caller Row Key Event Input Error Unit),
      UniqueKeys rows → calls d = .deleteAccount userId dto .self none →
      System.Reaches (fun _ _ => True)
        { rows, threads := fun i => { prog := (calls i).service toLowerCase pages } } s →
      (∀ i, (s.threads i).prog.succeeded) → NamesErased userId s.rows := by
  intro claim
  have ends : (namingStart.runs
      (turns (List.replicate 5 .ann ++ List.replicate 18 .bob ++ List.replicate 5 .ann))).map
      (fun s : System Caller Row Key Event Input Error Unit =>
        ((s.threads .ann).prog.succeeded, (s.threads .bob).prog.succeeded, s.rows.any (spellsOut "bob"))) =
      some (true, true, true) := by
    decide +kernel
  obtain ⟨s, ran, facts⟩ := Option.map_eq_some_iff.mp ends
  simp only [Prod.mk.injEq, List.any_eq_true] at facts
  obtain ⟨ann, bob, row, stored, marked⟩ := facts
  have erased := claim asciiLowerCase 2 namingCalls .bob "bob" _ sampleWorkspace s (by decide +kernel)
    rfl (.of_runs (fun _ _ => trivial) _ ran) (by intro i; cases i <;> assumption)
  cases row with
  | activity activity =>
      simp only [spellsOut, Bool.and_eq_true, decide_eq_true_eq, Option.any_eq_true] at marked
      obtain ⟨about, name, named, other⟩ := marked
      exact other (erased activity (mem_table.mpr stored) about name named)
  | _ => cases marked

/-- The removal comes first, and its audit row is rewritten. -/
theorem audit_rows_lose_name_in_turn : ∃ s,
    (namingStart.runs (inTurn .ann 0 10)).bind (·.runs (inTurn .bob 10 18)) = some s ∧
    NamesErased "bob" s.rows := by
  have ends : ((namingStart.runs (inTurn .ann 0 10)).bind (·.runs (inTurn .bob 10 18))).map
      (fun s => (s.threads .bob).prog.succeeded) = some true := by
    decide +kernel
  obtain ⟨s, ran, committed⟩ := Option.map_eq_some_iff.mp ends
  refine ⟨s, ran, ?_⟩
  obtain ⟨middle, first, second⟩ := Option.bind_eq_some_iff.mp ran
  have removed : System.Reaches (System.Timely (spellsOut "bob" · = true) .bob) namingStart middle := by
    apply System.Reaches.ahead (d := .bob) _ _ first
    · simp [inTurn, Action.actor]
    · intro t action same
      apply System.timely_of_due
      rw [same]
      apply Clears.bind
      exact AccountDeletionService.deleteAccount_names_due _ _
  have deleted : System.Reaches (System.Timely (spellsOut "bob" · = true) .bob) middle s := by
    apply System.Reaches.of_runs_keeping (I := fun _ => True) (fun _ _ _ => trivial) _ trivial second
    intro t action member _
    obtain ⟨turn, _, rfl⟩ := List.mem_map.mp member
    exact fun other => absurd rfl other
  exact audit_rows_lose_name asciiLowerCase 2 namingCalls .bob rfl (removed.trans deleted) committed

end Sample
end Kurul
