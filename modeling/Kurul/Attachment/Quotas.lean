import Kurul.Attachment.AttachmentService
import Kurul.Store.Admission
import Mathlib

/-! The two byte quotas over any interleaving of uploads and removals. A call is admitted by
the sum it reads and takes its bytes with its commit. -/
namespace Kurul.AttachmentService

open Store

variable {ι : Type} [DecidableEq ι]

/-- Between the check of the workspace quota and the commit. -/
def Stage.pastWorkspaceSum : Stage → Bool
  | .instanceSum | .write | .create | .record | .commit => true
  | _ => false

/-- Between the check of the instance quota and the commit. -/
def Stage.pastInstanceSum : Stage → Bool
  | .write | .create | .record | .commit => true
  | _ => false

namespace Depot

variable (config : AttachmentConfig) (uploads : ι → Upload)

/-- What holds in every state of a run. -/
def Throughout (P : Depot ι → Prop) (s : Depot ι) : List (Action ι) → Prop
  | [] => P s
  | action :: rest => P s ∧ (s.step config uploads action).Throughout P rest

/-- What a call has gathered fits where it stands. -/
structure CallFits (upload : Upload) (call : Call) : Prop where
  placed : call.stage ≠ .findTask → call.stage ≠ .thrown →
    ∃ place, config.place upload.taskId = some place ∧ place.workspaceId = upload.workspaceId
  quota : call.stage = .workspaceSum →
    call.workspaceQuota = config.workspaceStorageQuotaBytes upload.workspaceId
  row : call.stage = .record ∨ call.stage = .commit →
    ∃ mimeType now, call.created = some (fileRow upload mimeType now)

def Fits (s : Depot ι) : Prop := ∀ i, CallFits config (uploads i) (s.calls i)

variable {config uploads} {s : Depot ι} {i j : ι} {outcome : Outcome} {action : Action ι}

@[simp] theorem setCall_self (s : Depot ι) (call : Call) : (s.setCall i call).calls i = call :=
  Function.update_self ..

@[simp] theorem setCall_attachments (s : Depot ι) (call : Call) :
    (s.setCall i call).attachments = s.attachments := rfl

@[simp] theorem setCall_files (s : Depot ι) (call : Call) : (s.setCall i call).files = s.files := rfl

@[simp] theorem setCall_now (s : Depot ι) (call : Call) : (s.setCall i call).now = s.now := rfl

@[simp] theorem goto_self (s : Depot ι) (stage : Stage) :
    (s.goto i stage).calls i = { s.calls i with stage } := by
  simp [goto]

@[simp] theorem goto_attachments (s : Depot ι) (stage : Stage) :
    (s.goto i stage).attachments = s.attachments := rfl

@[simp] theorem goto_files (s : Depot ι) (stage : Stage) : (s.goto i stage).files = s.files := rfl

@[simp] theorem goto_now (s : Depot ι) (stage : Stage) : (s.goto i stage).now = s.now := rfl

omit [DecidableEq ι] in
@[simp] theorem insert_calls (s : Depot ι) (row : Option Attachment) : (s.insert row).calls = s.calls := rfl

@[simp] theorem writeBytes_self (s : Depot ι) (upload : Upload) :
    (s.writeBytes i upload).calls i = { s.calls i with writtenAt := s.now } :=
  Function.update_self ..

@[simp] theorem writeBytes_attachments (s : Depot ι) (upload : Upload) :
    (s.writeBytes i upload).attachments = s.attachments := rfl

omit [DecidableEq ι] in
@[simp] theorem removeFile_calls (s : Depot ι) (file : String) : (s.removeFile file).calls = s.calls := rfl

theorem createFile_other (upload : Upload) (other : j ≠ i) :
    (s.createFile config upload i outcome).calls j = s.calls j := by
  have moved : ∀ (s : Depot ι) stage, (s.goto i stage).calls j = s.calls j := by
    intro s stage
    simp [goto, setCall, other]
  have stored : ∀ call, (s.setCall i call).calls j = s.calls j := by
    intro call
    simp [setCall, other]
  have written : (s.writeBytes i upload).calls j = s.calls j := by
    simp [writeBytes, setCall, other, writeFile]
  cases outcome with
  | done =>
      simp only [createFile, advance]
      split <;> (try split) <;> simp [moved, stored, written]
  | threw effect =>
      simp only [createFile, throw_]
      split <;> (try split) <;> simp [moved, written]

theorem afterWorkspace_cases (config : AttachmentConfig) :
    afterWorkspace config = .instanceSum ∨ afterWorkspace config = .write ∧
      config.plan.instanceQuotaBytes = 0 := by
  unfold afterWorkspace
  split
  · exact .inl rfl
  · exact .inr ⟨rfl, by omega⟩

/-- A call keeps what fits. -/
theorem CallFits.next (fits : CallFits config (uploads i) (s.calls i)) :
    CallFits config (uploads i) ((s.createFile config (uploads i) i outcome).calls i) := by
  obtain ⟨placed, quota, row⟩ := fits
  cases outcome with
  | done =>
      simp only [createFile, advance]
      cases at_ : (s.calls i).stage <;> dsimp only
      case findTask =>
        cases found : (config.place (uploads i).taskId).filter (·.workspaceId = (uploads i).workspaceId) with
        | none => constructor <;> simp
        | some place =>
            obtain ⟨stored, here⟩ := Option.filter_eq_some_iff.mp found
            exact ⟨fun _ _ => ⟨place, stored, of_decide_eq_true here⟩, by simp, by simp⟩
      all_goals
        rcases afterWorkspace_cases config with next | next <;> (try split) <;> constructor <;> simp_all
  | threw effect =>
      simp only [createFile, throw_]
      cases at_ : (s.calls i).stage <;> dsimp only <;> (try split) <;> constructor <;> simp_all

theorem createFile_fits (fits : s.Fits config uploads) :
    (s.createFile config (uploads i) i outcome).Fits config uploads := by
  intro j
  by_cases other : j = i
  · subst other
    exact (fits j).next
  · rw [createFile_other _ other]
    exact fits j

theorem step_fits (fits : s.Fits config uploads) : (s.step config uploads action).Fits config uploads := by
  cases action with
  | createFile i outcome => exact createFile_fits fits
  | delete doomed => exact fits
  | clock elapsed => exact fits

/-- Only a commit that takes effect stores a row, and the call is past it then. -/
theorem createFile_attachments (config : AttachmentConfig) (uploads : ι → Upload) (s : Depot ι) (i : ι)
    (outcome : Outcome) :
    (s.createFile config (uploads i) i outcome).attachments = s.attachments ∨
      ((s.calls i).stage = .commit ∧
        (s.createFile config (uploads i) i outcome).attachments =
          s.attachments ++ (s.calls i).created.toList ∧
        (((s.createFile config (uploads i) i outcome).calls i).stage = .announce ∨
          ((s.createFile config (uploads i) i outcome).calls i).stage = .clean)) := by
  cases outcome with
  | done =>
      simp only [createFile, advance]
      cases at_ : (s.calls i).stage <;> dsimp only
      case commit => exact .inr ⟨rfl, rfl, by simp⟩
      all_goals (try split) <;> exact .inl rfl
  | threw effect =>
      simp only [createFile, throw_]
      cases at_ : (s.calls i).stage <;> dsimp only
      case commit =>
        cases effect with
        | true => exact .inr ⟨rfl, rfl, by simp⟩
        | false => exact .inl rfl
      all_goals (try split) <;> exact .inl rfl

/-- A call comes past the workspace check only where its bytes fit, or past no check where
there is no ceiling. -/
theorem enters_workspace
    (past : ((s.createFile config (uploads i) i outcome).calls i).stage.pastWorkspaceSum) :
    (s.calls i).stage.pastWorkspaceSum ∨
      (s.calls i).stage = .workspaceLimit ∧
        config.workspaceStorageQuotaBytes (uploads i).workspaceId = 0 ∨
      (s.calls i).stage = .workspaceSum ∧
        storedFileBytes (inWorkspace config (uploads i).workspaceId) s.attachments +
          (uploads i).file.buffer.length ≤ (s.calls i).workspaceQuota := by
  cases outcome with
  | done =>
      simp only [createFile, advance] at past
      cases at_ : (s.calls i).stage <;> simp only [at_] at past
      case workspaceLimit =>
        by_cases ceiling : 0 < config.workspaceStorageQuotaBytes (uploads i).workspaceId
        · simp [ceiling, Stage.pastWorkspaceSum] at past
        · exact .inr (.inl ⟨rfl, by omega⟩)
      case workspaceSum =>
        split at past
        · simp [Stage.pastWorkspaceSum] at past
        · rename_i fit
          exact .inr (.inr ⟨rfl, by omega⟩)
      all_goals (try split at past) <;> simp_all [Stage.pastWorkspaceSum]
  | threw effect =>
      simp only [createFile, throw_] at past
      cases at_ : (s.calls i).stage <;> simp only [at_] at past <;> (try split at past) <;>
        simp_all [Stage.pastWorkspaceSum]

theorem enters_instance
    (past : ((s.createFile config (uploads i) i outcome).calls i).stage.pastInstanceSum) :
    (s.calls i).stage.pastInstanceSum ∨ config.plan.instanceQuotaBytes = 0 ∨
      (s.calls i).stage = .instanceSum ∧
        storedFileBytes (fun _ => true) s.attachments + (uploads i).file.buffer.length ≤
          config.plan.instanceQuotaBytes := by
  cases outcome with
  | done =>
      simp only [createFile, advance] at past
      cases at_ : (s.calls i).stage <;> simp only [at_] at past
      case instanceSum =>
        split at past
        · simp [Stage.pastInstanceSum] at past
        · rename_i fit
          exact .inr (.inr ⟨rfl, by omega⟩)
      all_goals
        rcases afterWorkspace_cases config with next | next <;> (try split at past) <;>
          simp_all [Stage.pastInstanceSum]
  | threw effect =>
      simp only [createFile, throw_] at past
      cases at_ : (s.calls i).stage <;> simp only [at_] at past <;> (try split at past) <;>
        simp_all [Stage.pastInstanceSum]

theorem storedFileBytes_append (scope : Attachment → Bool) (first second : List Attachment) :
    storedFileBytes scope (first ++ second) =
      storedFileBytes scope first + storedFileBytes scope second := by
  simp [storedFileBytes]

theorem storedFileBytes_filter_le (scope keep : Attachment → Bool) (attachments : List Attachment) :
    storedFileBytes scope (attachments.filter keep) ≤ storedFileBytes scope attachments := by
  have fewer := (List.filter_sublist (l := attachments) (p := keep)).filter
    fun row => row.kind = .FILE && scope row
  exact (fewer.map _).sum_le_sum (by simp)

theorem storedFileBytes_fileRow (scope : Attachment → Bool) (upload : Upload) (mimeType : String)
    (now : DateTime) : storedFileBytes scope [fileRow upload mimeType now] =
      if scope (fileRow upload mimeType now) then upload.file.buffer.length else 0 := by
  unfold storedFileBytes
  split <;> rename_i inside <;> simp [fileRow] at * <;> simp [inside]

section Meter

/-- One of the two ceilings: the rows it sums up, the uploads it counts, and their stages
between its check and the commit. -/
structure Meter (config : AttachmentConfig) (uploads : ι → Upload) where
  scope : Attachment → Bool
  counts : ι → Prop
  past : Stage → Bool
  quota : Nat
  commits : past .commit ∧ ¬ past .announce ∧ ¬ past .clean
  start : ¬ past .findTask
  /-- The row of an upload in its place is summed up only if the upload is counted. -/
  own : ∀ i mimeType now place, config.place (uploads i).taskId = some place →
    place.workspaceId = (uploads i).workspaceId → scope (fileRow (uploads i) mimeType now) → counts i
  /-- Nobody comes past the check without room. -/
  enters : ∀ (s : Depot ι) i outcome, s.Fits config uploads → counts i →
    past ((s.createFile config (uploads i) i outcome).calls i).stage →
    past (s.calls i).stage ∨ storedFileBytes scope s.attachments + (uploads i).file.buffer.length ≤ quota

variable (meter : Meter config uploads)

/-- Under way between the check and the commit. -/
def Meter.Between (s : Depot ι) (i : ι) : Prop := meter.counts i ∧ meter.past (s.calls i).stage

def Meter.size (_ : Meter config uploads) (i : ι) : Nat := (uploads i).file.buffer.length

variable {k most : Nat}

theorem within_createFile (fits : s.Fits config uploads) (sizes : ∀ i, meter.size i ≤ most)
    (within : Within meter.size (meter.quota + (k - 1) * most)
      (storedFileBytes meter.scope s.attachments) (meter.Between s))
    (few : AtMost k (meter.Between (s.createFile config (uploads i) i outcome))) :
    Within meter.size (meter.quota + (k - 1) * most)
      (storedFileBytes meter.scope (s.createFile config (uploads i) i outcome).attachments)
      (meter.Between (s.createFile config (uploads i) i outcome)) := by
  have others : ∀ j, j ≠ i → meter.Between (s.createFile config (uploads i) i outcome) j →
      meter.Between s j := by
    rintro j other ⟨counted, past⟩
    rw [createFile_other _ other] at past
    exact ⟨counted, past⟩
  rcases createFile_attachments config uploads s i outcome with same | ⟨at_, stored, ended⟩
  · rw [same]
    by_cases entered : meter.Between (s.createFile config (uploads i) i outcome) i ∧ ¬ meter.Between s i
    · obtain ⟨⟨counted, past⟩, outside⟩ := entered
      rcases meter.enters s i outcome fits counted past with before | room
      · exact absurd ⟨counted, before⟩ outside
      · apply within.enter room sizes _ few
        intro j inside
        by_cases own : j = i
        · exact .inl own
        · exact .inr (others j own inside)
    · apply within.mono (Nat.le_refl _)
      intro j inside
      by_cases own : j = i
      · subst own
        by_contra outside
        exact entered ⟨inside, outside⟩
      · exact others j own inside
  · have gone : ¬ meter.Between (s.createFile config (uploads i) i outcome) i := by
      rintro ⟨_, past⟩
      rcases ended with told | cleaning
      · exact meter.commits.2.1 (told ▸ past)
      · exact meter.commits.2.2 (cleaning ▸ past)
    obtain ⟨place, placed, here⟩ := (fits i).placed (by simp [at_]) (by simp [at_])
    obtain ⟨mimeType, now, created⟩ := (fits i).row (.inr at_)
    have rest : ∀ j, meter.Between (s.createFile config (uploads i) i outcome) j → j ≠ i ∧ meter.Between s j := by
      intro j inside
      have other : j ≠ i := fun own => gone (own ▸ inside)
      exact ⟨other, others j other inside⟩
    rw [stored, created, Option.toList_some, storedFileBytes_append, storedFileBytes_fileRow]
    split
    · rename_i inScope
      have counted := meter.own i mimeType now place placed here inScope
      exact within.settle ⟨counted, by rw [at_]; exact meter.commits.1⟩ rest
    · exact within.mono (Nat.le_refl _) fun j inside => (rest j inside).2

theorem within_run {actions : List (Action ι)} (fits : s.Fits config uploads)
    (sizes : ∀ i, meter.size i ≤ most)
    (within : Within meter.size (meter.quota + (k - 1) * most)
      (storedFileBytes meter.scope s.attachments) (meter.Between s))
    (few : s.Throughout config uploads (fun reached => AtMost k (meter.Between reached)) actions) :
    storedFileBytes meter.scope (s.run config uploads actions).attachments ≤
      meter.quota + (k - 1) * most := by
  induction actions generalizing s with
  | nil => exact within.used_le
  | cons action rest ih =>
      apply ih (step_fits fits) _ few.2
      have next : AtMost k (meter.Between (s.step config uploads action)) := by
        cases rest with
        | nil => exact few.2
        | cons _ _ => exact few.2.1
      cases action with
      | createFile i outcome => exact within_createFile meter fits sizes within next
      | delete doomed => exact within.mono (storedFileBytes_filter_le ..) fun _ inside => inside
      | clock elapsed => exact within

end Meter

/-- The quota of a workspace. -/
def workspaceMeter (config : AttachmentConfig) (uploads : ι → Upload) (workspaceId : Id)
    (limited : 0 < config.workspaceStorageQuotaBytes workspaceId) : Meter config uploads where
  scope := inWorkspace config workspaceId
  counts i := (uploads i).workspaceId = workspaceId
  past := Stage.pastWorkspaceSum
  quota := config.workspaceStorageQuotaBytes workspaceId
  commits := ⟨rfl, by decide, by decide⟩
  start := by decide
  own i mimeType now place placed here inScope := by
    simp only [inWorkspace, fileRow, placed, Option.any_some, decide_eq_true_eq] at inScope
    exact here.symm.trans inScope
  enters s i outcome fits counted past := by
    rcases enters_workspace past with before | ⟨_, none_⟩ | ⟨at_, room⟩
    · exact .inl before
    · rw [counted] at none_
      omega
    · rw [(fits i).quota at_, counted] at room
      exact .inr room

/-- The quota of the instance. -/
def instanceMeter (config : AttachmentConfig) (uploads : ι → Upload)
    (limited : 0 < config.plan.instanceQuotaBytes) : Meter config uploads where
  scope _ := true
  counts _ := True
  past := Stage.pastInstanceSum
  quota := config.plan.instanceQuotaBytes
  commits := ⟨rfl, by decide, by decide⟩
  start := by decide
  own _ _ _ _ _ _ _ := trivial
  enters s i outcome _ _ past := by
    rcases enters_instance past with before | none_ | ⟨_, room⟩
    · exact .inl before
    · omega
    · exact .inr room

theorem Throughout.mono {P Q : Depot ι → Prop} {actions : List (Action ι)}
    (throughout : s.Throughout config uploads P actions) (weaker : ∀ reached, P reached → Q reached) :
    s.Throughout config uploads Q actions := by
  induction actions generalizing s with
  | nil => exact weaker s throughout
  | cons action rest ih => exact ⟨weaker s throughout.1, ih throughout.2⟩

theorem throughout_of_forall {P : Depot ι → Prop} (always : ∀ reached, P reached) (s : Depot ι)
    (actions : List (Action ι)) : s.Throughout config uploads P actions := by
  induction actions generalizing s with
  | nil => exact always s
  | cons action rest ih => exact ⟨always s, ih _⟩

end Depot

/-- The quotas overshoot only by concurrency. -/
theorem quotas_overshoot_only_by_concurrency (config : AttachmentConfig) (uploads : ι → Upload)
    (k most : Nat) (sizes : ∀ i, (uploads i).file.buffer.length ≤ most) (s : Depot ι)
    (idle : ∀ i, s.calls i = {}) (actions : List (Action ι)) :
    (∀ workspaceId, 0 < config.workspaceStorageQuotaBytes workspaceId →
      storedFileBytes (inWorkspace config workspaceId) s.attachments ≤
        config.workspaceStorageQuotaBytes workspaceId →
      s.Throughout config uploads (fun reached => AtMost k fun i =>
        (uploads i).workspaceId = workspaceId ∧ (reached.calls i).stage.pastWorkspaceSum) actions →
      storedFileBytes (inWorkspace config workspaceId) (s.run config uploads actions).attachments ≤
        config.workspaceStorageQuotaBytes workspaceId + (k - 1) * most) ∧
    (0 < config.plan.instanceQuotaBytes →
      storedFileBytes (fun _ => true) s.attachments ≤ config.plan.instanceQuotaBytes →
      s.Throughout config uploads (fun reached => AtMost k fun i =>
        (reached.calls i).stage.pastInstanceSum) actions →
      storedFileBytes (fun _ => true) (s.run config uploads actions).attachments ≤
        config.plan.instanceQuotaBytes + (k - 1) * most) := by
  have fits : s.Fits config uploads := by
    intro i
    rw [idle i]
    exact ⟨by simp, by simp, by simp⟩
  have outside : ∀ (meter : Depot.Meter config uploads) i, ¬ meter.Between s i := by
    rintro meter i ⟨_, past⟩
    rw [idle i] at past
    exact meter.start past
  constructor
  · intro workspaceId limited low few
    exact Depot.within_run (Depot.workspaceMeter config uploads workspaceId limited) fits sizes
      (Within.start (outside _) (low.trans (Nat.le_add_right ..))) few
  · intro limited low few
    apply Depot.within_run (Depot.instanceMeter config uploads limited) fits sizes
      (Within.start (outside _) (low.trans (Nat.le_add_right ..)))
    exact few.mono fun _ few => few.mono fun _ inside => inside.2

/-- Pictures of five bytes for one task, whatever they hold. -/
def sampleUpload (id : Id) : Upload where
  workspaceId := "w"
  taskId := "t"
  actorId := "ann"
  file := { originalname := "logo.png", mimetype := "image/png", buffer := [137, 80, 78, 71, 0] }
  id

def sampleUploads : Bool → Upload
  | false => sampleUpload "0198c0de-0000-7000-8000-00000000000a"
  | true => sampleUpload "0198c0de-0000-7000-8000-00000000000b"

def sampleConfig (workspaceQuotaBytes : Nat) : AttachmentConfig where
  place id := if id = "t" then some { boardId := "b", workspaceId := "w" } else none
  plan := { workspaceQuotaBytes }
  fileTypeFromBuffer _ := some "image/png"

/-- Steps of a call that go well. -/
def goesWell (i : Bool) (n : Nat) : List (Action Bool) := List.replicate n (.createFile i .done)

theorem quotas_overshoot_by_one :
    let reached := Depot.run (sampleConfig 8) sampleUploads { attachments := [] }
      (goesWell false 4 ++ goesWell true 4 ++ goesWell false 6 ++ goesWell true 6)
    storedFileBytes (inWorkspace (sampleConfig 8) "w") reached.attachments ≤ 8 + (2 - 1) * 5 ∧
      storedFileBytes (inWorkspace (sampleConfig 8) "w") reached.attachments = 10 := by
  have bounded := (quotas_overshoot_only_by_concurrency (sampleConfig 8) sampleUploads 2 5
    (by decide) { attachments := [] } (fun _ => rfl)
    (goesWell false 4 ++ goesWell true 4 ++ goesWell false 6 ++ goesWell true 6)).1 "w"
    (by decide) (by decide)
    (Depot.throughout_of_forall (fun _ L unique _ => unique.length_le_card) _ _)
  exact ⟨bounded, by decide +kernel⟩

end Kurul.AttachmentService
