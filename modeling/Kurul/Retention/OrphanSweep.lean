import Kurul.Attachment.RowsAndBytes
import Kurul.Retention.CleanupWorker

/-! What a sweep removes and what it leaves. A key in a batch belongs to no upload that could
still commit in time; an old file that nobody claims is in the batch once it was listed. -/

namespace Kurul.AttachmentService

variable {ι : Type} [DecidableEq ι] {config : AttachmentConfig} {uploads : ι → Upload} {s : Depot ι}
  {i : ι} {outcome : Outcome} {action : Action ι}

/-- The call is past the write of its bytes. -/
def Stage.pastWrite : Stage → Bool
  | .findTask | .sniff | .workspaceLimit | .workspaceSum | .instanceSum | .write => false
  | _ => true

/-- Ids of one length have keys of their own. -/
theorem storageKeyFor_injective {a b : Id} (lengths : a.length = b.length)
    (same : storageKeyFor a = storageKeyFor b) : a = b := by
  have chars := congrArg String.toList same
  simp only [storageKeyFor, String.toList_ofList] at chars
  have ends := List.append_inj_right' chars (by
    rw [List.length_cons, List.length_cons, String.length_toList, String.length_toList, lengths])
  exact String.toList_injective (List.cons.inj ends).2

namespace Depot

/-- No file of an upload is there before its write, and then it is as old as that. -/
def Dated (uploads : ι → Upload) (s : Depot ι) : Prop :=
  ∀ i, ∀ file ∈ s.files, file.key = storageKeyFor (uploads i).id →
    (s.calls i).stage.pastWrite ∧ file.modifiedAt = (s.calls i).writtenAt

/-- A path has one file. -/
def OnePathEach (s : Depot ι) : Prop := (s.files.map (·.key)).Nodup

/-- What one step does to the call, and to the files. -/
theorem createFile_call :
    ((s.calls i).stage.pastWrite → ((s.createFile config (uploads i) i outcome).calls i).stage.pastWrite ∧
      ((s.createFile config (uploads i) i outcome).calls i).writtenAt = (s.calls i).writtenAt) := by
  intro past
  cases outcome with
  | done =>
      simp only [createFile, advance]
      cases at_ : (s.calls i).stage <;> dsimp only <;> (try split) <;>
        simp_all [Stage.pastWrite]
  | threw effect =>
      simp only [createFile, throw_]
      cases at_ : (s.calls i).stage <;> dsimp only <;> (try split) <;> simp_all [Stage.pastWrite]

theorem createFile_files (config : AttachmentConfig) (uploads : ι → Upload) (s : Depot ι) (i : ι)
    (outcome : Outcome) :
    (s.createFile config (uploads i) i outcome).files = s.files ∨
      (s.createFile config (uploads i) i outcome).files =
        (s.removeFile (storageKeyFor (uploads i).id)).files ∨
      (s.calls i).stage.pastWrite = false ∧
        (s.createFile config (uploads i) i outcome).files =
          (s.writeFile (storageKeyFor (uploads i).id)).files ∧
        ((s.createFile config (uploads i) i outcome).calls i).stage.pastWrite ∧
        ((s.createFile config (uploads i) i outcome).calls i).writtenAt = s.now := by
  cases outcome with
  | done =>
      simp only [createFile, advance]
      cases at_ : (s.calls i).stage <;> dsimp only
      case write => exact .inr (.inr ⟨rfl, rfl, by simp [Stage.pastWrite], by simp⟩)
      case clean => exact .inr (.inl rfl)
      all_goals (try split) <;> exact .inl rfl
  | threw effect =>
      simp only [createFile, throw_]
      cases at_ : (s.calls i).stage <;> dsimp only
      case write =>
        cases effect with
        | true => exact .inr (.inr ⟨rfl, rfl, by simp [Stage.pastWrite], by simp⟩)
        | false => exact .inl rfl
      case clean =>
        cases effect with
        | true => exact .inr (.inl rfl)
        | false => exact .inl rfl
      all_goals (try split) <;> exact .inl rfl

/-- Only a commit that takes effect stores a row, under the key of its upload. -/
theorem createFile_stored (fits : s.Fits config uploads) {row : Attachment}
    (stored : row ∈ (s.createFile config (uploads i) i outcome).attachments) : row ∈ s.attachments ∨
      (s.calls i).stage = .commit ∧ outcome.takesEffect ∧
        row.storageKey = some (storageKeyFor (uploads i).id) := by
  have committed : (s.calls i).stage = .commit → row ∈ (s.calls i).created.toList →
      row.storageKey = some (storageKeyFor (uploads i).id) := by
    intro at_ created
    obtain ⟨mimeType, now, same⟩ := (fits i).row (.inr at_)
    rw [same, Option.toList_some, List.mem_singleton] at created
    subst created
    rfl
  cases outcome with
  | done =>
      simp only [createFile, advance] at stored
      cases at_ : (s.calls i).stage <;> simp only [at_] at stored
      case commit =>
        rcases List.mem_append.mp stored with old | new
        · exact .inl old
        · exact .inr ⟨rfl, rfl, committed at_ new⟩
      all_goals (try split at stored) <;> exact .inl stored
  | threw effect =>
      simp only [createFile, throw_] at stored
      cases at_ : (s.calls i).stage <;> simp only [at_] at stored
      case commit =>
        cases effect with
        | false => exact .inl stored
        | true =>
            rcases List.mem_append.mp stored with old | new
            · exact .inl old
            · exact .inr ⟨rfl, rfl, committed at_ new⟩
      all_goals (try split at stored) <;> exact .inl stored

/-- No upload under the key is still to write its bytes. -/
def NoWriter (uploads : ι → Upload) (key : String) (s : Depot ι) : Prop :=
  ∀ i, storageKeyFor (uploads i).id = key → (s.calls i).stage.pastWrite

/-- The bytes under the key were written longer ago than the grace period. -/
def Aged (uploads : ι → Upload) (grace : Int) (key : String) (s : Depot ι) : Prop :=
  ∀ i, storageKeyFor (uploads i).id = key →
    (s.calls i).stage.pastWrite ∧ (s.calls i).writtenAt + grace < s.now

/-- Nobody claims the key. -/
def Unclaimed (key : String) (s : Depot ι) : Prop := ∀ row ∈ s.attachments, row.storageKey ≠ some key

def Gone (key : String) (s : Depot ι) : Prop := ∀ file ∈ s.files, file.key ≠ key

/-- A row is committed within the grace period after its bytes were written. -/
def InTime (grace : Int) (s : Depot ι) : Action ι → Prop
  | .createFile i outcome => (s.calls i).stage = .commit → outcome.takesEffect →
      s.now ≤ (s.calls i).writtenAt + grace
  | _ => True

variable {grace : Int} {key : String}

theorem createFile_now : (s.createFile config (uploads i) i outcome).now = s.now := by
  cases outcome with
  | done =>
      simp only [createFile, advance]
      cases (s.calls i).stage <;> dsimp only <;> (try split) <;> rfl
  | threw effect =>
      simp only [createFile, throw_]
      cases (s.calls i).stage <;> dsimp only <;> (try split) <;> rfl

theorem call_step (config : AttachmentConfig) (action : Action ι) (j : ι) (past : (s.calls j).stage.pastWrite) :
    ((s.step config uploads action).calls j).stage.pastWrite ∧
      ((s.step config uploads action).calls j).writtenAt = (s.calls j).writtenAt := by
  cases action with
  | createFile i outcome =>
      by_cases own : j = i
      · subst own
        exact createFile_call past
      · rw [step, createFile_other _ own]
        exact ⟨past, rfl⟩
  | delete doomed => exact ⟨past, rfl⟩
  | clock elapsed => exact ⟨past, rfl⟩

theorem now_step : s.now ≤ (s.step config uploads action).now := by
  cases action with
  | createFile i outcome => rw [step, createFile_now]
  | delete doomed => exact Int.le_refl _
  | clock elapsed => exact Int.le_add_of_nonneg_right (Int.natCast_nonneg elapsed)

theorem NoWriter.step (none_ : s.NoWriter uploads key) :
    (s.step config uploads action).NoWriter uploads key :=
  fun j own => (call_step config action j (none_ j own)).1

theorem Aged.step (aged : s.Aged uploads grace key) :
    (s.step config uploads action).Aged uploads grace key := by
  intro j own
  obtain ⟨past, before⟩ := aged j own
  obtain ⟨past', same⟩ := call_step config action j past
  exact ⟨past', same ▸ lt_of_lt_of_le before now_step⟩

/-- A file after a step was there, or is the one that an upload has just written. -/
theorem files_step {file : StoredFile} (there : file ∈ (s.step config uploads action).files) :
    file ∈ s.files ∨ ∃ i, file = { key := storageKeyFor (uploads i).id, modifiedAt := s.now } ∧
      (s.calls i).stage.pastWrite = false ∧
      ((s.step config uploads action).calls i).stage.pastWrite ∧
      ((s.step config uploads action).calls i).writtenAt = s.now := by
  cases action with
  | createFile i outcome =>
      rcases createFile_files config uploads s i outcome with same | removed | ⟨before, written, past, at_⟩
      · exact .inl (same ▸ there)
      · rw [step, removed] at there
        exact .inl (List.mem_of_mem_filter there)
      · rw [step, written] at there
        rcases List.mem_append.mp there with old | new
        · exact .inl (List.mem_of_mem_filter old)
        · exact .inr ⟨i, List.mem_singleton.mp new, before, past, at_⟩
  | delete doomed => exact .inl there
  | clock elapsed => exact .inl there

theorem Gone.step (none_ : s.NoWriter uploads key) (gone : s.Gone key) :
    (s.step config uploads action).Gone key := by
  intro file there
  rcases files_step there with old | ⟨i, rfl, before, _⟩
  · exact gone file old
  · intro same
    rw [none_ i same] at before
    cases before

theorem Dated.step (different : Function.Injective fun i => storageKeyFor (uploads i).id)
    (dated : s.Dated uploads) : (s.step config uploads action).Dated uploads := by
  intro j file there own
  rcases files_step there with old | ⟨i, rfl, _, past, at_⟩
  · obtain ⟨past, same⟩ := dated j file old own
    obtain ⟨past', same'⟩ := call_step config action j past
    exact ⟨past', same.trans same'.symm⟩
  · cases different own
    exact ⟨past, at_.symm⟩

omit [DecidableEq ι] in
theorem OnePathEach.remove (paths : s.OnePathEach) (key : String) : (s.removeFile key).OnePathEach :=
  List.Nodup.sublist (List.Sublist.map _ List.filter_sublist) paths

theorem OnePathEach.step (paths : s.OnePathEach) : (s.step config uploads action).OnePathEach := by
  cases action with
  | createFile i outcome =>
      rcases createFile_files config uploads s i outcome with same | removed | ⟨_, written, _⟩
      · simpa only [OnePathEach, Depot.step, same] using paths
      · simpa only [OnePathEach, Depot.step, removed] using paths.remove (storageKeyFor (uploads i).id)
      · simp only [OnePathEach, Depot.step, written, writeFile, List.map_append, List.map_cons, List.map_nil]
        apply List.nodup_append.mpr
        refine ⟨paths.remove (storageKeyFor (uploads i).id), List.nodup_singleton _, ?_⟩
        intro key kept other new same
        obtain ⟨file, inside, rfl⟩ := List.mem_map.mp kept
        rw [List.mem_singleton] at new
        have apart := (List.mem_filter.mp inside).2
        simp [same, new] at apart
  | delete doomed => exact paths
  | clock elapsed => exact paths

/-- A key nobody could claim in time stays unclaimed. -/
theorem Unclaimed.step (fits : s.Fits config uploads) (inTime : s.InTime grace action)
    (aged : s.Aged uploads grace key) (unclaimed : s.Unclaimed key) :
    (s.step config uploads action).Unclaimed key := by
  cases action with
  | createFile i outcome =>
      intro row stored claims
      rcases createFile_stored fits stored with old | ⟨at_, effect, own⟩
      · exact unclaimed row old claims
      · rw [own, Option.some.injEq] at claims
        have late := (aged i claims).2
        have early := inTime at_ effect
        exact absurd early (not_le.mpr late)
  | delete doomed => exact fun row stored => unclaimed row (List.mem_of_mem_filter stored)
  | clock elapsed => exact unclaimed

end Depot
end Kurul.AttachmentService

namespace Kurul.CleanupWorker

open AttachmentService

namespace Sweep

/-- The keys a sweep is about to remove. -/
def doomed (sweep : Sweep) : List String :=
  match sweep.phase with
  | .removing keys _ => keys
  | _ => []

variable {sweep : Sweep} {file : StoredFile} {last : Bool} {key : String}

@[simp] theorem entry_cutoff : (sweep.entry file).cutoff = sweep.cutoff := by
  simp only [entry]
  split <;> (try split) <;> (try split) <;> rfl

@[simp] theorem entry_present : (sweep.entry file).present = sweep.present := by
  simp only [entry]
  split <;> (try split) <;> (try split) <;> rfl

@[simp] theorem entry_listed : (sweep.entry file).listed = file.key :: sweep.listed := by
  simp only [entry]
  split <;> (try split) <;> (try split) <;> rfl

@[simp] theorem entry_removed : (sweep.entry file).removed = sweep.removed := by
  simp only [entry]
  split <;> (try split) <;> (try split) <;> rfl

theorem entry_batch : (sweep.entry file).batch =
    if file.modifiedAt ≥ sweep.cutoff then sweep.batch else sweep.batch ++ [file.key] := by
  simp only [entry]
  split
  · rfl
  · split <;> (try split) <;> rfl

/-- The loop goes on, or stops for a flush; it breaks only at the ceiling. -/
theorem entry_phase (file : StoredFile) (at_ : sweep.phase = .listing) : (sweep.entry file).phase = .listing ∨
    (sweep.entry file).phase = .looking false ∨
      (sweep.entry file).phase = .looking true ∧ ceiling ≤ sweep.removed := by
  simp only [entry]
  split
  · exact .inl at_
  · split
    · exact .inr (.inl rfl)
    · split
      · rename_i full
        exact .inr (.inr ⟨rfl, full⟩)
      · exact .inl at_

theorem entry_doomed (at_ : sweep.phase = .listing) : (sweep.entry file).doomed = [] := by
  unfold doomed
  rcases entry_phase file at_ with next | next | ⟨next, _⟩ <;> rw [next]

theorem afterFlush_phase : (sweep.afterFlush last).phase =
    if last then .ended else if sweep.removed ≥ ceiling then .looking true else .listing := rfl

@[simp] theorem afterFlush_doomed : (sweep.afterFlush last).doomed = [] := by
  unfold doomed
  rw [afterFlush_phase]
  cases last with
  | true => rfl
  | false => by_cases full : ceiling ≤ sweep.removed <;> simp [full]

end Sweep

variable {ι κ : Type} [DecidableEq ι] [DecidableEq κ]

namespace Deployment

/-- What a step of a sweep can do. -/
inductive Sweeps (schedule : BackupSchedule) (s : Deployment ι κ) (k : κ) : Deployment ι κ → Prop
  | opendir (idle : s.sweeps k = none) (now : DateTime) (past : now ≤ s.depot.now) :
      Sweeps schedule s k (s.setSweep k {
        cutoff := now - orphanGraceMs schedule
        present := s.depot.files.map (·.key) })
  | entry {sweep : Sweep} (under : s.sweeps k = some sweep) (at_ : sweep.phase = .listing)
      {file : StoredFile} (there : file ∈ s.depot.files) :
      Sweeps schedule s k (s.setSweep k (sweep.entry file))
  | closed {sweep : Sweep} (under : s.sweeps k = some sweep) (at_ : sweep.phase = .listing)
      (all : ∀ key ∈ sweep.present, key ∈ sweep.listed ∨ key ∉ s.depot.files.map (·.key)) :
      Sweeps schedule s k (s.setSweep k { sweep with phase := .looking true })
  | lookup {sweep : Sweep} (under : s.sweeps k = some sweep) {last : Bool}
      (at_ : sweep.phase = .looking last) :
      Sweeps schedule s k (s.setSweep k (sweep.flush s.claimedKeys last))
  | flushed {sweep : Sweep} (under : s.sweeps k = some sweep) {last : Bool}
      (at_ : sweep.phase = .removing [] last) :
      Sweeps schedule s k (s.setSweep k (sweep.afterFlush last))
  | remove {sweep : Sweep} (under : s.sweeps k = some sweep) {key : String} {rest : List String}
      {last : Bool} (at_ : sweep.phase = .removing (key :: rest) last) :
      Sweeps schedule s k ((s.unlink key).setSweep k
        { sweep with removed := sweep.removed + 1, phase := .removing rest last })
  | removeThrows {sweep : Sweep} (under : s.sweeps k = some sweep) {key : String} {rest : List String}
      {last : Bool} (at_ : sweep.phase = .removing (key :: rest) last) :
      Sweeps schedule s k ((s.unlink key).setSweep k { sweep with phase := .failed })
  | throws {sweep : Sweep} (under : s.sweeps k = some sweep) :
      Sweeps schedule s k (s.setSweep k { sweep with phase := .failed })

variable {config : AttachmentConfig} {uploads : ι → Upload} {schedule : BackupSchedule}
  {s t u : Deployment ι κ} {k : κ} {key : String}

theorem sweeps_of_step {action : SweepAction}
    (stepped : s.step config uploads schedule (.sweep k action) = some t) : Sweeps schedule s k t := by
  simp only [step] at stepped
  cases under : s.sweeps k with
  | none =>
      cases action <;> simp only [under, sweepOrphanFiles, reduceCtorEq] at stepped
      rename_i now
      split at stepped
      · rename_i past
        cases stepped
        exact .opendir under now past
      · cases stepped
  | some sweep =>
      cases action <;> simp only [under, sweepOrphanFiles, reduceCtorEq] at stepped
      case entry file =>
        split at stepped
        · rename_i fine
          cases stepped
          exact .entry under fine.1 fine.2
        · cases stepped
      case closed =>
        split at stepped
        · rename_i fine
          cases stepped
          exact .closed under fine.1 fine.2
        · cases stepped
      case lookup =>
        split at stepped
        · rename_i last at_
          cases stepped
          exact .lookup under at_
        · cases stepped
      case remove =>
        split at stepped
        · rename_i last at_
          cases stepped
          exact .flushed under at_
        · rename_i key rest last at_
          cases stepped
          exact .remove under at_
        · cases stepped
      case throws effect =>
        split at stepped
        · cases stepped
        · cases stepped
        · rename_i key rest last at_
          cases stepped
          cases effect with
          | true => exact .removeThrows under at_
          | false => exact .throws under
        · cases stepped
          exact .throws under

omit [DecidableEq ι] in
/-- A sweep touches nothing but files: those that were looked up and found unclaimed. -/
theorem Sweeps.depot (sweeps : Sweeps schedule s k t) : t.depot = s.depot ∨
    ∃ sweep key rest last, s.sweeps k = some sweep ∧ sweep.phase = .removing (key :: rest) last ∧
      t.depot = s.depot.removeFile key := by
  cases sweeps with
  | remove under at_ => exact .inr ⟨_, _, _, _, under, at_, rfl⟩
  | removeThrows under at_ => exact .inr ⟨_, _, _, _, under, at_, rfl⟩
  | _ => exact .inl rfl

/-- What no interleaving breaks as long as the rows come in time. -/
structure Sound (config : AttachmentConfig) (uploads : ι → Upload) (schedule : BackupSchedule)
    (s : Deployment ι κ) : Prop where
  fits : s.depot.Fits config uploads
  dated : s.depot.Dated uploads
  paths : s.depot.OnePathEach
  cutoff : ∀ k sweep, s.sweeps k = some sweep → sweep.cutoff + orphanGraceMs schedule ≤ s.depot.now
  batch : ∀ k sweep, s.sweeps k = some sweep → ∀ key ∈ sweep.batch,
    s.depot.Aged uploads (orphanGraceMs schedule) key
  doomed : ∀ k sweep, s.sweeps k = some sweep → ∀ key ∈ sweep.doomed,
    s.depot.Aged uploads (orphanGraceMs schedule) key ∧ s.depot.Unclaimed key

/-- The rows of a step come in time. -/
def InTime (schedule : BackupSchedule) (s : Deployment ι κ) : Action ι κ → Prop
  | .depot action => s.depot.InTime (orphanGraceMs schedule) action
  | .sweep _ _ => True

/-- Every step of a run meets a condition. -/
def Always (config : AttachmentConfig) (uploads : ι → Upload) (schedule : BackupSchedule)
    (P : Deployment ι κ → Action ι κ → Prop) (s : Deployment ι κ) : List (Action ι κ) → Prop
  | [] => True
  | action :: rest => P s action ∧
      ∀ next ∈ s.step config uploads schedule action, next.Always config uploads schedule P rest

instance decidableAlways {P : Deployment ι κ → Action ι κ → Prop} [∀ s action, Decidable (P s action)] :
    (actions : List (Action ι κ)) → (s : Deployment ι κ) →
      Decidable (s.Always config uploads schedule P actions)
  | [], _ => isTrue trivial
  | action :: rest, s =>
      have : ∀ next : Deployment ι κ, Decidable (next.Always config uploads schedule P rest) :=
        decidableAlways rest
      inferInstanceAs (Decidable (P s action ∧ ∀ next ∈ s.step config uploads schedule action, _))

omit [DecidableEq κ] in
theorem Sound.depot_step (different : Function.Injective fun i => storageKeyFor (uploads i).id)
    (sound : s.Sound config uploads schedule) {action : AttachmentService.Action ι}
    (inTime : s.depot.InTime (orphanGraceMs schedule) action) :
    Sound config uploads schedule ({ s with depot := s.depot.step config uploads action } : Deployment ι κ) where
  fits := Depot.step_fits sound.fits
  dated := sound.dated.step different
  paths := sound.paths.step
  cutoff k sweep under := (sound.cutoff k sweep under).trans Depot.now_step
  batch k sweep under key member := (sound.batch k sweep under key member).step
  doomed k sweep under key member :=
    have held := sound.doomed k sweep under key member
    ⟨held.1.step, held.2.step sound.fits inTime held.1⟩

omit [DecidableEq ι] [DecidableEq κ] in
theorem mem_claimedKeys (s : Deployment ι κ) (key : String) :
    key ∉ s.claimedKeys ↔ s.depot.Unclaimed key := by
  simp [claimedKeys, Depot.Unclaimed]

omit [DecidableEq ι] in
theorem Sound.setSweep (sound : s.Sound config uploads schedule) {sweep : Sweep}
    (cutoff : sweep.cutoff + orphanGraceMs schedule ≤ s.depot.now)
    (batch : ∀ key ∈ sweep.batch, s.depot.Aged uploads (orphanGraceMs schedule) key)
    (doomed : ∀ key ∈ sweep.doomed, s.depot.Aged uploads (orphanGraceMs schedule) key ∧
      s.depot.Unclaimed key) : (s.setSweep k sweep).Sound config uploads schedule := by
  have either : ∀ k' sweep', (s.setSweep k sweep).sweeps k' = some sweep' →
      sweep' = sweep ∨ s.sweeps k' = some sweep' := by
    intro k' sweep' under
    simp only [Deployment.setSweep, Function.update_apply] at under
    split at under
    · exact .inl (Option.some.inj under).symm
    · exact .inr under
  refine ⟨sound.fits, sound.dated, sound.paths, ?_, ?_, ?_⟩
  · intro k' sweep' under
    rcases either k' sweep' under with rfl | before
    · exact cutoff
    · exact sound.cutoff k' sweep' before
  · intro k' sweep' under
    rcases either k' sweep' under with rfl | before
    · exact batch
    · exact sound.batch k' sweep' before
  · intro k' sweep' under
    rcases either k' sweep' under with rfl | before
    · exact doomed
    · exact sound.doomed k' sweep' before

omit [DecidableEq ι] [DecidableEq κ] in
theorem Sound.unlink (sound : s.Sound config uploads schedule) (key : String) :
    (s.unlink key).Sound config uploads schedule where
  fits := sound.fits
  dated i file there own := sound.dated i file (List.mem_of_mem_filter there) own
  paths := sound.paths.remove key
  cutoff := sound.cutoff
  batch := sound.batch
  doomed := sound.doomed

omit [DecidableEq ι] [DecidableEq κ] in
/-- A file before the cutoff has aged. -/
theorem Sound.aged (sound : s.Sound config uploads schedule) {sweep : Sweep}
    (under : s.sweeps k = some sweep) {file : StoredFile} (there : file ∈ s.depot.files)
    (old : file.modifiedAt < sweep.cutoff) :
    s.depot.Aged uploads (orphanGraceMs schedule) file.key := by
  intro i own
  obtain ⟨past, same⟩ := sound.dated i file there own.symm
  have cutoff := sound.cutoff k sweep under
  refine ⟨past, ?_⟩
  rw [← same]
  exact lt_of_lt_of_le (Int.add_lt_add_right old _) cutoff

omit [DecidableEq ι] in
theorem Sound.sweep_step (sound : s.Sound config uploads schedule) (sweeps : Sweeps schedule s k t) :
    t.Sound config uploads schedule := by
  cases sweeps with
  | opendir idle now past =>
      apply sound.setSweep
      · rw [Int.sub_add_cancel]
        exact past
      · simp
      · simp [Sweep.doomed]
  | @entry sweep under at_ file there =>
      have cutoff := sound.cutoff k sweep under
      have batch := sound.batch k sweep under
      apply sound.setSweep
      · simpa using cutoff
      · intro key member
        rw [Sweep.entry_batch] at member
        split at member
        · exact batch key member
        · rename_i old
          rcases List.mem_append.mp member with before | new
          · exact batch key before
          · rw [List.mem_singleton.mp new]
            exact sound.aged under there (Int.not_le.mp old)
      · simp [Sweep.entry_doomed at_]
  | @closed sweep under at_ all =>
      exact sound.setSweep (sound.cutoff k sweep under) (sound.batch k sweep under) (by simp [Sweep.doomed])
  | @lookup sweep under last at_ =>
      unfold Sweep.flush
      split
      · apply sound.setSweep
        · exact sound.cutoff k sweep under
        · simp [Sweep.afterFlush]
        · simp
      · apply sound.setSweep
        · exact sound.cutoff k sweep under
        · exact sound.batch k sweep under
        · intro key member
          simp only [Sweep.doomed, List.mem_filter, decide_eq_true_eq] at member
          exact ⟨sound.batch k sweep under key member.1, (mem_claimedKeys s key).mp member.2⟩
  | @flushed sweep under last at_ =>
      apply sound.setSweep
      · exact sound.cutoff k sweep under
      · simp [Sweep.afterFlush]
      · simp
  | @remove sweep under key rest last at_ =>
      apply (sound.unlink key).setSweep
      · exact sound.cutoff k sweep under
      · exact sound.batch k sweep under
      · intro other member
        apply sound.doomed k sweep under
        simp only [Sweep.doomed, at_] at member ⊢
        exact List.mem_cons_of_mem _ member
  | @removeThrows sweep under key rest last at_ =>
      exact (sound.unlink key).setSweep (sound.cutoff k sweep under) (sound.batch k sweep under)
        (by simp [Sweep.doomed])
  | @throws sweep under =>
      exact sound.setSweep (sound.cutoff k sweep under) (sound.batch k sweep under) (by simp [Sweep.doomed])

theorem Sound.step (different : Function.Injective fun i => storageKeyFor (uploads i).id)
    (sound : s.Sound config uploads schedule) {action : Action ι κ} (inTime : s.InTime schedule action)
    (stepped : s.step config uploads schedule action = some t) : t.Sound config uploads schedule := by
  cases action with
  | depot action =>
      cases stepped
      exact sound.depot_step different inTime
  | sweep k action => exact sound.sweep_step (sweeps_of_step stepped)

theorem Sound.run (different : Function.Injective fun i => storageKeyFor (uploads i).id)
    (sound : s.Sound config uploads schedule) {actions : List (Action ι κ)}
    (inTime : s.Always config uploads schedule (InTime schedule) actions)
    (ran : s.run config uploads schedule actions = some t) : t.Sound config uploads schedule := by
  induction actions generalizing s with
  | nil =>
      cases ran
      exact sound
  | cons action rest ih =>
      obtain ⟨next, stepped, later⟩ := Option.bind_eq_some_iff.mp ran
      exact ih (sound.step different inTime.1 stepped) (inTime.2 next stepped) later

/-- A key that is dead stays so: no row claims it, now or later. -/
def Dead (uploads : ι → Upload) (schedule : BackupSchedule) (key : String) (s : Deployment ι κ) : Prop :=
  s.depot.Aged uploads (orphanGraceMs schedule) key ∧ s.depot.Unclaimed key

theorem Dead.step (dead : s.Dead uploads schedule key) (fits : s.depot.Fits config uploads)
    (action : Action ι κ) (inTime : s.InTime schedule action)
    (stepped : s.step config uploads schedule action = some t) : t.Dead uploads schedule key := by
  cases action with
  | depot action =>
      cases stepped
      exact ⟨dead.1.step, dead.2.step fits inTime dead.1⟩
  | sweep k action =>
      rcases (sweeps_of_step stepped).depot with same | ⟨_, _, _, _, _, _, removed⟩
      · rw [Dead, same]
        exact dead
      · rw [Dead, removed]
        exact dead

theorem Dead.run (different : Function.Injective fun i => storageKeyFor (uploads i).id)
    (sound : s.Sound config uploads schedule) (dead : s.Dead uploads schedule key)
    {actions : List (Action ι κ)} (inTime : s.Always config uploads schedule (InTime schedule) actions)
    (ran : s.run config uploads schedule actions = some t) : t.Dead uploads schedule key := by
  induction actions generalizing s with
  | nil =>
      cases ran
      exact dead
  | cons action rest ih =>
      obtain ⟨next, stepped, later⟩ := Option.bind_eq_some_iff.mp ran
      exact ih (sound.step different inTime.1 stepped) (dead.step sound.fits action inTime.1 stepped)
        (inTime.2 next stepped) later

omit [DecidableEq ι] in
/-- What a sweep removes, nobody claims. -/
theorem Sound.removed (sound : s.Sound config uploads schedule) (sweeps : Sweeps schedule s k t)
    {file : StoredFile} (there : file ∈ s.depot.files) (gone : file ∉ t.depot.files) :
    s.Dead uploads schedule file.key := by
  rcases sweeps.depot with same | ⟨sweep, key, rest, last, under, at_, removed⟩
  · exact absurd (same ▸ there) gone
  · have own : file.key = key := by
      by_contra other
      apply gone
      rw [removed]
      exact List.mem_filter.mpr ⟨there, by simpa using other⟩
    rw [own]
    apply sound.doomed k sweep under
    simp [Sweep.doomed, at_]

/-- Where an old file that nobody claims stands in a sweep. -/
def Tracks (sweep : Sweep) (key : String) : Prop :=
  match sweep.phase with
  | .listing => key ∈ sweep.listed → key ∈ sweep.batch
  | .looking last =>
      (key ∈ sweep.listed → key ∈ sweep.batch) ∧ (last → key ∈ sweep.listed ∨ ceiling ≤ sweep.removed)
  | .removing keys last =>
      (key ∈ sweep.listed → key ∈ keys) ∧ (last → key ∈ sweep.listed ∨ ceiling ≤ sweep.removed)
  | .ended => ceiling ≤ sweep.removed
  | .failed => True

/-- The file is gone, or the sweep still has it before it. -/
def Watched (k : κ) (key : String) (s : Deployment ι κ) : Prop :=
  s.depot.Gone key ∨ ∃ sweep, s.sweeps k = some sweep ∧ key ∈ sweep.present ∧
    (∀ file ∈ s.depot.files, file.key = key → file.modifiedAt < sweep.cutoff) ∧ Tracks sweep key

theorem Tracks.entry {sweep : Sweep} {file : StoredFile} (tracks : Tracks sweep key)
    (at_ : sweep.phase = .listing) (old : file.key = key → file.modifiedAt < sweep.cutoff) :
    Tracks (sweep.entry file) key := by
  have held : key ∈ (sweep.entry file).listed → key ∈ (sweep.entry file).batch := by
    intro listed
    simp only [Tracks, at_] at tracks
    rw [Sweep.entry_listed, List.mem_cons] at listed
    rw [Sweep.entry_batch]
    split
    · rename_i young
      rcases listed with rfl | before
      · exact absurd (old rfl) (not_lt.mpr young)
      · exact tracks before
    · rcases listed with rfl | before
      · exact List.mem_append_right _ List.mem_cons_self
      · exact List.mem_append_left _ (tracks before)
  unfold Tracks
  rcases Sweep.entry_phase file at_ with next | next | ⟨next, full⟩
  · rw [next]
    exact held
  · rw [next]
    exact ⟨held, by simp⟩
  · rw [next]
    exact ⟨held, fun _ => .inr (by simpa using full)⟩

theorem Tracks.afterFlush {sweep : Sweep} {last : Bool} (unlisted : key ∉ sweep.listed)
    (whole : last → key ∈ sweep.listed ∨ ceiling ≤ sweep.removed) : Tracks (sweep.afterFlush last) key := by
  unfold Tracks
  rw [Sweep.afterFlush_phase]
  cases last with
  | true =>
      rcases whole rfl with listed | full
      · exact absurd listed unlisted
      · exact full
  | false =>
      by_cases full : ceiling ≤ sweep.removed
      · simp [full, Sweep.afterFlush, unlisted]
      · simp [full, Sweep.afterFlush, unlisted]

omit [DecidableEq ι] in
theorem Watched.own_step (watched : s.Watched k key) (unclaimed : s.depot.Unclaimed key)
    (sweeps : Sweeps schedule s k t) : t.Watched k key := by
  have fewer : ∀ file ∈ t.depot.files, file ∈ s.depot.files := by
    intro file there
    rcases sweeps.depot with same | ⟨_, _, _, _, _, _, removed⟩
    · exact same ▸ there
    · rw [removed] at there
      exact List.mem_of_mem_filter there
  rcases watched with gone | ⟨sweep, under, present, old, tracks⟩
  · exact .inl fun file there => gone file (fewer file there)
  · have kept : ∀ sweep' : Sweep, t.sweeps k = some sweep' → sweep'.present = sweep.present →
        sweep'.cutoff = sweep.cutoff → Tracks sweep' key → t.Watched k key := by
      intro sweep' now_ same cutoff tracks'
      refine .inr ⟨sweep', now_, same ▸ present, ?_, tracks'⟩
      intro file there own
      rw [cutoff]
      exact old file (fewer file there) own
    have here : ∀ (s : Deployment ι κ) sweep', (s.setSweep k sweep').sweeps k = some sweep' :=
      fun s sweep' => Function.update_self ..
    cases sweeps with
    | opendir idle now past => simp [under] at idle
    | entry under' at_ there =>
        cases under.symm.trans under'
        apply kept _ (here ..) (by simp) (by simp)
        exact tracks.entry at_ (old _ there)
    | closed under' at_ all =>
        cases under.symm.trans under'
        simp only [Tracks, at_] at tracks
        rcases all key present with listed | missing
        · exact kept _ (here ..) rfl rfl ⟨tracks, fun _ => .inl listed⟩
        · refine .inl fun file there own => missing ?_
          exact own ▸ List.mem_map_of_mem there
    | @lookup _ under' last at_ =>
        cases under.symm.trans under'
        simp only [Tracks, at_] at tracks
        by_cases empty : sweep.batch = []
        · have flushed : sweep.flush s.claimedKeys last = sweep.afterFlush last := if_pos empty
          have unlisted : key ∉ sweep.listed := fun listed => by simpa [empty] using tracks.1 listed
          rw [flushed] at kept ⊢
          exact kept _ (here ..) rfl rfl (.afterFlush unlisted tracks.2)
        · have next : sweep.flush s.claimedKeys last = { sweep with
              phase := .removing (sweep.batch.filter (· ∉ s.claimedKeys)) last } := if_neg empty
          rw [next] at kept ⊢
          refine kept _ (here ..) rfl rfl ⟨fun listed => ?_, tracks.2⟩
          exact List.mem_filter.mpr ⟨tracks.1 listed, by simpa using (mem_claimedKeys s key).mpr unclaimed⟩
    | @flushed _ under' last at_ =>
        cases under.symm.trans under'
        simp only [Tracks, at_] at tracks
        have unlisted : key ∉ sweep.listed := fun listed => by simpa using tracks.1 listed
        exact kept _ (here ..) rfl rfl (.afterFlush unlisted tracks.2)
    | @remove _ under' first rest last at_ =>
        cases under.symm.trans under'
        simp only [Tracks, at_] at tracks
        by_cases own : first = key
        · refine .inl fun file there same => ?_
          have kept' := (List.mem_filter.mp there).2
          simp [own, same] at kept'
        · refine kept _ (here ..) rfl rfl ⟨fun listed => ?_, fun closed => ?_⟩
          · rcases List.mem_cons.mp (tracks.1 listed) with same | later
            · exact absurd same.symm own
            · exact later
          · exact (tracks.2 closed).imp_right fun full => Nat.le_succ_of_le full
    | removeThrows under' at_ =>
        cases under.symm.trans under'
        exact kept _ (here ..) rfl rfl trivial
    | throws under' =>
        cases under.symm.trans under'
        exact kept _ (here ..) rfl rfl trivial

theorem Watched.step (watched : s.Watched k key) (noWriter : s.depot.NoWriter uploads key)
    (unclaimed : s.depot.Unclaimed key) {action : Action ι κ}
    (stepped : s.step config uploads schedule action = some t) :
    t.Watched k key ∧ t.depot.NoWriter uploads key := by
  cases action with
  | depot action =>
      cases stepped
      refine ⟨?_, noWriter.step⟩
      rcases watched with gone | ⟨sweep, under, present, old, tracks⟩
      · exact .inl (gone.step noWriter)
      · refine .inr ⟨sweep, under, present, ?_, tracks⟩
        intro file there own
        rcases Depot.files_step there with before | ⟨i, rfl, early, _⟩
        · exact old file before own
        · rw [noWriter i own] at early
          cases early
  | sweep k' action =>
      have sweeps := sweeps_of_step stepped
      have calls : t.depot.calls = s.depot.calls := by
        rcases sweeps.depot with same | ⟨_, _, _, _, _, _, removed⟩
        · rw [same]
        · rw [removed]
          rfl
      refine ⟨?_, by simpa only [Depot.NoWriter, calls] using noWriter⟩
      by_cases own : k' = k
      · subst own
        exact watched.own_step unclaimed sweeps
      · have other : t.sweeps k = s.sweeps k := by
          cases sweeps <;> exact Function.update_of_ne (Ne.symm own) ..
        have fewer : ∀ file ∈ t.depot.files, file ∈ s.depot.files := by
          intro file there
          rcases sweeps.depot with same | ⟨_, _, _, _, _, _, removed⟩
          · exact same ▸ there
          · rw [removed] at there
            exact List.mem_of_mem_filter there
        rcases watched with gone | ⟨sweep, under, present, old, tracks⟩
        · exact .inl fun file there => gone file (fewer file there)
        · exact .inr ⟨sweep, other.trans under, present, fun file there => old file (fewer file there), tracks⟩

theorem Watched.run (watched : s.Watched k key) (noWriter : s.depot.NoWriter uploads key)
    {actions : List (Action ι κ)}
    (unclaimed : s.Always config uploads schedule (fun s _ => s.depot.Unclaimed key) actions)
    (ran : s.run config uploads schedule actions = some t) : t.Watched k key := by
  induction actions generalizing s with
  | nil =>
      cases ran
      exact watched
  | cons action rest ih =>
      obtain ⟨next, stepped, later⟩ := Option.bind_eq_some_iff.mp ran
      obtain ⟨watched', noWriter'⟩ := watched.step noWriter unclaimed.1 stepped
      exact ih watched' noWriter' (unclaimed.2 next stepped) later

end Deployment

/-- The sweep never removes the bytes of a row, and misses no old orphan. -/
theorem orphan_sweep (config : AttachmentConfig) (uploads : ι → Upload) (schedule : BackupSchedule)
    (uuids : ∀ i, (uploads i).id.length = 36) (distinct : Function.Injective fun i => (uploads i).id)
    (s : Deployment ι κ) (idle : ∀ i, s.depot.calls i = {}) (unswept : ∀ k, s.sweeps k = none)
    (paths : (s.depot.files.map (·.key)).Nodup)
    (fresh : ∀ i, ∀ file ∈ s.depot.files, file.key ≠ storageKeyFor (uploads i).id)
    (actions : List (Action ι κ))
    (inTime : s.Always config uploads schedule (Deployment.InTime schedule) actions)
    (t : Deployment ι κ) (ran : s.run config uploads schedule actions = some t) (k : κ)
    (u : Deployment ι κ) :
    (∀ action, t.step config uploads schedule (.sweep k action) = some u →
      ∀ file ∈ t.depot.files, file ∉ u.depot.files → ∀ later v,
        u.Always config uploads schedule (Deployment.InTime schedule) later →
        u.run config uploads schedule later = some v →
        ∀ row ∈ v.depot.attachments, row.storageKey ≠ some file.key) ∧
    (∀ now, t.step config uploads schedule (.sweep k (.opendir now)) = some u →
      ∀ file ∈ t.depot.files, file.modifiedAt < now - orphanGraceMs schedule → ∀ later v,
        u.Always config uploads schedule (fun reached _ => ∀ row ∈ reached.depot.attachments,
          row.storageKey ≠ some file.key) later →
        u.run config uploads schedule later = some v →
        ∀ sweep, v.sweeps k = some sweep → sweep.phase = .ended → sweep.removed < ceiling →
          ∀ left ∈ v.depot.files, left.key ≠ file.key) := by
  have different : Function.Injective fun i => storageKeyFor (uploads i).id := by
    intro i j same
    exact distinct (storageKeyFor_injective ((uuids i).trans (uuids j).symm) same)
  have start : s.Sound config uploads schedule := by
    constructor
    · intro i
      rw [idle i]
      exact ⟨by simp, by simp, by simp⟩
    · exact fun i file there own => absurd own (fresh i file there)
    · exact paths
    · simp [unswept]
    · simp [unswept]
    · simp [unswept]
  have sound := start.run different inTime ran
  constructor
  · intro action stepped file there gone later v laterInTime laterRan
    have sweeps := Deployment.sweeps_of_step stepped
    have dead : u.Dead uploads schedule file.key := by
      have before := sound.removed sweeps there gone
      exact before.step sound.fits (.sweep k action) trivial stepped
    exact (dead.run different (sound.sweep_step sweeps) laterInTime laterRan).2
  · intro now stepped file there old later v unclaimed laterRan sweep under ended below
    have noWriter : t.depot.NoWriter uploads file.key :=
      fun i own => (sound.dated i file there own.symm).1
    have opened : u = t.setSweep k {
        cutoff := now - orphanGraceMs schedule
        present := t.depot.files.map (·.key) } := by
      cases idle' : t.sweeps k with
      | some sweep => simp [Deployment.step, Deployment.sweepOrphanFiles, idle'] at stepped
      | none =>
          simp only [Deployment.step, Deployment.sweepOrphanFiles, idle'] at stepped
          split at stepped
          · exact (Option.some.inj stepped).symm
          · cases stepped
    subst opened
    have watched : (t.setSweep k {
        cutoff := now - orphanGraceMs schedule
        present := t.depot.files.map (·.key) }).Watched k file.key := by
      refine .inr ⟨_, Function.update_self .., List.mem_map_of_mem there, ?_, by simp [Deployment.Tracks]⟩
      intro other there' same
      rw [List.inj_on_of_nodup_map sound.paths there' there same]
      exact old
    rcases watched.run noWriter unclaimed laterRan with gone | ⟨sweep', under', _, _, tracks⟩
    · exact gone
    · cases under.symm.trans under'
      simp only [Deployment.Tracks, ended] at tracks
      exact absurd tracks (not_le.mpr below)

/-- Ten days after two files were written, one of which still has its row. -/
def twoFiles : Deployment Bool Unit where
  depot := {
    attachments := [Depot.fileRow (sampleUpload "kept") "image/png" 0]
    files := [{ key := "or/ph/orphan", modifiedAt := 0 }, { key := storageKeyFor "kept", modifiedAt := 0 }]
    now := 864000000 }

def opened : Deployment Bool Unit := twoFiles.setSweep () {
  cutoff := 864000000 - orphanGraceMs {}
  present := twoFiles.depot.files.map (·.key) }

def sweepAll : List (Action Bool Unit) := [
  .sweep () (.entry { key := storageKeyFor "kept", modifiedAt := 0 }),
  .sweep () (.entry { key := "or/ph/orphan", modifiedAt := 0 }),
  .sweep () .closed,
  .sweep () .lookup,
  .sweep () .remove,
  .sweep () .remove]

theorem orphan_sweep_twoFiles : ∃ swept : Deployment Bool Unit,
    opened.run (sampleConfig 8) sampleUploads {} sweepAll = some swept ∧
      (∀ left ∈ swept.depot.files, left.key ≠ "or/ph/orphan") ∧ swept.depot.files.length = 1 := by
  have ran : (opened.run (sampleConfig 8) sampleUploads {} sweepAll).isSome := by decide +kernel
  obtain ⟨swept, done⟩ := Option.isSome_iff_exists.mp ran
  have both := orphan_sweep (sampleConfig 8) sampleUploads {} (by decide) (by decide) twoFiles
    (fun _ => rfl) (fun _ => rfl) (by decide +kernel) (by decide +kernel) [] trivial twoFiles rfl () opened
  have checked : (opened.run (sampleConfig 8) sampleUploads {} sweepAll).all fun swept =>
      (swept.sweeps ()).any (fun sweep => sweep.phase = .ended ∧ sweep.removed < ceiling) ∧
        swept.depot.files.length = 1 := by decide +kernel
  rw [done, Option.all_some, decide_eq_true_eq, Option.any_eq_true] at checked
  obtain ⟨⟨sweep, under, ended⟩, one⟩ := checked
  rw [decide_eq_true_eq] at ended
  refine ⟨swept, done, ?_, one⟩
  exact both.2 864000000 rfl { key := "or/ph/orphan", modifiedAt := 0 } (by decide +kernel)
    (by decide +kernel) sweepAll swept (by decide +kernel) done sweep under ended.1 ended.2

end Kurul.CleanupWorker
