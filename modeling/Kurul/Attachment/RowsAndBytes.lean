import Kurul.Attachment.Quotas

/-! One upload, every step of which may throw. The `catch` also covers what comes after the
commit, so a broadcast or a mapping that throws takes the bytes of a stored row. -/
namespace Kurul.AttachmentService

variable {ι : Type} [DecidableEq ι]

def Outcome.takesEffect : Outcome → Bool
  | .done => true
  | .threw effect => effect

def Outcome.throws : Outcome → Bool
  | .done => false
  | .threw _ => true

def Stage.ended : Stage → Bool
  | .returned | .thrown => true
  | _ => false

/-- No row of the upload, or its bytes are there. -/
def RowHasBytes (upload : Upload) (s : Depot ι) : Prop :=
  ∀ row ∈ s.attachments, row.id = upload.id → ∃ file ∈ s.files, row.storageKey = some file.key

instance (upload : Upload) (s : Depot ι) : Decidable (RowHasBytes upload s) :=
  inferInstanceAs (Decidable (∀ row ∈ s.attachments, row.id = upload.id →
    ∃ file ∈ s.files, row.storageKey = some file.key))

/-- A call alone, with what comes of each of its steps. -/
def Depot.alone (config : AttachmentConfig) (upload : Upload) (i : ι) (outcome : Stage → Outcome) :
    Nat → Depot ι → Depot ι
  | 0, s => s
  | n + 1, s => (s.createFile config upload i (outcome (s.calls i).stage)).alone config upload i outcome n

/-- The upload passes every check of the service. -/
def Accepted (config : AttachmentConfig) (upload : Upload) (s : Depot ι) : Prop :=
  (config.place upload.taskId).any (·.workspaceId = upload.workspaceId) ∧
    (assertAllowedMimeType config.fileTypeFromBuffer upload.file.buffer upload.file.mimetype).isSome ∧
      (0 < config.workspaceStorageQuotaBytes upload.workspaceId →
        storedFileBytes (inWorkspace config upload.workspaceId) s.attachments +
          upload.file.buffer.length ≤ config.workspaceStorageQuotaBytes upload.workspaceId) ∧
        (0 < config.plan.instanceQuotaBytes →
          storedFileBytes (fun _ => true) s.attachments + upload.file.buffer.length ≤
            config.plan.instanceQuotaBytes)

/-- No step before the commit throws. A sum that no quota asks for is not read. -/
def ReachesCommit (config : AttachmentConfig) (upload : Upload) (outcome : Stage → Outcome) : Prop :=
  outcome .findTask = .done ∧ outcome .sniff = .done ∧ outcome .workspaceLimit = .done ∧
    (0 < config.workspaceStorageQuotaBytes upload.workspaceId → outcome .workspaceSum = .done) ∧
      (0 < config.plan.instanceQuotaBytes → outcome .instanceSum = .done) ∧
        outcome .write = .done ∧ outcome .create = .done ∧ outcome .record = .done

/-- After the row is stored something throws, and the clean-up takes effect. -/
def FailsAfterCommit (outcome : Stage → Outcome) : Prop :=
  (outcome .commit).takesEffect ∧
    ((outcome .commit).throws ∨ (outcome .announce).throws ∨ (outcome .toAttachmentDto).throws) ∧
      (outcome .clean).takesEffect

namespace Depot

variable {config : AttachmentConfig} {upload : Upload} {i : ι} {outcome : Stage → Outcome} {s : Depot ι}
  {n : Nat} {lost : Prop}

/-- From here the call ends within so many steps, without the bytes of its row where it is lost. -/
def Fate (config : AttachmentConfig) (upload : Upload) (i : ι) (outcome : Stage → Outcome) (s : Depot ι)
    (n : Nat) (lost : Prop) : Prop :=
  ∀ m, n ≤ m → ((s.alone config upload i outcome m).calls i).stage.ended ∧
    (RowHasBytes upload (s.alone config upload i outcome m) ↔ ¬ lost)

theorem alone_ended (ended : (s.calls i).stage.ended) (m : Nat) :
    s.alone config upload i outcome m = s := by
  induction m with
  | zero => rfl
  | succ m ih =>
      have still : ∀ outcome, s.createFile config upload i outcome = s := by
        intro outcome
        cases outcome <;> simp only [createFile, advance, throw_] <;>
          cases at_ : (s.calls i).stage <;> simp_all [Stage.ended]
      rw [alone, still, ih]

theorem Fate.step (rest : Fate config upload i outcome
      (s.createFile config upload i (outcome (s.calls i).stage)) n lost) :
    Fate config upload i outcome s (n + 1) lost := by
  intro m le
  cases m with
  | zero => omega
  | succ m => exact rest m (by omega)

theorem Fate.of_ended (ended : (s.calls i).stage.ended) (bytes : RowHasBytes upload s ↔ ¬ lost) :
    Fate config upload i outcome s n lost := by
  intro m _
  rw [alone_ended ended]
  exact ⟨ended, bytes⟩

theorem Fate.weaken (fate : Fate config upload i outcome s n lost) {m : Nat} (le : n ≤ m) :
    Fate config upload i outcome s m lost :=
  fun k le' => fate k (le.trans le')

/-- No row of the upload is stored. -/
def NoRow (upload : Upload) (s : Depot ι) : Prop := ∀ row ∈ s.attachments, row.id ≠ upload.id

omit [DecidableEq ι] in
theorem NoRow.bytes (none_ : s.NoRow upload) : RowHasBytes upload s :=
  fun row member same => absurd same (none_ row member)

/-- The row of the upload is the only one, and its bytes are there. -/
structure Stored (upload : Upload) (s : Depot ι) : Prop where
  row : ∃ row ∈ s.attachments, row.id = upload.id
  own : ∀ row ∈ s.attachments, row.id = upload.id → row.storageKey = some (storageKeyFor upload.id)
  bytes : ∃ file ∈ s.files, file.key = storageKeyFor upload.id

omit [DecidableEq ι] in
theorem Stored.hasBytes (stored : s.Stored upload) : RowHasBytes upload s := by
  intro row member same
  obtain ⟨file, there, key⟩ := stored.bytes
  exact ⟨file, there, key ▸ stored.own row member same⟩

theorem Stored.goto (stored : s.Stored upload) (stage : Stage) : (s.goto i stage).Stored upload :=
  ⟨stored.row, stored.own, stored.bytes⟩

/-- The refused or failed call. -/
theorem fate_thrown (none_ : s.NoRow upload) (moved : (s.calls i).stage = .thrown) (no : ¬ lost) :
    Fate config upload i outcome s n lost :=
  .of_ended (by rw [moved]; rfl) (by simp [none_.bytes, no])

theorem fate_clean_noRow (none_ : s.NoRow upload) (at_ : (s.calls i).stage = .clean) (no : ¬ lost) :
    Fate config upload i outcome s 1 lost := by
  apply Fate.step
  cases done : outcome .clean with
  | done =>
      simp only [at_, done, createFile, advance]
      exact fate_thrown none_ (by simp) no
  | threw effect =>
      simp only [at_, done, createFile, throw_]
      exact fate_thrown (by cases effect <;> exact none_) (by simp) no

/-- The clean-up of a call whose row is stored. -/
theorem fate_clean (stored : s.Stored upload) (at_ : (s.calls i).stage = .clean) :
    Fate config upload i outcome s 1 (outcome .clean).takesEffect := by
  have removed : ¬ RowHasBytes upload ((s.removeFile (storageKeyFor upload.id)).goto i .thrown) := by
    intro has
    obtain ⟨row, member, same⟩ := stored.row
    obtain ⟨file, there, key⟩ := has row member same
    rw [stored.own row member same, Option.some.injEq] at key
    have kept := (List.mem_filter.mp there).2
    simp [key] at kept
  apply Fate.step
  cases done : outcome .clean with
  | done =>
      simp only [at_, done, createFile, advance]
      exact .of_ended (by simp [Stage.ended]) (by simp [removed, Outcome.takesEffect])
  | threw effect =>
      simp only [at_, done, createFile, throw_]
      cases effect with
      | true => exact .of_ended (by simp [Stage.ended]) (by simp [removed, Outcome.takesEffect])
      | false =>
          have same : RowHasBytes upload (s.goto i .thrown) := stored.hasBytes
          exact .of_ended (by simp [Stage.ended]) (by simp [same, Outcome.takesEffect])

theorem Fate.congr {lost' : Prop} (fate : Fate config upload i outcome s n lost) (same : lost' ↔ lost) :
    Fate config upload i outcome s n lost' :=
  propext same ▸ fate

theorem fate_map (stored : s.Stored upload) (at_ : (s.calls i).stage = .toAttachmentDto) :
    Fate config upload i outcome s 2 ((outcome .toAttachmentDto).throws ∧ (outcome .clean).takesEffect) := by
  apply Fate.step
  cases done : outcome .toAttachmentDto with
  | done =>
      simp only [at_, done, createFile, advance]
      have same : RowHasBytes upload (s.goto i .returned) := stored.hasBytes
      exact .of_ended (by simp [Stage.ended]) (by simp [same, Outcome.throws])
  | threw effect =>
      simp only [at_, done, createFile, throw_]
      apply (fate_clean (stored.goto .clean) (by simp)).congr
      simp [Outcome.throws]

theorem fate_announce (stored : s.Stored upload) (at_ : (s.calls i).stage = .announce) :
    Fate config upload i outcome s 3 (((outcome .announce).throws ∨ (outcome .toAttachmentDto).throws) ∧
      (outcome .clean).takesEffect) := by
  apply Fate.step
  cases done : outcome .announce with
  | done =>
      simp only [at_, done, createFile, advance]
      apply (fate_map (stored.goto .toAttachmentDto) (by simp)).congr
      simp [Outcome.throws]
  | threw effect =>
      simp only [at_, done, createFile, throw_]
      apply ((fate_clean (stored.goto .clean) (by simp)).weaken (by omega)).congr
      simp [Outcome.throws]

omit [DecidableEq ι] in
theorem stored_insert (none_ : s.NoRow upload) (mimeType : String) (now : DateTime)
    (bytes : ∃ file ∈ s.files, file.key = storageKeyFor upload.id) :
    (s.insert (some (fileRow upload mimeType now))).Stored upload := by
  have new : ∀ row ∈ (s.insert (some (fileRow upload mimeType now))).attachments, row.id = upload.id →
      row = fileRow upload mimeType now := by
    intro row member same
    rcases List.mem_append.mp member with old | own
    · exact absurd same (none_ row old)
    · simpa using own
  refine ⟨⟨fileRow upload mimeType now, by simp [insert], rfl⟩, ?_, bytes⟩
  intro row member same
  rw [new row member same]
  rfl

/-- The transaction is ready to commit. -/
structure Ready (upload : Upload) (i : ι) (s : Depot ι) : Prop where
  none_ : s.NoRow upload
  bytes : ∃ file ∈ s.files, file.key = storageKeyFor upload.id
  created : ∃ mimeType now, (s.calls i).created = some (fileRow upload mimeType now)

theorem fate_commit (ready : s.Ready upload i) (at_ : (s.calls i).stage = .commit) :
    Fate config upload i outcome s 4 (FailsAfterCommit outcome) := by
  obtain ⟨none_, bytes, mimeType, now, created⟩ := ready
  have stored := stored_insert none_ mimeType now bytes
  apply Fate.step
  cases done : outcome .commit with
  | done =>
      simp only [at_, done, createFile, advance, created]
      apply (fate_announce (stored.goto .announce) (by simp)).congr
      simp [FailsAfterCommit, done, Outcome.throws, Outcome.takesEffect]
  | threw effect =>
      simp only [at_, done, createFile, throw_, created]
      cases effect with
      | true =>
          apply ((fate_clean (stored.goto .clean) (by simp)).weaken (by omega)).congr
          simp [FailsAfterCommit, done, Outcome.throws, Outcome.takesEffect]
      | false =>
          apply (fate_clean_noRow (s := s.goto i .clean) none_ (by simp) _).weaken (by omega)
          simp [FailsAfterCommit, done, Outcome.takesEffect]

theorem fate_record (ready : s.Ready upload i) (at_ : (s.calls i).stage = .record) :
    Fate config upload i outcome s 5 (outcome .record = .done ∧ FailsAfterCommit outcome) := by
  apply Fate.step
  cases done : outcome .record with
  | done =>
      simp only [at_, done, createFile, advance]
      have still : (s.goto i .commit).Ready upload i := ⟨ready.none_, ready.bytes, by simpa using ready.created⟩
      apply (fate_commit still (by simp)).congr
      simp
  | threw effect =>
      simp only [at_, done, createFile, throw_]
      apply (fate_clean_noRow (s := s.goto i .clean) ready.none_ (by simp) _).weaken (by omega)
      simp

theorem fate_create (none_ : s.NoRow upload) (bytes : ∃ file ∈ s.files, file.key = storageKeyFor upload.id)
    (at_ : (s.calls i).stage = .create) : Fate config upload i outcome s 6
      (outcome .create = .done ∧ outcome .record = .done ∧ FailsAfterCommit outcome) := by
  apply Fate.step
  cases done : outcome .create with
  | done =>
      have fresh : s.attachments.any (·.id = upload.id) = false := by simpa [NoRow] using none_
      simp only [at_, done, createFile, advance, fresh, Bool.false_eq_true, if_false]
      apply (fate_record (s := s.setCall i _) ⟨none_, bytes, by simp⟩ (by simp)).congr
      simp
  | threw effect =>
      simp only [at_, done, createFile, throw_]
      apply (fate_clean_noRow (s := s.goto i .clean) none_ (by simp) _).weaken (by omega)
      simp

theorem fate_write (none_ : s.NoRow upload) (at_ : (s.calls i).stage = .write) :
    Fate config upload i outcome s 7 (outcome .write = .done ∧ outcome .create = .done ∧
      outcome .record = .done ∧ FailsAfterCommit outcome) := by
  apply Fate.step
  cases done : outcome .write with
  | done =>
      simp only [at_, done, createFile, advance]
      apply (fate_create (s := (s.writeBytes i upload).goto i .create) none_
        ⟨_, List.mem_append_right _ List.mem_cons_self, rfl⟩ (by simp)).congr
      simp
  | threw effect =>
      simp only [at_, done, createFile, throw_]
      exact fate_thrown (by cases effect <;> exact none_) (by simp) (by simp)

/-- What is left from the workspace check on. -/
theorem fate_instanceSum (none_ : s.NoRow upload) (at_ : (s.calls i).stage = .instanceSum) :
    Fate config upload i outcome s 8 (storedFileBytes (fun _ => true) s.attachments +
        upload.file.buffer.length ≤ config.plan.instanceQuotaBytes ∧ outcome .instanceSum = .done ∧
      outcome .write = .done ∧ outcome .create = .done ∧ outcome .record = .done ∧
        FailsAfterCommit outcome) := by
  apply Fate.step
  cases done : outcome .instanceSum with
  | done =>
      simp only [at_, done, createFile, advance]
      split
      · rename_i full
        exact fate_thrown (s := s.goto i .thrown) none_ (by simp) (by omega)
      · rename_i fit
        apply (fate_write (s := s.goto i .write) none_ (by simp)).congr
        simp [Nat.not_lt.mp fit]
  | threw effect =>
      simp only [at_, done, createFile, throw_]
      exact fate_thrown (s := s.goto i .thrown) none_ (by simp) (by simp)

/-- The instance check, where there is one, and the write. -/
def FromInstance (config : AttachmentConfig) (upload : Upload) (s : Depot ι) (outcome : Stage → Outcome) :
    Prop :=
  (0 < config.plan.instanceQuotaBytes → storedFileBytes (fun _ => true) s.attachments +
    upload.file.buffer.length ≤ config.plan.instanceQuotaBytes) ∧
  (0 < config.plan.instanceQuotaBytes → outcome .instanceSum = .done) ∧
    outcome .write = .done ∧ outcome .create = .done ∧ outcome .record = .done ∧ FailsAfterCommit outcome

theorem fate_afterWorkspace (none_ : s.NoRow upload) (at_ : (s.calls i).stage = afterWorkspace config) :
    Fate config upload i outcome s 8 (FromInstance config upload s outcome) := by
  unfold afterWorkspace at at_
  split at at_
  · rename_i limited
    apply (fate_instanceSum none_ at_).congr
    simp [FromInstance, limited]
  · rename_i free
    apply ((fate_write none_ at_).weaken (by omega)).congr
    simp [FromInstance, free]

theorem fate_workspaceSum (none_ : s.NoRow upload) (at_ : (s.calls i).stage = .workspaceSum) :
    Fate config upload i outcome s 9 (storedFileBytes (inWorkspace config upload.workspaceId) s.attachments +
        upload.file.buffer.length ≤ (s.calls i).workspaceQuota ∧ outcome .workspaceSum = .done ∧
      FromInstance config upload s outcome) := by
  apply Fate.step
  cases done : outcome .workspaceSum with
  | done =>
      simp only [at_, done, createFile, advance]
      split
      · rename_i full
        exact fate_thrown (s := s.goto i .thrown) none_ (by simp) (by omega)
      · rename_i fit
        apply (fate_afterWorkspace (s := s.goto i (afterWorkspace config)) none_ (by simp)).congr
        simp [Nat.not_lt.mp fit, FromInstance]
  | threw effect =>
      simp only [at_, done, createFile, throw_]
      exact fate_thrown (s := s.goto i .thrown) none_ (by simp) (by simp)

/-- Both checks, each where there is a quota. -/
def FromWorkspace (config : AttachmentConfig) (upload : Upload) (s : Depot ι) (outcome : Stage → Outcome) :
    Prop :=
  (0 < config.workspaceStorageQuotaBytes upload.workspaceId →
    storedFileBytes (inWorkspace config upload.workspaceId) s.attachments + upload.file.buffer.length ≤
      config.workspaceStorageQuotaBytes upload.workspaceId) ∧
  (0 < config.workspaceStorageQuotaBytes upload.workspaceId → outcome .workspaceSum = .done) ∧
    FromInstance config upload s outcome

theorem fate_workspaceLimit (none_ : s.NoRow upload) (at_ : (s.calls i).stage = .workspaceLimit) :
    Fate config upload i outcome s 10 (outcome .workspaceLimit = .done ∧
      FromWorkspace config upload s outcome) := by
  apply Fate.step
  cases done : outcome .workspaceLimit with
  | done =>
      simp only [at_, done, createFile, advance]
      by_cases limited : 0 < config.workspaceStorageQuotaBytes upload.workspaceId
      · simp only [limited, if_true]
        apply (fate_workspaceSum (s := s.setCall i _) none_ (by simp)).congr
        simp [FromWorkspace, FromInstance, limited]
      · simp only [limited, if_false]
        apply ((fate_afterWorkspace (s := s.setCall i _) none_ (by simp)).weaken (by omega)).congr
        simp [FromWorkspace, FromInstance, limited]
  | threw effect =>
      simp only [at_, done, createFile, throw_]
      exact fate_thrown (s := s.goto i .thrown) none_ (by simp) (by simp)

theorem fate_sniff (none_ : s.NoRow upload) (at_ : (s.calls i).stage = .sniff) :
    Fate config upload i outcome s 11
      ((assertAllowedMimeType config.fileTypeFromBuffer upload.file.buffer upload.file.mimetype).isSome ∧
        outcome .sniff = .done ∧ outcome .workspaceLimit = .done ∧
          FromWorkspace config upload s outcome) := by
  apply Fate.step
  cases done : outcome .sniff with
  | done =>
      simp only [at_, done, createFile, advance]
      split
      · rename_i refused
        exact fate_thrown (s := s.goto i .thrown) none_ (by simp) (by simp [refused])
      · rename_i mimeType allowed
        apply (fate_workspaceLimit (s := s.setCall i _) none_ (by simp)).congr
        simp [allowed, FromWorkspace, FromInstance]
  | threw effect =>
      simp only [at_, done, createFile, throw_]
      exact fate_thrown (s := s.goto i .thrown) none_ (by simp) (by simp)

theorem fate_findTask (none_ : s.NoRow upload) (at_ : (s.calls i).stage = .findTask) :
    Fate config upload i outcome s 12 (Accepted config upload s ∧ ReachesCommit config upload outcome ∧
      FailsAfterCommit outcome) := by
  apply Fate.step
  cases done : outcome .findTask with
  | done =>
      simp only [at_, done, createFile, advance]
      split
      · rename_i missing
        apply fate_thrown (s := s.goto i .thrown) none_ (by simp)
        rintro ⟨⟨placed, _⟩, _⟩
        simp only [Option.filter_eq_none_iff] at missing
        cases found : config.place upload.taskId <;> simp_all
      · rename_i place found
        obtain ⟨stored, here⟩ := Option.filter_eq_some_iff.mp found
        apply (fate_sniff (s := s.goto i .sniff) none_ (by simp)).congr
        simp only [Accepted, ReachesCommit, FromWorkspace, FromInstance, stored, Option.any_some, here,
          goto_attachments, done]
        tauto
  | threw effect =>
      simp only [at_, done, createFile, throw_]
      exact fate_thrown (s := s.goto i .thrown) none_ (by simp) (by simp [ReachesCommit, done])

end Depot

/-- A call ends, and the row of an upload has its bytes unless something throws after the
commit and the clean-up takes effect. -/
theorem row_has_bytes (config : AttachmentConfig) (upload : Upload) (i : ι) (s : Depot ι)
    (idle : s.calls i = {}) (fresh : ∀ row ∈ s.attachments, row.id ≠ upload.id)
    (outcome : Stage → Outcome) :
    let afterwards := s.alone config upload i outcome 12
    (afterwards.calls i).stage.ended ∧ (RowHasBytes upload afterwards ↔
      ¬ (Accepted config upload s ∧ ReachesCommit config upload outcome ∧ FailsAfterCommit outcome)) :=
  Depot.fate_findTask fresh (by rw [idle]) 12 (Nat.le_refl _)

theorem row_has_bytes_stored :
    let afterwards := ({ attachments := [] } : Depot Bool).alone (sampleConfig 8) (sampleUploads false)
      false (fun _ => .done) 12
    afterwards.attachments.any (·.id = (sampleUploads false).id) ∧
      RowHasBytes (sampleUploads false) afterwards := by
  have fate := row_has_bytes (sampleConfig 8) (sampleUploads false) false
    ({ attachments := [] } : Depot Bool) rfl (by simp) (fun _ => .done)
  exact ⟨by decide +kernel, fate.2.mpr (by simp [FailsAfterCommit, Outcome.throws])⟩

/-- The broadcast throws: the row stays and its bytes go. -/
theorem broadcast_takes_bytes :
    let outcome (stage : Stage) : Outcome := if stage = .announce then .threw false else .done
    let afterwards := ({ attachments := [] } : Depot Bool).alone (sampleConfig 8) (sampleUploads false)
      false outcome 12
    afterwards.attachments.any (·.id = (sampleUploads false).id) ∧ afterwards.files = [] ∧
      ¬ RowHasBytes (sampleUploads false) afterwards := by
  decide +kernel

end Kurul.AttachmentService
