import Kurul.Attachment.AttachmentService

/-! The orphan sweep, from one await to the next. Uploads, removals and other sweeps go on
while it reads the directory, looks keys up and removes files one at a time. -/
namespace Kurul

open AttachmentService

def MIN_ORPHAN_GRACE_MS : Int := 24 * 60 * 60 * 1000

/-- `BACKUP_INTERVAL` and `BACKUP_KEEP`, as `envInt` reads them. -/
structure BackupSchedule where
  interval : Int := 86400
  keep : Int := 7

def orphanGraceMs (schedule : BackupSchedule) : Int :=
  let configured := max schedule.interval 0 * max schedule.keep 1 * 1000
  max configured MIN_ORPHAN_GRACE_MS

namespace CleanupWorker

def CLEANUP_BATCH_SIZE : Nat := 1000
def MAX_BATCHES_PER_TABLE : Nat := 1000

/-- How many files one sweep removes at most, less a batch. -/
def ceiling : Nat := CLEANUP_BATCH_SIZE * MAX_BATCHES_PER_TABLE

/-- Between two entries of the directory, before the lookup of a flush, before the next file of
one, or at the end. The last flush follows the loop. -/
inductive Phase where
  | listing
  | looking (last : Bool)
  | removing (keys : List String) (last : Bool)
  | ended
  | failed
  deriving DecidableEq

structure Sweep where
  cutoff : DateTime
  /-- The files when the directory was opened; no step of the sweep reads it. -/
  present : List String
  listed : List String := []
  batch : List String := []
  removed : Nat := 0
  phase : Phase := .listing

namespace Sweep

/-- The loop after one entry of the directory. -/
def entry (sweep : Sweep) (file : StoredFile) : Sweep :=
  let listed := file.key :: sweep.listed
  if file.modifiedAt ≥ sweep.cutoff then { sweep with listed }
  else
    let batch := sweep.batch ++ [file.key]
    if batch.length ≥ CLEANUP_BATCH_SIZE then { sweep with listed, batch, phase := .looking false }
    else if sweep.removed ≥ ceiling then { sweep with listed, batch, phase := .looking true }
    else { sweep with listed, batch }

/-- What follows a flush: the end, the break, or the next entry. -/
def afterFlush (sweep : Sweep) (last : Bool) : Sweep :=
  { sweep with
    batch := []
    phase := if last then .ended else if sweep.removed ≥ ceiling then .looking true else .listing }

/-- The lookup of a batch; without keys there is none. -/
def flush (sweep : Sweep) (claimed : List String) (last : Bool) : Sweep :=
  if sweep.batch = [] then sweep.afterFlush last
  else { sweep with phase := .removing (sweep.batch.filter (· ∉ claimed)) last }

end Sweep

/-- A step of a sweep. It opens the directory some time after the job took the time; one that
throws may have removed its file. -/
inductive SweepAction where
  | opendir (now : DateTime)
  | entry (file : StoredFile)
  | closed
  | lookup
  | remove
  | throws (effect : Bool)

/-- The uploads with their files, and the sweeps under way. -/
structure Deployment (ι κ : Type) where
  depot : Depot ι
  sweeps : κ → Option Sweep := fun _ => none

inductive Action (ι κ : Type) where
  | depot (action : AttachmentService.Action ι)
  | sweep (k : κ) (action : SweepAction)

variable {ι κ : Type} [DecidableEq ι] [DecidableEq κ]

namespace Deployment

def setSweep (s : Deployment ι κ) (k : κ) (sweep : Sweep) : Deployment ι κ :=
  { s with sweeps := Function.update s.sweeps k (some sweep) }

def unlink (s : Deployment ι κ) (key : String) : Deployment ι κ :=
  { s with depot := s.depot.removeFile key }

def claimedKeys (s : Deployment ι κ) : List String := s.depot.attachments.filterMap (·.storageKey)

/-- A directory that is read to its end has given every file that was there throughout. -/
def sweepOrphanFiles (schedule : BackupSchedule) (s : Deployment ι κ) (k : κ) :
    SweepAction → Option Sweep → Option (Deployment ι κ)
  | .opendir now, none =>
      if now ≤ s.depot.now then some (s.setSweep k {
        cutoff := now - orphanGraceMs schedule
        present := s.depot.files.map (·.key) })
      else none
  | .entry file, some sweep =>
      if sweep.phase = .listing ∧ file ∈ s.depot.files then some (s.setSweep k (sweep.entry file)) else none
  | .closed, some sweep =>
      if sweep.phase = .listing ∧
          ∀ key ∈ sweep.present, key ∈ sweep.listed ∨ key ∉ s.depot.files.map (·.key) then
        some (s.setSweep k { sweep with phase := .looking true })
      else none
  | .lookup, some sweep =>
      match sweep.phase with
      | .looking last => some (s.setSweep k (sweep.flush s.claimedKeys last))
      | _ => none
  | .remove, some sweep =>
      match sweep.phase with
      | .removing [] last => some (s.setSweep k (sweep.afterFlush last))
      | .removing (key :: rest) last =>
          some ((s.unlink key).setSweep k
            { sweep with removed := sweep.removed + 1, phase := .removing rest last })
      | _ => none
  | .throws effect, some sweep =>
      match sweep.phase with
      | .ended | .failed => none
      | .removing (key :: _) _ =>
          some ((if effect then s.unlink key else s).setSweep k { sweep with phase := .failed })
      | _ => some (s.setSweep k { sweep with phase := .failed })
  | _, _ => none

def step (config : AttachmentConfig) (uploads : ι → Upload) (schedule : BackupSchedule)
    (s : Deployment ι κ) : Action ι κ → Option (Deployment ι κ)
  | .depot action => some { s with depot := s.depot.step config uploads action }
  | .sweep k action => s.sweepOrphanFiles schedule k action (s.sweeps k)

def run (config : AttachmentConfig) (uploads : ι → Upload) (schedule : BackupSchedule)
    (s : Deployment ι κ) : List (Action ι κ) → Option (Deployment ι κ)
  | [] => some s
  | action :: rest =>
      (s.step config uploads schedule action).bind fun next => next.run config uploads schedule rest

end Deployment

end CleanupWorker
end Kurul
