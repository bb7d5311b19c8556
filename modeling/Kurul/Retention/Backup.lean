import Kurul.Machine
import Kurul.Retention.CleanupWorker

/-! The backup sidecar, from one command of its script to the next, with the files and rows
that its dumps refer to. Times are whole seconds. What a push does away from the host is left
out, and time may pass at every command. -/
namespace Kurul.Backup

/-- `BACKUP_INTERVAL` and `BACKUP_KEEP` of the script; the API reads the same. -/
structure Config where
  interval : Nat := 86400
  keep : Nat := 7

def Config.schedule (config : Config) : BackupSchedule := { interval := config.interval, keep := config.keep }

/-- An attachment file that a row points at. -/
structure Stored where
  key : String
  modifiedAt : Nat
  deriving DecidableEq

/-- A finished dump: its name is the second it was started in, its mtime the one it was done. -/
structure Dump where
  started : Nat
  mtime : Nat
  refs : List Stored
  deriving DecidableEq

/-- Where the script is. -/
inductive Phase where
  | stopped
  | stamping
  | dumping (stamp : Nat) (refs : List Stored)
  | archiving (stamp : Nat)
  | pushing
  | sleeping (until_ : Nat)
  | catchingUp (stamp age : Nat)
  deriving DecidableEq

structure Sidecar where
  now : Nat
  rows : List Stored
  dumps : List Dump := []
  archives : List Nat := []
  phase : Phase := .stopped

inductive Action where
  | pass (seconds : Nat)
  | stamped
  | dumped (ok : Bool)
  | archived (ok : Bool)
  | pushed
  | woke
  | stop
  | start
  | caughtUp (archived : Bool)
  | store (key : String)
  | deleteRow (key : String)

/-- `ls | sort -r`: the newest name first. -/
def listing (dumps : List Dump) : List Dump := dumps.insertionSort fun a b => a.started ≥ b.started

/-- `prune_pattern`: all but the newest names go. -/
def prune (keep : Nat) (dumps : List Dump) : List Dump := (listing dumps).take keep

def pruneArchives (keep : Nat) (archives : List Nat) : List Nat :=
  (archives.insertionSort fun a b => a ≥ b).take keep

def newestDump (dumps : List Dump) : Option Dump := (listing dumps).head?

namespace Sidecar

/-- `next_stamp`: no archive carries the second yet. -/
def free (s : Sidecar) (stamp : Nat) : Bool :=
  s.dumps.all (·.started ≠ stamp) && s.archives.all (· ≠ stamp)

/-- After a start: the rest of the interval where the newest dump is younger than half of it,
a cycle otherwise. -/
def boot (config : Config) (s : Sidecar) : Phase :=
  match newestDump s.dumps with
  | none => .stamping
  | some dump =>
      let age := s.now - dump.mtime
      if age < config.interval / 2 then .catchingUp dump.started age else .stamping

def pruned (config : Config) (s : Sidecar) : Sidecar :=
  { s with
    dumps := prune config.keep s.dumps
    archives := pruneArchives config.keep s.archives }

def step (config : Config) (s : Sidecar) : Action → Option Sidecar
  | .pass seconds =>
      match s.phase with
      | .sleeping until_ => if s.now + seconds ≤ until_ then some { s with now := s.now + seconds } else none
      | _ => some { s with now := s.now + seconds }
  | .stamped =>
      match s.phase with
      | .stamping => if s.free s.now then some { s with phase := .dumping s.now s.rows } else none
      | _ => none
  | .dumped ok =>
      match s.phase with
      | .dumping stamp refs =>
          -- a failed or interrupted dump never gets its name
          let dumps := if ok then ⟨stamp, s.now, refs⟩ :: s.dumps else s.dumps
          some { s with dumps, phase := .archiving stamp }
      | _ => none
  | .archived ok =>
      match s.phase with
      | .archiving stamp =>
          let archives := if ok then stamp :: s.archives else s.archives
          some { pruned config { s with archives } with phase := .pushing }
      | _ => none
  | .pushed =>
      match s.phase with
      | .pushing => some { s with phase := .sleeping (s.now + config.interval) }
      | _ => none
  | .woke =>
      match s.phase with
      | .sleeping until_ => if until_ ≤ s.now then some { s with phase := .stamping } else none
      | _ => none
  | .stop => some { s with phase := .stopped }
  | .start =>
      match s.phase with
      | .stopped => some { s with phase := s.boot config }
      | _ => none
  | .caughtUp archived =>
      match s.phase with
      | .catchingUp stamp age =>
          let archives := if archived && s.archives.all (· ≠ stamp) then stamp :: s.archives else s.archives
          some { pruned config { s with archives } with phase := .sleeping (s.now + (config.interval - age)) }
      | _ => none
  | .store key => some { s with rows := ⟨key, s.now⟩ :: s.rows }
  | .deleteRow key => some { s with rows := s.rows.filter (·.key ≠ key) }

/-- No dump was started longer ago than the sweep waits. -/
def Covered (config : Config) (s : Sidecar) : Prop :=
  ∀ dump ∈ s.dumps, ((s.now : Int) - dump.started) * 1000 ≤ orphanGraceMs config.schedule

instance (config : Config) (s : Sidecar) : Decidable (s.Covered config) :=
  inferInstanceAs (Decidable (∀ dump ∈ s.dumps, _))

/-- The sweep may remove the file: no row points at it, and it has not been written for long. -/
def Eligible (config : Config) (s : Sidecar) (file : Stored) : Prop :=
  file ∉ s.rows ∧ (file.modifiedAt : Int) * 1000 < s.now * 1000 - orphanGraceMs config.schedule

instance (config : Config) (s : Sidecar) (file : Stored) : Decidable (s.Eligible config file) :=
  inferInstanceAs (Decidable (_ ∧ _))

/-- No kept dump refers to a file that the sweep may remove. -/
def Spared (config : Config) (s : Sidecar) : Prop :=
  ∀ dump ∈ s.dumps, ∀ file ∈ dump.refs, ¬ s.Eligible config file

instance (config : Config) (s : Sidecar) : Decidable (s.Spared config) :=
  inferInstanceAs (Decidable (∀ dump ∈ s.dumps, ∀ file ∈ dump.refs, ¬ s.Eligible config file))

end Sidecar
end Kurul.Backup
