/-! What a supervised worker publishes about itself: the entry of one worker in the
`FleetState` of `worker.rs`, with the wire types of `types.rs` it is made of. The
updates are those of a registered id; the source ignores all others. -/
namespace Malkuth.Fleet

inductive RestartPolicy where
  | permanent
  | transient
  | temporary
  deriving DecidableEq, Repr

inductive WorkerPhase where
  | starting
  | running
  | restarting
  | draining
  | stopped
  deriving DecidableEq, Repr

def WorkerPhase.name : WorkerPhase → String
  | .starting => "starting"
  | .running => "running"
  | .restarting => "restarting"
  | .draining => "draining"
  | .stopped => "stopped"

inductive WorkerStatus where
  | starting
  | running
  | stopped
  | failed
  deriving DecidableEq, Repr

structure WorkerInfo where
  id : String
  kind : String
  status : WorkerStatus
  restartPolicy : RestartPolicy
  restartCount : Nat
  lastError : Option String
  deriving DecidableEq, Repr

/-- The fields of a `WorkerSpec` that supervision reads; the command line, the
environment and the log ring only reach `spawn`, whose outcome is an event. -/
structure WorkerSpec where
  id : String
  kind : String
  restartPolicy : RestartPolicy
  drainSignal : Bool
  restartSignal : Bool
  deriving DecidableEq, Repr

structure WorkerSnapshot where
  id : String
  kind : String
  phase : WorkerPhase
  pid : Option Nat
  uptimeSecs : Nat
  restartPolicy : RestartPolicy
  restartCount : Nat
  lastError : Option String
  starttime : Option Nat
  deriving DecidableEq, Repr

structure FleetEntry where
  snapshot : WorkerSnapshot
  spawnedAt : Option Int
  deriving DecidableEq, Repr

namespace FleetEntry

def register (spec : WorkerSpec) : FleetEntry :=
  ⟨⟨spec.id,spec.kind,.starting,none,0,spec.restartPolicy,0,none,none⟩,none⟩

/-- `starttime` is what `/proc/<pid>/stat` says, if anything. -/
def running (pid : Option Nat) (procStarttime : Option Nat) (wall : Int) (e : FleetEntry) : FleetEntry :=
  ⟨{ e.snapshot with
      phase := .running, pid := pid, starttime := pid.bind fun _ => procStarttime, uptimeSecs := 0 },
    some wall⟩

def restarting (restartCount : Nat) (e : FleetEntry) : FleetEntry :=
  ⟨{ e.snapshot with
      phase := .restarting, restartCount := restartCount, pid := none, starttime := none
      uptimeSecs := 0 },
    none⟩

def draining (e : FleetEntry) : FleetEntry :=
  { e with snapshot := { e.snapshot with phase := .draining, pid := none, starttime := none } }

def finish (phase : WorkerPhase) (restartCount : Nat) (lastError : Option String) (e : FleetEntry) :
    FleetEntry :=
  ⟨{ e.snapshot with
      phase := phase, restartCount := restartCount, lastError := lastError, pid := none
      starttime := none, uptimeSecs := 0 },
    none⟩

/-- `stop_all` on one entry: the run ended without the worker's own last update. -/
def stop (e : FleetEntry) : FleetEntry :=
  ⟨{ e.snapshot with phase := .stopped, pid := none, starttime := none, uptimeSecs := 0 },none⟩

/-- The snapshot a reader gets; wall-clock times are in nanoseconds. -/
def withUptime (wall : Int) (e : FleetEntry) : WorkerSnapshot :=
  match e.spawnedAt with
  | some spawned =>
    { e.snapshot with
      uptimeSecs := if spawned ≤ wall then ((wall - spawned) / 1000000000).toNat else 0 }
  | none => e.snapshot

end FleetEntry

end Malkuth.Fleet
