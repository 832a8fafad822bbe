import Malkuth.ApprovalRegistry
import Malkuth.RestartBook
import Malkuth.Supervise

/-! The control arms of `mcp.rs`: the arguments, answers and parsers of `approve`,
`restart` and `drain`, and the state of a run they act on. An answer is its JSON
payload: `ok: false` with a code and a message, or the fields of the success. -/
namespace Malkuth.Mcp

open Malkuth.Fleet Malkuth.Lifecycle Malkuth.DrainAuth Malkuth.Supervise

structure Failure where
  code : String
  message : String
  deriving DecidableEq, Repr

structure ApproveArgs where
  proposalId : String
  workerId : String
  decision : Option String

structure RestartArgs where
  runId : String
  workerId : String
  proposalId : Option String
  deriving DecidableEq, Repr

structure DrainArgs where
  runId : String
  kind : Option String
  timeoutSecs : Option Nat
  proposalId : Option String
  workerId : Option String
  deriving DecidableEq, Repr

def parseGateDecision (raw : Option String) : Except String GateDecision :=
  match raw.map fun text => Text.toAsciiLowercase (Text.trim text) with
  | none => .ok .allow
  | some word =>
    if word = "" ∨ word = "allow" ∨ word = "approved" then .ok .allow
    else if word = "review" then .ok .review
    else if word = "block" ∨ word = "blocked" then .ok .block
    else .error "unsupported_decision"

def shutdownKindName : ShutdownKind → String
  | .graceful => "graceful"
  | .immediate => "immediate"
  | .reload => "reload"

def parseDrainKind (raw : Option String) : Except String ShutdownKind :=
  match raw.map fun text => Text.toAsciiLowercase (Text.trim text) with
  | none => .ok .graceful
  | some word =>
    if word = "" ∨ word = "graceful" then .ok .graceful
    else if word = "immediate" then .ok .immediate
    else .error "unsupported_kind"

def requireProposal (proposalId : Option String) : Except Failure String :=
  match proposalId.map Text.trim with
  | some id => if id ≠ "" then .ok id else .error required
  | none => .error required
where
  required : Failure := ⟨DrainAuthError.required.code,
    "this action requires an approved proposal_id: register the approval with malkuth_approve first"⟩

/-- The readings a step makes of the wall clock and of the monotonic clock, in order. -/
structure Readings where
  wall : Nat → Int
  instant : Nat → Nat

/-- Both clocks stand still. -/
def Readings.at (time : Nat) : Readings := ⟨fun _ => time,fun _ => time⟩

structure Approved where
  proposalId : String
  workerId : String
  decision : GateDecision
  expiresInSecs : Nat
  deriving DecidableEq, Repr

def approvePayload (entries : List ApprovalEntry) (args : ApproveArgs) (r : Readings) :
    Except Failure Approved × List ApprovalEntry :=
  let proposal := Text.trim args.proposalId
  let worker := Text.trim args.workerId
  if proposal = "" ∨ worker = "" then
    (.error ⟨DrainAuthError.invalidRequest.code,"proposal_id and worker_id must both be non-empty"⟩,entries)
  else
    match parseGateDecision args.decision with
    | .error code => (.error ⟨code,"decision must be allow (default), review, or block"⟩,entries)
    | .ok decision =>
      (.ok ⟨proposal,worker,decision,Limits.global.ttl / 1000000000⟩,
        approve Limits.global entries proposal worker decision r.wall (r.wall entries.length))

/-- The workers of one `malkuth_supervise` call. Every one of them is given a restart
signal and the run's fleet sink, and none a drain signal. -/
structure RunSpec where
  workers : List Config
  timeoutSecs : Option Nat
  distinct : (workers.map fun cfg => cfg.spec.id).Nodup
  wired : ∀ cfg ∈ workers,
    cfg.sink = true ∧ cfg.spec.restartSignal = true ∧ cfg.spec.drainSignal = false

def RunSpec.config (spec : RunSpec) (worker : String) : Option Config :=
  spec.workers.find? fun cfg => cfg.spec.id == worker

/-- How far `malkuth_supervise` is with the run: its supervisor still runs, or was
dropped by the timeout and is being wound up, or has returned. -/
inductive Stage where
  | supervising
  | timedOut
  | kindStored
  | drainStored
  | ended
  | finished
  deriving DecidableEq, Repr

/-- What changes of a `RunHandle`. A worker's fleet entry and restart signal are kept
with the worker. -/
structure RunHandle where
  stage : Stage
  drain : DrainController
  book : RestartBook
  workers : String → Worker

namespace RunHandle

def new : RunHandle := ⟨.supervising,.new,.default,fun _ => .initial⟩

def isFinished (h : RunHandle) : Bool := h.stage == .finished

def setWorker (h : RunHandle) (worker : String) (w : Worker) : RunHandle :=
  { h with workers := Function.update h.workers worker w }

def phases (h : RunHandle) : Phases := fun worker =>
  (h.workers worker).entry.map fun e => (e.snapshot.phase,e.snapshot.restartCount)

def phaseOf (h : RunHandle) (worker : String) : WorkerPhase :=
  ((h.workers worker).entry.map fun e => e.snapshot.phase).getD .stopped

def fleetSnapshot (spec : RunSpec) (wall : Nat → Int) (h : RunHandle) : List WorkerSnapshot :=
  let entries := spec.workers.filterMap fun cfg => (h.workers cfg.spec.id).entry
  (entries.zipIdx.map fun (e,k) => e.withUptime (wall k)).mergeSort
    (fun a b => decide (a.id ≤ b.id))

def allReturned (spec : RunSpec) (h : RunHandle) : Bool :=
  spec.workers.all fun cfg =>
    match (h.workers cfg.spec.id).point with
    | .returned _ => true
    | _ => false

/-- The timeout drops the supervision future, and with it every child and wait. -/
def timeout (spec : RunSpec) (h : RunHandle) : Option RunHandle :=
  if h.stage = .supervising ∧ spec.timeoutSecs.isSome = true then
    some { h with
      stage := .timedOut
      workers := fun worker => { (h.workers worker).unselect with child := none } }
  else none

/-- The end of `malkuth_supervise`, one shared access at a time. -/
def conclude (spec : RunSpec) (h : RunHandle) : Option RunHandle :=
  match h.stage with
  | .supervising => if h.allReturned spec then some { h with stage := .ended } else none
  | .timedOut => some { h with drain := h.drain.storeKind .graceful, stage := .kindStored }
  | .kindStored => some { h with drain := h.drain.storeDraining, stage := .drainStored }
  | .drainStored => some { h with
      stage := .ended
      workers := fun worker => (h.workers worker).update .stop }
  | .ended => some { h with stage := .finished }
  | .finished => none

theorem timeout_eq_some (h : RunHandle) (dropped : h.timeout spec = some h') :
    h' = { h with
      stage := .timedOut
      workers := fun worker => { (h.workers worker).unselect with child := none } } := by
  unfold timeout at dropped
  split at dropped
  · exact (Option.some.inj dropped).symm
  · contradiction

/-- Concluding a run keeps its book and its drain bit, and stops at most the fleet. -/
theorem conclude_eq_some (h : RunHandle) (done : h.conclude spec = some h') :
    h'.stage ≠ .supervising ∧ h'.book = h.book ∧ (h.drain.draining = true → h'.drain.draining = true) ∧
      (h'.workers = h.workers ∨ h'.workers = fun worker => (h.workers worker).update .stop) := by
  unfold conclude at done
  split at done
  · split at done
    · obtain rfl := Option.some.inj done; exact ⟨by simp,rfl,id,.inl rfl⟩
    · contradiction
  · obtain rfl := Option.some.inj done; exact ⟨by simp,rfl,id,.inl rfl⟩
  · obtain rfl := Option.some.inj done; exact ⟨by simp,rfl,fun _ => rfl,.inl rfl⟩
  · obtain rfl := Option.some.inj done; exact ⟨by simp,rfl,id,.inr rfl⟩
  · obtain rfl := Option.some.inj done; exact ⟨by simp,rfl,id,.inl rfl⟩
  · contradiction

end RunHandle

end Malkuth.Mcp
