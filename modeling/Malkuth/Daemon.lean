import Malkuth.SuperviseBudget
import Mathlib.Logic.Function.Basic

/-! The loop of `run_daemon_with_shutdown`: it reads the config, starts a `Supervisor` over
the services and goes round again when that returns. Every iteration has a drain controller
of its own and a task, its wiring, that begins the drain on the next SIGHUP or exit; nothing
ends that task when its iteration is over. Iterations are numbered from 1. -/
namespace Malkuth.Daemon

open Malkuth.Fleet Malkuth.Lifecycle Transition

/-- A service of the config; the command line only reaches `spawn`. -/
structure ServiceDef where
  id : String
  kind : String
  restartPolicy : RestartPolicy
  deriving DecidableEq, Repr

structure DaemonConfig where
  rateLimitWindowSecs : Nat
  rateLimitMaxRestarts : UInt32
  cooldownSecs : Nat
  services : List ServiceDef
  deriving DecidableEq, Repr

def DaemonConfig.intoWorkerSpecs (cfg : DaemonConfig) : List WorkerSpec :=
  cfg.services.map fun svc =>
    ⟨svc.id,if svc.kind = "" then "service" else svc.kind,svc.restartPolicy,false,false⟩

/-- The arguments of one `supervise_one` of this config; the daemon has no fleet sink. -/
def DaemonConfig.supervises (cfg : DaemonConfig) (spec : WorkerSpec) : Supervise.Config where
  spec := spec
  maxRestarts := cfg.rateLimitMaxRestarts.toNat
  window := Supervise.secs cfg.rateLimitWindowSecs
  cooldown := Supervise.secs cfg.cooldownSecs
  sink := false
  u32 := cfg.rateLimitMaxRestarts.toNat_lt

abbrev ReadResult := Except String DaemonConfig

def usable : ReadResult → Bool
  | .ok cfg => !cfg.services.isEmpty
  | .error _ => false

inductive Exit where
  /-- `exit(1)` after "config read failed" or "config defines no [[services]]". -/
  | configRead (error : String)
  | noServices
  | shutdown
  deriving DecidableEq, Repr

inductive Point where
  | reading
  | running
  | exited (why : Exit)
  deriving DecidableEq, Repr

/-- The wiring task of an iteration: its `select!`, and the two stores of `begin_drain`. -/
inductive Wiring where
  | unborn
  | selecting
  | storingKind
  | storingDraining
  | done
  deriving DecidableEq, Repr

/-- `exit` is the value of the watch channel; `reload` the `Notify` that SIGHUP reaches. -/
structure State where
  now : Nat
  point : Point
  iteration : Nat
  exit : Bool
  reload : Notify Nat
  wiring : Nat → Wiring
  drain : Nat → DrainController
  workers : List (Supervise.Config × Supervise.Worker)

inductive Event where
  | tick (ns : Nat)
  /-- The task of SIGHUP calls `notify_one`. -/
  | hangup
  /-- One of the sources of an exit sends `true`. -/
  | exit
  | read (result : ReadResult)
  /-- A wiring task polls its `select!` and finds nothing. -/
  | park (iteration : Nat)
  | reloadBranch (iteration : Nat)
  | exitBranch (iteration : Nat)
  | storeKind (iteration : Nat)
  | storeDraining (iteration : Nat)
  /-- A move of one of the workers. -/
  | act (worker : Nat) (a : Supervise.Action)
  /-- `Supervisor::run` returns. -/
  | returned
  deriving DecidableEq

namespace State

def setWiring (s : State) (m : Nat) (w : Wiring) : State := { s with wiring := Function.update s.wiring m w }

@[simp] theorem setWiring_point (s : State) (m : Nat) (w : Wiring) : (s.setWiring m w).point = s.point := rfl
@[simp] theorem setWiring_iteration (s : State) (m : Nat) (w : Wiring) :
    (s.setWiring m w).iteration = s.iteration := rfl
@[simp] theorem setWiring_exit (s : State) (m : Nat) (w : Wiring) : (s.setWiring m w).exit = s.exit := rfl

def startIteration (s : State) (cfg : DaemonConfig) : State :=
  { s with
    point := .running
    iteration := s.iteration + 1
    wiring := Function.update s.wiring (s.iteration + 1) .selecting
    drain := Function.update s.drain (s.iteration + 1) .new
    workers := cfg.intoWorkerSpecs.map fun spec => (cfg.supervises spec,.initial) }

def read (s : State) : ReadResult → State
  | .error e => { s with point := .exited (.configRead e) }
  | .ok cfg => if cfg.intoWorkerSpecs.isEmpty then { s with point := .exited .noServices } else s.startIteration cfg

/-- All the futures of `run` are ready. -/
def finished (s : State) : Bool := s.workers.all fun w => w.2.point matches .returned _

def next (s : State) : Event → Option State
  | .tick ns => some { s with now := s.now + ns }
  | .hangup => some { s with reload := s.reload.notifyOne }
  | .exit => some { s with exit := true }
  | .read result => if s.point = .reading then some (s.read result) else none
  | .park m => if s.wiring m = .selecting then some { s with reload := s.reload.park m } else none
  | .reloadBranch m =>
    if s.wiring m = .selecting then
      (s.reload.receive m).map fun reload => { s.setWiring m .storingKind with reload := reload }
    else none
  | .exitBranch m =>
    if s.wiring m = .selecting ∧ s.exit then
      some { s.setWiring m .storingKind with reload := s.reload.drop m }
    else none
  | .storeKind m =>
    if s.wiring m = .storingKind then
      some { s.setWiring m .storingDraining with
        drain := Function.update s.drain m ((s.drain m).storeKind .graceful) }
    else none
  | .storeDraining m =>
    if s.wiring m = .storingDraining then
      some { s.setWiring m .done with drain := Function.update s.drain m (s.drain m).storeDraining }
    else none
  | .act k a =>
    if s.point = .running then do
      let (cfg,w) ← s.workers[k]?
      let w' ← w.act cfg s.now (s.drain s.iteration) a
      some { s with workers := s.workers.set k (cfg,w') }
    else none
  | .returned =>
    if s.point = .running ∧ s.finished then
      some { s with point := if s.exit then .exited .shutdown else .reading }
    else none

end State

/-- Nothing moves after the process has exited. -/
def step (s : State) (e : Event) : Option State :=
  match s.point with
  | .exited _ => none
  | _ => s.next e

def initial (now : Nat) : State := ⟨now,.reading,0,false,.new,fun _ => .unborn,fun _ => .new,[]⟩

inductive Steps (s : State) : Event → State → Prop where
  | tick : Steps s (.tick ns) { s with now := s.now + ns }
  | hangup : Steps s .hangup { s with reload := s.reload.notifyOne }
  | exit : Steps s .exit { s with exit := true }
  | unreadable (here : s.point = .reading) :
      Steps s (.read (.error e)) { s with point := .exited (.configRead e) }
  | empty (here : s.point = .reading) (none_ : cfg.intoWorkerSpecs = []) :
      Steps s (.read (.ok cfg)) { s with point := .exited .noServices }
  | started (here : s.point = .reading) (some_ : cfg.intoWorkerSpecs ≠ []) :
      Steps s (.read (.ok cfg)) (s.startIteration cfg)
  | park (here : s.wiring m = .selecting) : Steps s (.park m) { s with reload := s.reload.park m }
  | reloadBranch (here : s.wiring m = .selecting) (received : s.reload.receive m = some reload) :
      Steps s (.reloadBranch m) { s.setWiring m .storingKind with reload := reload }
  | exitBranch (here : s.wiring m = .selecting) (exits : s.exit = true) :
      Steps s (.exitBranch m) { s.setWiring m .storingKind with reload := s.reload.drop m }
  | storeKind (here : s.wiring m = .storingKind) : Steps s (.storeKind m)
      { s.setWiring m .storingDraining with
        drain := Function.update s.drain m ((s.drain m).storeKind .graceful) }
  | storeDraining (here : s.wiring m = .storingDraining) : Steps s (.storeDraining m)
      { s.setWiring m .done with drain := Function.update s.drain m (s.drain m).storeDraining }
  | act (here : s.point = .running) (found : s.workers[k]? = some (cfg,w))
      (acts : Supervise.Acts cfg s.now (s.drain s.iteration) w a w') :
      Steps s (.act k a) { s with workers := s.workers.set k (cfg,w') }
  | shutdown (here : s.point = .running) (finished : s.finished = true) (exits : s.exit = true) :
      Steps s .returned { s with point := .exited .shutdown }
  | again (here : s.point = .running) (finished : s.finished = true) (stays : s.exit = false) :
      Steps s .returned { s with point := .reading }

theorem step_steps (s s' : State) (e : Event) (taken : step s e = some s') :
    (∀ why, s.point ≠ .exited why) ∧ Steps s e s' := by
  unfold step at taken
  split at taken
  next => contradiction
  next alive =>
    refine ⟨alive,?_⟩
    cases e with
    | tick ns => obtain rfl := Option.some.inj taken; exact .tick
    | hangup => obtain rfl := Option.some.inj taken; exact .hangup
    | exit => obtain rfl := Option.some.inj taken; exact .exit
    | read result =>
      simp only [State.next] at taken
      split at taken
      next here =>
        obtain rfl := Option.some.inj taken
        cases result with
        | error e => exact .unreadable here
        | ok cfg =>
          simp only [State.read]
          split
          next none_ => exact .empty here (by simpa using none_)
          next some_ => exact .started here (by simpa using some_)
      · contradiction
    | park m =>
      simp only [State.next] at taken
      split at taken
      next here => obtain rfl := Option.some.inj taken; exact .park here
      · contradiction
    | reloadBranch m =>
      simp only [State.next] at taken
      split at taken
      next here =>
        obtain ⟨reload,received,rfl⟩ := Option.map_eq_some_iff.mp taken
        exact .reloadBranch here received
      · contradiction
    | exitBranch m =>
      simp only [State.next] at taken
      split at taken
      next here => obtain rfl := Option.some.inj taken; exact .exitBranch here.1 here.2
      · contradiction
    | storeKind m =>
      simp only [State.next] at taken
      split at taken
      next here => obtain rfl := Option.some.inj taken; exact .storeKind here
      · contradiction
    | storeDraining m =>
      simp only [State.next] at taken
      split at taken
      next here => obtain rfl := Option.some.inj taken; exact .storeDraining here
      · contradiction
    | act k a =>
      simp only [State.next] at taken
      split at taken
      next here =>
        simp only [Option.bind_eq_bind,Option.bind_eq_some_iff] at taken
        obtain ⟨⟨cfg,w⟩,found,w',acted,eq⟩ := taken
        obtain rfl := Option.some.inj eq
        exact .act here found (Supervise.act_acts cfg s.now _ w w' a acted)
      · contradiction
    | returned =>
      simp only [State.next] at taken
      split at taken
      next here =>
        obtain rfl := Option.some.inj taken
        split
        next exits => exact .shutdown here.1 here.2 exits
        next stays => exact .again here.1 here.2 (by simpa using stays)
      · contradiction

end Malkuth.Daemon
