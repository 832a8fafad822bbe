import Malkuth.Notify
import Malkuth.Proxy
import Mathlib.Data.List.AList

/-! The pod pool of `pool.rs`: one `supervise` task for every pod, the registry `meta` they
share behind a lock, and the proxy the registry is published to. A sleep, a timeout or a
probe may end whenever its task is at it, so every schedule of the clock is covered. -/
namespace Malkuth.Pool

open Transition Proxy

structure PodMeta where
  port : UInt16
  deriving DecidableEq, Repr

/-- What stays the same while the pool runs. `hostIp` is the parsed `host`, or 127.0.0.1
when it does not parse; `ports` are the entries of the map from id to backend port. -/
structure PodManager where
  hostIp : IpAddr
  ports : List (Nat × UInt16)
  deriving DecidableEq, Repr

/-- The entries of a map, in the order of one iteration over it. -/
abbrev Entries := List (Sigma fun _ : Nat => PodMeta)

def backendsFrom (hostIp : IpAddr) (entries : Entries) : List Backend :=
  entries.map fun e => ⟨.new hostIp e.2.port,"pod-" ++ toString e.1⟩

/-- The two updates of the registry after which `publish_backends` is called. -/
inductive Update where
  | registered
  | deregistered
  deriving DecidableEq, Repr

inductive Point where
  | spawning
  /-- The second after a failed spawn. -/
  | retrying
  | waitReady
  /-- The two `select!`s of the loop that goes on probing after the initial window. -/
  | probing
  | pausing
  | registering
  /-- `publish_backends`, before and after it has taken the lock of `meta`. -/
  | publishing (update : Update)
  | setting (update : Update) (backends : List Backend)
  /-- The `select!` of the child's exit and the restart trigger. -/
  | selecting
  | stopDraining (killed : Bool)
  | deregistering
  | resting
  deriving DecidableEq, Repr

structure Pod where
  point : Point
  child : Option Nat
  restart : Notify Unit
  deriving DecidableEq, Repr

def Pod.initial : Pod := ⟨.spawning,none,.new⟩

inductive Action where
  | spawned (pid : Nat)
  | spawnFailed
  | retry
  /-- The answer of `wait_ready`. -/
  | ready (ready : Bool)
  /-- A poll of a `select!` that finds no permit. -/
  | park
  | restartBranch
  /-- The answer of `probe_ready`. -/
  | probed (ready : Bool)
  | paused
  /-- `child.wait()` returns, whatever it returns. -/
  | exited
  | register
  /-- `publish_backends` takes the lock and iterates over `meta` in this order. -/
  | lock (order : Entries)
  | setBackends
  | drainTimeout
  | drained
  | deregister
  | rested
  deriving DecidableEq

/-- Leaving a `select!` by another branch drops its `Notified`. -/
def Pod.unselect (p : Pod) (point : Point) : Pod := { p with restart := p.restart.drop (), point := point }

/-- A `biased` select polls the trigger first: another branch is taken only after that
poll found nothing. -/
def Pod.polled (p : Pod) : Bool := p.restart.waiting.contains () || p.restart.signalled.contains ()

def Pod.act (port : UInt16) (p : Pod) (a : Action) : Option Pod :=
  match a, p.point with
  | .spawned pid, .spawning =>
    some { p with child := some pid, point := if port = 0 then .selecting else .waitReady }
  | .spawnFailed, .spawning => some { p with point := .retrying }
  | .retry, .retrying => some { p with point := .spawning }
  | .ready ready, .waitReady => some { p with point := if ready then .registering else .probing }
  | .park, .probing | .park, .pausing | .park, .selecting => some { p with restart := p.restart.park () }
  | .restartBranch, .probing | .restartBranch, .pausing | .restartBranch, .selecting =>
    (p.restart.receive ()).map fun restart => { p with restart := restart, point := .stopDraining false }
  | .probed ready, .probing =>
    if p.polled then some (p.unselect (if ready then .registering else .pausing)) else none
  | .paused, .pausing => if p.polled then some (p.unselect .probing) else none
  | .exited, .probing | .exited, .pausing =>
    if p.polled then some (p.unselect .deregistering) else none
  | .exited, .selecting => some (p.unselect .deregistering)
  | .drainTimeout, .stopDraining false => some { p with point := .stopDraining true }
  | .drained, .stopDraining _ => some { p with point := .deregistering }
  -- the end of the loop body drops the child, which `kill_on_drop` kills if it must
  | .rested, .resting => some { p with point := .spawning, child := none }
  | _, _ => none

/-- `lock` is the pod whose `publish_backends` holds the lock of `meta`. -/
structure State where
  pods : Nat → Pod
  metaMap : AList fun _ : Nat => PodMeta
  lock : Option Nat
  proxy : Option Clocked

def Point.published : Update → Point
  | .registered => .selecting
  | .deregistered => .resting

namespace State

def setPod (s : State) (id : Nat) (p : Pod) : State := { s with pods := Function.update s.pods id p }

/-- Without a proxy `publish_backends` does nothing. -/
def publish (s : State) (update : Update) : Point :=
  if s.proxy.isSome then .publishing update else .published update

def act (mgr : PodManager) (by_ : UnstableSort) (s : State) (id : Nat) (port : UInt16) (a : Action) :
    Option State :=
  let p := s.pods id
  match a, p.point with
  | .register, .registering =>
    if s.lock = none then
      some { s.setPod id { p with point := s.publish .registered } with
        metaMap := s.metaMap.insert id ⟨port⟩ }
    else none
  | .deregister, .deregistering =>
    if s.lock = none then
      some { s.setPod id { p with point := s.publish .deregistered } with metaMap := s.metaMap.erase id }
    else none
  | .lock order, .publishing update =>
    if s.lock = none ∧ order.Perm s.metaMap.entries then
      some { s.setPod id { p with point := .setting update (backendsFrom mgr.hostIp order) } with
        lock := some id }
    else none
  | .setBackends, .setting update backends =>
    some { s.setPod id { p with point := .published update } with
      proxy := s.proxy.map fun c => { c with state := c.state.setBackends by_ backends }
      lock := none }
  | _, _ => (p.act port a).map (s.setPod id)

end State

inductive Event where
  | restartOne (id : Nat)
  | act (id : Nat) (a : Action)
  /-- A client's `pick` or `invalidate`. -/
  | client (call : Proxy.Event)

def step (mgr : PodManager) (by_ : UnstableSort) (s : State) : Event → Option State
  | .restartOne id =>
    let p := s.pods id
    some (if (mgr.ports.lookup id).isSome then s.setPod id { p with restart := p.restart.notifyOne } else s)
  | .act id a => do
    let port ← mgr.ports.lookup id
    s.act mgr by_ id port a
  | .client (.setBackends _) => none
  | .client call => do
    let c ← s.proxy
    let c' ← Proxy.step by_ c call
    some { s with proxy := some c' }

def initial (proxy : Option Clocked) : State := ⟨fun _ => .initial,∅,none,proxy⟩

/-- What is true of a pod stays true of it when one pod is set, if that one has it. -/
theorem setPod_pods {P : Pod → Prop} {s : State} (before : P (s.pods pod)) (own : i = pod → P p) :
    P ((s.setPod i p).pods pod) :=
  update_holds P before own

theorem setPod_point {s : State} (here : ((s.setPod i p).pods j).point = point) :
    (i = j ∧ p.point = point) ∨ (i ≠ j ∧ (s.pods j).point = point) := by
  rcases update_cases (fun p : Pod => p.point = point) here with ⟨rfl,own⟩ | ⟨different,there⟩
  · exact .inl ⟨rfl,own⟩
  · exact .inr ⟨Ne.symm different,there⟩

/-- The points at a `select!`. -/
def Point.Selects : Point → Prop
  | .probing | .pausing | .selecting => True
  | _ => False

inductive Pod.Acts (port : UInt16) (p : Pod) : Action → Pod → Prop where
  | spawned (here : p.point = .spawning) : Acts port p (.spawned pid)
      { p with child := some pid, point := if port = 0 then .selecting else .waitReady }
  | spawnFailed (here : p.point = .spawning) : Acts port p .spawnFailed { p with point := .retrying }
  | retry (here : p.point = .retrying) : Acts port p .retry { p with point := .spawning }
  | ready (here : p.point = .waitReady) : Acts port p (.ready ready)
      { p with point := if ready then .registering else .probing }
  | park (here : p.point.Selects) : Acts port p .park { p with restart := p.restart.park () }
  | restartBranch (here : p.point.Selects) (received : p.restart.receive () = some spent) :
      Acts port p .restartBranch { p with restart := spent, point := .stopDraining false }
  | probed (here : p.point = .probing) (polled : p.polled = true) : Acts port p (.probed ready)
      (p.unselect (if ready then .registering else .pausing))
  | paused (here : p.point = .pausing) (polled : p.polled = true) : Acts port p .paused
      (p.unselect .probing)
  | exited (here : p.point.Selects) (polled : p.point = .selecting ∨ p.polled = true) :
      Acts port p .exited (p.unselect .deregistering)
  | drainTimeout (here : p.point = .stopDraining false) : Acts port p .drainTimeout
      { p with point := .stopDraining true }
  | drained (here : p.point = .stopDraining killed) : Acts port p .drained
      { p with point := .deregistering }
  | rested (here : p.point = .resting) : Acts port p .rested
      { p with point := .spawning, child := none }

theorem Pod.act_acts (port : UInt16) (p p' : Pod) (a : Action) (taken : p.act port a = some p') :
    p.Acts port a p' := by
  unfold Pod.act at taken
  split at taken
  next here => obtain rfl := Option.some.inj taken; exact .spawned here
  next here => obtain rfl := Option.some.inj taken; exact .spawnFailed here
  next here => obtain rfl := Option.some.inj taken; exact .retry here
  next here => obtain rfl := Option.some.inj taken; exact .ready here
  iterate 3
    next here => obtain rfl := Option.some.inj taken; exact .park (by simp [Point.Selects,here])
  iterate 3
    next here =>
      obtain ⟨spent,received,rfl⟩ := Option.map_eq_some_iff.mp taken
      exact .restartBranch (by simp [Point.Selects,here]) received
  next here =>
    split at taken
    next polled => obtain rfl := Option.some.inj taken; exact .probed here polled
    · contradiction
  next here =>
    split at taken
    next polled => obtain rfl := Option.some.inj taken; exact .paused here polled
    · contradiction
  iterate 2
    next here =>
      split at taken
      next polled =>
        obtain rfl := Option.some.inj taken
        exact .exited (by simp [Point.Selects,here]) (.inr polled)
      · contradiction
  next here =>
    obtain rfl := Option.some.inj taken
    exact .exited (by simp [Point.Selects,here]) (.inl here)
  next here => obtain rfl := Option.some.inj taken; exact .drainTimeout here
  next here => obtain rfl := Option.some.inj taken; exact .drained here
  next here => obtain rfl := Option.some.inj taken; exact .rested here
  next => contradiction

inductive Steps (mgr : PodManager) (by_ : UnstableSort) (s : State) : Event → State → Prop where
  | requested (known : mgr.ports.lookup pod = some port) : Steps mgr by_ s (.restartOne pod)
      (s.setPod pod { s.pods pod with restart := (s.pods pod).restart.notifyOne })
  | nobody (unknown : mgr.ports.lookup pod = none) : Steps mgr by_ s (.restartOne pod) s
  | acts (known : mgr.ports.lookup pod = some port) (acts : (s.pods pod).Acts port a p) :
      Steps mgr by_ s (.act pod a) (s.setPod pod p)
  | register (known : mgr.ports.lookup pod = some port) (here : (s.pods pod).point = .registering)
      (free : s.lock = none) : Steps mgr by_ s (.act pod .register)
        { s.setPod pod { s.pods pod with point := s.publish .registered } with
          metaMap := s.metaMap.insert pod ⟨port⟩ }
  | deregister (known : mgr.ports.lookup pod = some port) (here : (s.pods pod).point = .deregistering)
      (free : s.lock = none) : Steps mgr by_ s (.act pod .deregister)
        { s.setPod pod { s.pods pod with point := s.publish .deregistered } with
          metaMap := s.metaMap.erase pod }
  | lock (known : mgr.ports.lookup pod = some port) (here : (s.pods pod).point = .publishing update)
      (free : s.lock = none) (perm : order.Perm s.metaMap.entries) : Steps mgr by_ s (.act pod (.lock order))
        { s.setPod pod { s.pods pod with point := .setting update (backendsFrom mgr.hostIp order) } with
          lock := some pod }
  | setBackends (known : mgr.ports.lookup pod = some port)
      (here : (s.pods pod).point = .setting update backends) : Steps mgr by_ s (.act pod .setBackends)
        { s.setPod pod { s.pods pod with point := .published update } with
          proxy := s.proxy.map fun c => { c with state := c.state.setBackends by_ backends }
          lock := none }
  | client (present : s.proxy = some c) (foreign : ∀ backends, call ≠ .setBackends backends)
      (taken : Proxy.step by_ c call = some c') :
      Steps mgr by_ s (.client call) { s with proxy := some c' }

theorem act_steps (mgr : PodManager) (by_ : UnstableSort) (s s' : State) (id : Nat) (port : UInt16)
    (a : Action) (known : mgr.ports.lookup id = some port) (taken : s.act mgr by_ id port a = some s') :
    Steps mgr by_ s (.act id a) s' := by
  unfold State.act at taken
  simp only at taken
  split at taken
  next here =>
    split at taken
    next free => obtain rfl := Option.some.inj taken; exact .register known here free
    · contradiction
  next here =>
    split at taken
    next free => obtain rfl := Option.some.inj taken; exact .deregister known here free
    · contradiction
  next here =>
    split at taken
    next open_ => obtain rfl := Option.some.inj taken; exact .lock known here open_.1 open_.2
    · contradiction
  next here => obtain rfl := Option.some.inj taken; exact .setBackends known here
  next =>
    obtain ⟨p,acted,rfl⟩ := Option.map_eq_some_iff.mp taken
    exact .acts known (Pod.act_acts port _ p _ acted)

theorem step_steps (mgr : PodManager) (by_ : UnstableSort) (s s' : State) (e : Event)
    (taken : step mgr by_ s e = some s') : Steps mgr by_ s e s' := by
  cases e with
  | restartOne id =>
    obtain rfl := Option.some.inj taken
    cases known : mgr.ports.lookup id with
    | none => exact .nobody known
    | some port => exact .requested known
  | act id a =>
    simp only [step,Option.bind_eq_bind,Option.bind_eq_some_iff] at taken
    obtain ⟨port,known,acted⟩ := taken
    exact act_steps mgr by_ s s' id port a known acted
  | client call =>
    cases call with
    | setBackends => contradiction
    | pick | invalidate =>
      simp only [step,Option.bind_eq_bind,Option.bind_eq_some_iff] at taken
      obtain ⟨c,present,c',called,eq⟩ := taken
      obtain rfl := Option.some.inj eq
      exact .client present (by simp) called

def Pod.Unborn (p : Pod) : Prop := p.point = .spawning ∧ p.child = none

/-- An id without a port has no task. -/
theorem step_unborn (unknown : mgr.ports.lookup pod = none) (steps : Steps mgr by_ s e s')
    (unborn : (s.pods pod).Unborn) : (s'.pods pod).Unborn := by
  cases steps with
  | requested =>
    apply setPod_pods unborn
    rintro rfl
    exact unborn
  | nobody | client => exact unborn
  | acts known | register known | deregister known | lock known | setBackends known =>
    apply setPod_pods unborn
    rintro rfl
    rw [unknown] at known
    contradiction

theorem run_unborn (unknown : mgr.ports.lookup pod = none) (run : Run (step mgr by_) (initial proxy) past s) :
    (s.pods pod).Unborn :=
  run.always (P := fun s => (s.pods pod).Unborn) ⟨rfl,rfl⟩ fun s e s' unborn taken =>
    step_unborn unknown (step_steps mgr by_ s s' e taken) unborn

end Malkuth.Pool
