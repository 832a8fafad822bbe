import Malkuth.Fleet
import Malkuth.Lifecycle
import Malkuth.Notify
import Malkuth.SlidingWindow
import Malkuth.Transition
import Mathlib.Algebra.GroupWithZero.Nat

/-! `supervise_one` of `worker.rs` as a machine whose steps are its accesses to what
it shares: the drain bit, the child process, the clock, its two signals and its fleet
entry. `select!` may take any branch that is ready. Child processes are identified by
their pid while they exist, that is until they have been waited for. -/
namespace Malkuth.Supervise

open Malkuth.Fleet Malkuth.Lifecycle Transition

/-- The arguments of `supervise_one`; durations are in nanoseconds. -/
structure Config where
  spec : WorkerSpec
  maxRestarts : Nat
  window : Nat
  cooldown : Nat
  /-- `fleet` is `Some(_)`. -/
  sink : Bool
  u32 : maxRestarts < 2^32

def secs (n : Nat) : Nat := n * 1000000000

/-- `DEFAULT_MAX_RESTARTS`, `DEFAULT_WINDOW` and `DEFAULT_COOLDOWN`, with an operator's
restart signal and no drain signal, as `malkuth_supervise` builds its workers. -/
def api (policy : RestartPolicy) : Config where
  spec := ⟨"api","svc",policy,false,true⟩
  maxRestarts := 5
  window := secs 60
  cooldown := secs 30
  sink := true
  u32 := by decide

inductive Cause where
  | ended
  | operator
  deriving DecidableEq, Repr

inductive Site where
  | spawnFailure
  | ended
  deriving DecidableEq, Repr

/-- Why `stop_draining` runs. -/
inductive Stop where
  | drain
  | restart
  deriving DecidableEq, Repr

inductive Point where
  | entering
  | loopHead
  | spawning
  | publishSpawnFailure
  | publishRunning
  | selecting
  | publishRestarting (cause : Cause)
  | limiting (site : Site)
  | cooling (wakeAt : Nat)
  | publishDraining (graceSecs : Nat)
  | stopping (why : Stop) (deadline : Nat) (killed : Bool)
  | finishing
  | returned (info : WorkerInfo)
  deriving DecidableEq, Repr

/-- The local state of `supervise_one` and the things that only this worker has.
`child` is the `Child` of the current iteration, `children` those not yet reaped. -/
structure Worker where
  point : Point
  restartCount : Nat
  restartTimes : List Nat
  lastError : Option String
  child : Option Nat
  children : List Nat
  restartSignal : Notify Unit
  drainSignal : Notify Unit
  entry : Option FleetEntry

def Worker.initial : Worker := ⟨.entering,0,[],none,none,[],Notify.new,Notify.new,none⟩

inductive Action where
  | register
  | checkDrain
  | spawned (pid : Nat)
  | spawnFailed (error : String)
  /-- The next fleet update, with the readings `running` makes. -/
  | publish (wall : Int) (procStarttime : Option Nat)
  | limit
  | cooldownOver
  | cooldownDrained
  /-- `select!` polls its `Notified` futures and finds nothing. -/
  | park
  | childExit (clean : Bool)
  | waitError (error : String)
  | drainBranch
  | drainSignalBranch
  | restartSignalBranch
  | stopReaped
  | stopWaitError
  | stopTimeout
  deriving DecidableEq, Repr

def shouldRestart (policy : RestartPolicy) (cleanExit : Bool) : Bool :=
  match policy with
  | .permanent => true
  | .transient => !cleanExit
  | .temporary => false

def drainGraceSecs (kind : ShutdownKind) : Nat := if kind = .immediate then 1 else 30

/-- The test of `rate_limited` on the pruned and extended list: `len() as u32`. -/
def tripped (cfg : Config) (times : List Nat) : Bool := decide (cfg.maxRestarts < times.length % 2^32)

def bump (count : Nat) : Nat := (count + 1) % 2^32

def Worker.info (cfg : Config) (w : Worker) : WorkerInfo :=
  ⟨cfg.spec.id,cfg.spec.kind,.stopped,cfg.spec.restartPolicy,w.restartCount,w.lastError⟩

def Worker.update (w : Worker) (f : FleetEntry → FleetEntry) : Worker :=
  { w with entry := w.entry.map f }

/-- The end of a loop iteration drops its `Child`. -/
def Worker.again (w : Worker) : Worker := { w with point := .loopHead, child := none }

def Worker.leave (w : Worker) : Worker := { w with point := .finishing, child := none }

/-- Leaving `select!` drops both `Notified` futures. -/
def Worker.unselect (w : Worker) : Worker :=
  { w with restartSignal := w.restartSignal.drop (), drainSignal := w.drainSignal.drop () }

def Worker.reap (w : Worker) : Worker :=
  { w with children := w.child.elim w.children w.children.erase }

def Worker.stopped (w : Worker) : Stop → Worker
  | .drain => w.leave
  | .restart => w.again

/-- The fleet update at this point and the code up to the next shared access. -/
def Worker.publish (cfg : Config) (now : Nat) (w : Worker) (wall : Int) (procStarttime : Option Nat) :
    Option Worker :=
  match w.point with
  | .publishSpawnFailure =>
    let w := w.update (.finish .stopped w.restartCount w.lastError)
    some (if shouldRestart cfg.spec.restartPolicy false then
      { w with point := .limiting .spawnFailure } else w.leave)
  | .publishRunning =>
    some { w.update (.running w.child procStarttime wall) with point := .selecting }
  | .publishRestarting .ended =>
    some { w.update (.restarting w.restartCount) with point := .limiting .ended }
  | .publishRestarting .operator =>
    some { w.update (.restarting w.restartCount) with point := .stopping .restart (now + secs 30) false }
  | .publishDraining grace =>
    some { w.update .draining with point := .stopping .drain (now + secs (max grace 1)) false }
  | .finishing =>
    some { w.update (.finish .stopped w.restartCount w.lastError) with point := .returned (w.info cfg) }
  | _ => none

/-- `rate_limited` up to its answer, or to its cooldown. -/
def Worker.limit (cfg : Config) (now : Nat) (w : Worker) (site : Site) : Worker :=
  let times := SlidingWindow.push cfg.window now w.restartTimes
  if tripped cfg times then { w with restartTimes := times, point := .cooling (now + cfg.cooldown) }
  else
    match site with
    | .spawnFailure => { w with restartTimes := times, restartCount := bump w.restartCount }.again
    | .ended => { w with restartTimes := times }.again

/-- A child that is over, waited for or not, on the way to its restart. -/
def Worker.restart (w : Worker) (cause : Cause) : Worker :=
  { w with restartCount := bump w.restartCount, point := .publishRestarting cause }

def Worker.act (cfg : Config) (now : Nat) (drain : DrainController) (w : Worker) (a : Action) :
    Option Worker :=
  match a, w.point with
  | .register, .entering =>
    some { w with
      entry := if cfg.sink then some (.register cfg.spec) else w.entry, point := .loopHead }
  | .checkDrain, .loopHead => some (if drain.draining then w.leave else { w with point := .spawning })
  | .spawned pid, .spawning =>
    if pid ∈ w.children then none
    else some { w with child := some pid, children := pid :: w.children, point := .publishRunning }
  | .spawnFailed error, .spawning =>
    some { w with lastError := some ("spawn failed: " ++ error), point := .publishSpawnFailure }
  | .publish wall procStarttime, _ => w.publish cfg now wall procStarttime
  | .limit, .limiting site => some (w.limit cfg now site)
  | .cooldownOver, .cooling wakeAt => if wakeAt ≤ now then some { w with restartTimes := [] }.leave else none
  | .cooldownDrained, .cooling _ => if drain.draining then some { w with restartTimes := [] }.leave else none
  | .park, .selecting =>
    some { w with
      restartSignal := if cfg.spec.restartSignal then w.restartSignal.park () else w.restartSignal
      drainSignal := if cfg.spec.drainSignal then w.drainSignal.park () else w.drainSignal }
  | .childExit clean, .selecting =>
    some (if shouldRestart cfg.spec.restartPolicy clean then w.reap.unselect.restart .ended
      else w.reap.unselect.leave)
  | .waitError error, .selecting =>
    -- the arm that does not ask `should_restart`
    some ({ w with lastError := some ("wait failed: " ++ error) }.unselect.restart .ended)
  | .drainBranch, .selecting =>
    if drain.draining then
      some { w.unselect with point := .publishDraining (drainGraceSecs (drain.kind.getD .graceful)) }
    else none
  | .drainSignalBranch, .selecting =>
    if cfg.spec.drainSignal then
      (w.drainSignal.receive ()).map fun signal =>
        { { w with drainSignal := signal }.unselect with point := .publishDraining 30 }
    else none
  | .restartSignalBranch, .selecting =>
    if cfg.spec.restartSignal then
      (w.restartSignal.receive ()).map fun signal =>
        { w with restartSignal := signal }.unselect.restart .operator
    else none
  | .stopReaped, .stopping why _ _ => some (w.reap.stopped why)
  | .stopWaitError, .stopping why _ _ => some (w.stopped why)
  | .stopTimeout, .stopping why deadline false =>
    if deadline ≤ now then some { w with point := .stopping why deadline true } else none
  | _, _ => none

structure World where
  now : Nat
  drain : DrainController
  worker : Worker

inductive Event where
  | act (a : Action)
  | tick (ns : Nat)
  | storeKind (kind : ShutdownKind)
  | storeDraining
  | notifyRestart
  | notifyDrain
  deriving DecidableEq, Repr

def step (cfg : Config) (s : World) : Event → Option World
  | .act a => (s.worker.act cfg s.now s.drain a).map fun w => { s with worker := w }
  | .tick ns => some { s with now := s.now + ns }
  | .storeKind kind => some { s with drain := s.drain.storeKind kind }
  | .storeDraining => some { s with drain := s.drain.storeDraining }
  | .notifyRestart => some { s with worker := { s.worker with
      restartSignal := s.worker.restartSignal.notifyOne } }
  | .notifyDrain => some { s with worker := { s.worker with
      drainSignal := s.worker.drainSignal.notifyOne } }

def initial (now : Nat) : World := ⟨now,.new,.initial⟩

inductive Acts (cfg : Config) (now : Nat) (drain : DrainController) (w : Worker) :
    Action → Worker → Prop where
  | register (here : w.point = .entering) :
      Acts cfg now drain w .register { w with
        entry := if cfg.sink then some (.register cfg.spec) else w.entry, point := .loopHead }
  | draining (here : w.point = .loopHead) (bit : drain.draining = true) :
      Acts cfg now drain w .checkDrain w.leave
  | proceed (here : w.point = .loopHead) (bit : drain.draining = false) :
      Acts cfg now drain w .checkDrain { w with point := .spawning }
  | spawned (here : w.point = .spawning) (fresh : pid ∉ w.children) :
      Acts cfg now drain w (.spawned pid) { w with
        child := some pid, children := pid :: w.children, point := .publishRunning }
  | spawnFailed (here : w.point = .spawning) :
      Acts cfg now drain w (.spawnFailed error) { w with
        lastError := some ("spawn failed: " ++ error), point := .publishSpawnFailure }
  | spawnRetried (here : w.point = .publishSpawnFailure)
      (retry : shouldRestart cfg.spec.restartPolicy false = true) :
      Acts cfg now drain w (.publish wall start) { w.update (.finish .stopped w.restartCount w.lastError)
        with point := .limiting .spawnFailure }
  | spawnGivenUp (here : w.point = .publishSpawnFailure)
      (never : shouldRestart cfg.spec.restartPolicy false = false) :
      Acts cfg now drain w (.publish wall start)
        (w.update (.finish .stopped w.restartCount w.lastError)).leave
  | running (here : w.point = .publishRunning) :
      Acts cfg now drain w (.publish wall start) { w.update (.running w.child start wall)
        with point := .selecting }
  | endPublished (here : w.point = .publishRestarting .ended) :
      Acts cfg now drain w (.publish wall start) { w.update (.restarting w.restartCount)
        with point := .limiting .ended }
  | restartPublished (here : w.point = .publishRestarting .operator) :
      Acts cfg now drain w (.publish wall start) { w.update (.restarting w.restartCount)
        with point := .stopping .restart (now + secs 30) false }
  | drainPublished (here : w.point = .publishDraining grace) :
      Acts cfg now drain w (.publish wall start) { w.update .draining
        with point := .stopping .drain (now + secs (max grace 1)) false }
  | finished (here : w.point = .finishing) :
      Acts cfg now drain w (.publish wall start) { w.update (.finish .stopped w.restartCount w.lastError)
        with point := .returned (w.info cfg) }
  | tripped (here : w.point = .limiting site)
      (full : tripped cfg (SlidingWindow.push cfg.window now w.restartTimes) = true) :
      Acts cfg now drain w .limit { w with
        restartTimes := SlidingWindow.push cfg.window now w.restartTimes
        point := .cooling (now + cfg.cooldown) }
  | respawned (here : w.point = .limiting .spawnFailure)
      (room : Supervise.tripped cfg (SlidingWindow.push cfg.window now w.restartTimes) = false) :
      Acts cfg now drain w .limit { w with
        restartTimes := SlidingWindow.push cfg.window now w.restartTimes
        restartCount := bump w.restartCount }.again
  | restarted (here : w.point = .limiting .ended)
      (room : Supervise.tripped cfg (SlidingWindow.push cfg.window now w.restartTimes) = false) :
      Acts cfg now drain w .limit { w with
        restartTimes := SlidingWindow.push cfg.window now w.restartTimes }.again
  | cooldownOver (here : w.point = .cooling wakeAt) (late : wakeAt ≤ now) :
      Acts cfg now drain w .cooldownOver { w with restartTimes := [] }.leave
  | cooldownDrained (here : w.point = .cooling wakeAt) (bit : drain.draining = true) :
      Acts cfg now drain w .cooldownDrained { w with restartTimes := [] }.leave
  | park (here : w.point = .selecting) :
      Acts cfg now drain w .park { w with
        restartSignal := if cfg.spec.restartSignal then w.restartSignal.park () else w.restartSignal
        drainSignal := if cfg.spec.drainSignal then w.drainSignal.park () else w.drainSignal }
  | exitRestarted (here : w.point = .selecting)
      (retry : shouldRestart cfg.spec.restartPolicy clean = true) :
      Acts cfg now drain w (.childExit clean) (w.reap.unselect.restart .ended)
  | exitLeft (here : w.point = .selecting)
      (never : shouldRestart cfg.spec.restartPolicy clean = false) :
      Acts cfg now drain w (.childExit clean) w.reap.unselect.leave
  | waitError (here : w.point = .selecting) :
      Acts cfg now drain w (.waitError error)
        ({ w with lastError := some ("wait failed: " ++ error) }.unselect.restart .ended)
  | drainBranch (here : w.point = .selecting) (bit : drain.draining = true) :
      Acts cfg now drain w .drainBranch { w.unselect with
        point := .publishDraining (drainGraceSecs (drain.kind.getD .graceful)) }
  | drainSignalBranch (here : w.point = .selecting) (wired : cfg.spec.drainSignal = true)
      (received : w.drainSignal.receive () = some signal) :
      Acts cfg now drain w .drainSignalBranch
        { { w with drainSignal := signal }.unselect with point := .publishDraining 30 }
  | restartSignalBranch (here : w.point = .selecting) (wired : cfg.spec.restartSignal = true)
      (received : w.restartSignal.receive () = some signal) :
      Acts cfg now drain w .restartSignalBranch
        ({ w with restartSignal := signal }.unselect.restart .operator)
  | stopReaped (here : w.point = .stopping why deadline killed) :
      Acts cfg now drain w .stopReaped (w.reap.stopped why)
  | stopWaitError (here : w.point = .stopping why deadline killed) :
      Acts cfg now drain w .stopWaitError (w.stopped why)
  | stopTimeout (here : w.point = .stopping why deadline false) (late : deadline ≤ now) :
      Acts cfg now drain w .stopTimeout { w with point := .stopping why deadline true }

theorem publish_acts (cfg : Config) (now : Nat) (drain : DrainController) (w w' : Worker)
    (wall : Int) (start : Option Nat) (taken : w.publish cfg now wall start = some w') :
    Acts cfg now drain w (.publish wall start) w' := by
  unfold Worker.publish at taken
  split at taken
  next here =>
    obtain rfl := Option.some.inj taken
    by_cases retry : shouldRestart cfg.spec.restartPolicy false = true
    · simpa [retry] using Acts.spawnRetried here retry
    · simpa [retry] using Acts.spawnGivenUp here (by simpa using retry)
  next here => obtain rfl := Option.some.inj taken; exact .running here
  next here => obtain rfl := Option.some.inj taken; exact .endPublished here
  next here => obtain rfl := Option.some.inj taken; exact .restartPublished here
  next here => obtain rfl := Option.some.inj taken; exact .drainPublished here
  next here => obtain rfl := Option.some.inj taken; exact .finished here
  next => contradiction

theorem limit_acts (cfg : Config) (now : Nat) (drain : DrainController) (w : Worker) (site : Site)
    (here : w.point = .limiting site) : Acts cfg now drain w .limit (w.limit cfg now site) := by
  unfold Worker.limit
  by_cases full : tripped cfg (SlidingWindow.push cfg.window now w.restartTimes) = true
  · simpa [full] using Acts.tripped here full
  · cases site with
    | spawnFailure => simpa [full] using Acts.respawned here (by simpa using full)
    | ended => simpa [full] using Acts.restarted here (by simpa using full)

theorem act_acts (cfg : Config) (now : Nat) (drain : DrainController) (w w' : Worker) (a : Action)
    (taken : w.act cfg now drain a = some w') : Acts cfg now drain w a w' := by
  unfold Worker.act at taken
  split at taken
  next here => obtain rfl := Option.some.inj taken; exact .register here
  next here =>
    obtain rfl := Option.some.inj taken
    by_cases bit : drain.draining = true
    · simpa [bit] using Acts.draining here bit
    · simpa [bit] using Acts.proceed here (by simpa using bit)
  next here =>
    split at taken
    · contradiction
    next fresh => obtain rfl := Option.some.inj taken; exact .spawned here fresh
  next here => obtain rfl := Option.some.inj taken; exact .spawnFailed here
  next => exact publish_acts cfg now drain w w' _ _ taken
  next site here => obtain rfl := Option.some.inj taken; exact limit_acts cfg now drain w site here
  next here =>
    split at taken
    next late => obtain rfl := Option.some.inj taken; exact .cooldownOver here late
    · contradiction
  next here =>
    split at taken
    next bit => obtain rfl := Option.some.inj taken; exact .cooldownDrained here bit
    · contradiction
  next here => obtain rfl := Option.some.inj taken; exact .park here
  next clean here =>
    obtain rfl := Option.some.inj taken
    by_cases retry : shouldRestart cfg.spec.restartPolicy clean = true
    · simpa [retry] using Acts.exitRestarted here retry
    · simpa [retry] using Acts.exitLeft here (by simpa using retry)
  next here => obtain rfl := Option.some.inj taken; exact .waitError here
  next here =>
    split at taken
    next bit => obtain rfl := Option.some.inj taken; exact .drainBranch here bit
    · contradiction
  next here =>
    split at taken
    next wired =>
      obtain ⟨signal,received,rfl⟩ := Option.map_eq_some_iff.mp taken
      exact .drainSignalBranch here wired received
    · contradiction
  next here =>
    split at taken
    next wired =>
      obtain ⟨signal,received,rfl⟩ := Option.map_eq_some_iff.mp taken
      exact .restartSignalBranch here wired received
    · contradiction
  next here => obtain rfl := Option.some.inj taken; exact .stopReaped here
  next here => obtain rfl := Option.some.inj taken; exact .stopWaitError here
  next here =>
    split at taken
    next late => obtain rfl := Option.some.inj taken; exact .stopTimeout here late
    · contradiction
  next => contradiction

/-- A step of the surrounding process: it reaches the worker only through its signals. -/
structure Outside (e : Event) (s s' : World) : Prop where
  foreign : ∀ a, e ≠ .act a
  now : s.now ≤ s'.now
  draining : s'.drain.draining = true ↔ s.drain.draining = true ∨ e = .storeDraining
  worker : s'.worker = { s.worker with
    restartSignal := s'.worker.restartSignal, drainSignal := s'.worker.drainSignal }
  restartSignal : s'.worker.restartSignal =
    if e = .notifyRestart then s.worker.restartSignal.notifyOne else s.worker.restartSignal
  drainSignal : s'.worker.drainSignal =
    if e = .notifyDrain then s.worker.drainSignal.notifyOne else s.worker.drainSignal

theorem step_cases (cfg : Config) (s s' : World) (e : Event) (taken : step cfg s e = some s') :
    (∃ a w, e = .act a ∧ Acts cfg s.now s.drain s.worker a w ∧ s' = { s with worker := w }) ∨
    Outside e s s' := by
  cases e with
  | act a =>
    obtain ⟨w,acted,rfl⟩ := Option.map_eq_some_iff.mp taken
    exact .inl ⟨a,w,rfl,act_acts cfg s.now s.drain s.worker w a acted,rfl⟩
  | tick ns =>
    obtain rfl := Option.some.inj taken
    exact .inr ⟨by simp,Nat.le_add_right ..,by simp,rfl,by simp,by simp⟩
  | storeKind kind =>
    obtain rfl := Option.some.inj taken
    exact .inr ⟨by simp,Nat.le_refl _,by simp [DrainController.storeKind],rfl,by simp,by simp⟩
  | storeDraining =>
    obtain rfl := Option.some.inj taken
    exact .inr ⟨by simp,Nat.le_refl _,by simp [DrainController.storeDraining],rfl,by simp,by simp⟩
  | notifyRestart =>
    obtain rfl := Option.some.inj taken
    exact .inr ⟨by simp,Nat.le_refl _,by simp,rfl,by simp,by simp⟩
  | notifyDrain =>
    obtain rfl := Option.some.inj taken
    exact .inr ⟨by simp,Nat.le_refl _,by simp,rfl,by simp,by simp⟩

/-- Points between an operator restart and the next loop head. -/
def Point.Operator : Point → Prop
  | .publishRestarting .operator | .stopping .restart _ _ => True
  | _ => False

theorem Outside.point (outside : Outside e s s') : s'.worker.point = s.worker.point := by
  rw [outside.worker]

theorem Outside.restartTimes (outside : Outside e s s') :
    s'.worker.restartTimes = s.worker.restartTimes := by
  rw [outside.worker]

attribute [simp] Worker.again Worker.leave Worker.update Worker.unselect Worker.restart Worker.reap

end Malkuth.Supervise
