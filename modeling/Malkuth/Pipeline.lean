import Malkuth.Proxy
import Mathlib.Data.List.AList

/-! The deploy pipeline: the poller of `--watch-remote` and the loop of `bin/malkuth.rs`
that consumes its triggers and those of the file watcher. They share nothing but a channel
of sixteen places. What the loop reads from outside (the pause file, the build lock, the
watched files, how a command ended) comes with its steps. -/
namespace Malkuth.Pipeline

open Transition Proxy

inductive Trigger where
  | files (paths : List String)
  | remote (sha : String)
  deriving DecidableEq, Repr

structure BuildStage where
  name : Option String
  cmd : String
  deriving DecidableEq, Repr

inductive StageFailure where
  | exit (status : String)
  | spawn (error : String)
  deriving DecidableEq, Repr

def StageFailure.display : StageFailure → String
  | .exit s => "exit " ++ s
  | .spawn s => "spawn error: " ++ s

inductive LockOutcome where
  | acquired
  | busy
  | disabled
  deriving DecidableEq, Repr

structure FailureBackoff where
  base : Nat
  cap : Nat
  consecutive : Nat
  blockedUntil : Option Nat
  deriving DecidableEq, Repr

namespace FailureBackoff

def durationMax : Nat := 2^64 * 1000000000 - 1

def new : FailureBackoff := ⟨30 * 1000000000,15 * 60 * 1000000000,0,none⟩

def recordFailure (now : Nat) (b : FailureBackoff) : Nat × FailureBackoff :=
  let consecutive := min (b.consecutive + 1) (2^32 - 1)
  let shift := min (consecutive - 1) 16
  let delay := min (min (b.base * 2^shift) durationMax) b.cap
  (delay,{ b with
    consecutive := consecutive
    blockedUntil := if now + delay < instantLimit then some (now + delay) else none })

def recordSuccess (b : FailureBackoff) : FailureBackoff := { b with consecutive := 0, blockedUntil := none }

def isBlocked (now : Nat) (b : FailureBackoff) : Bool := b.blockedUntil.any fun until_ => decide (now < until_)

end FailureBackoff

/-- The options of the command line the pipeline reads. `binaryPath` is normalized. -/
structure Config where
  stages : List BuildStage
  install : Option String
  watch : List String
  watchRemote : Option String
  pauseFile : Option String
  buildLock : Option String
  binaryPath : Option String
  podCount : Nat

def Config.pods (cfg : Config) : Nat := max cfg.podCount 1

/-- Without any of these the loop is not started. -/
def Config.consumes (cfg : Config) : Bool := !cfg.stages.isEmpty || cfg.install.isSome || !cfg.watch.isEmpty

abbrev Mtimes := AList fun _ : String => Int

def mtimesChanged (before after : Mtimes) : Bool :=
  before.entries.length != after.entries.length ||
    before.entries.any fun e => after.lookup e.1 != some e.2

structure Readings where
  paused : Bool
  lock : LockOutcome
  normalizePath : String → String
  before : Mtimes

def binaryChanged (cfg : Config) (normalizePath : String → String) : Trigger → Bool
  | .files paths => cfg.binaryPath.any fun binary => paths.any fun p => normalizePath p == binary
  | .remote _ => false

structure Job where
  trigger : Trigger
  binaryChanged : Bool
  before : Mtimes
  deriving DecidableEq

inductive Point where
  | receiving
  | guarding (trigger : Trigger)
  | staging (job : Job) (stage : BuildStage) (rest : List BuildStage)
  | installing (job : Job)
  | finishing (job : Job) (failure : Option String)
  | restarting
  deriving DecidableEq

structure Consumer where
  point : Point
  backoff : FailureBackoff
  nextPod : Nat

/-- The next command of a job: the stages in order, then the install hook. -/
def Point.run (cfg : Config) (job : Job) : List BuildStage → Point
  | stage :: rest => .staging job stage rest
  | [] => if cfg.install.isSome then .installing job else .finishing job none

/-- A present pause file, a backoff window or a busy build lock: the trigger is skipped. -/
def Consumer.skips (cfg : Config) (now : Nat) (c : Consumer) (r : Readings) : Bool :=
  if cfg.pauseFile.isSome && r.paused then true
  else if c.backoff.isBlocked now then true
  else cfg.buildLock.isSome && r.lock == .busy

def Consumer.finish (cfg : Config) (now : Nat) (c : Consumer) (job : Job) (failure : Option String)
    (after : Mtimes) : Consumer :=
  match failure with
  | some _ => { c with
      backoff := (c.backoff.recordFailure now).2
      point := if job.binaryChanged then .restarting else .receiving }
  | none => { c with
      backoff := c.backoff.recordSuccess
      point :=
        if mtimesChanged job.before after then .restarting
        else if job.binaryChanged then .restarting
        else if !cfg.stages.isEmpty || cfg.install.isSome then .receiving
        else .restarting }

/-- The points of `spawn_remote_poller`; `updating` is between the send and the new
baseline. -/
inductive Polling where
  | probing
  | sending (sha : String)
  | updating (sha : String)
  | sleeping
  deriving DecidableEq, Repr

structure Poller where
  baseline : Option String
  point : Polling
  deriving DecidableEq, Repr

def capacity : Nat := 16

structure Machine where
  now : Nat
  queue : List Trigger
  poller : Poller
  consumer : Consumer

inductive Event where
  | tick (ns : Nat)
  /-- The answer of `probe_remote`. -/
  | probe (result : Except String String)
  | send
  | update
  | wake
  /-- The watcher's trigger is sent. -/
  | files (paths : List String)
  | recv
  | guard (readings : Readings)
  /-- How a stage or the install hook ended. -/
  | ran (result : Except StageFailure Unit)
  | finish (after : Mtimes)
  | restartOne (id : Nat)

def Poller.probe (p : Poller) : Except String String → Poller
  | .error _ => { p with point := .sleeping }
  | .ok sha =>
    match p.baseline with
    | some prev => if prev ≠ sha then { p with point := .sending sha } else ⟨some sha,.sleeping⟩
    | none => ⟨some sha,.sleeping⟩

def step (cfg : Config) (s : Machine) (e : Event) : Option Machine :=
  let c := s.consumer
  match e with
  | .tick ns => some { s with now := s.now + ns }
  | .probe result =>
    if cfg.watchRemote.isSome ∧ s.poller.point = .probing then
      some { s with poller := s.poller.probe result }
    else none
  | .send =>
    match s.poller.point with
    | .sending sha =>
      if s.queue.length < capacity then
        some { s with queue := s.queue ++ [.remote sha], poller := { s.poller with point := .updating sha } }
      else none
    | _ => none
  | .update =>
    match s.poller.point with
    | .updating sha => some { s with poller := ⟨some sha,.sleeping⟩ }
    | _ => none
  | .wake => if s.poller.point = .sleeping then some { s with poller := { s.poller with point := .probing } } else none
  | .files paths =>
    if cfg.watch ≠ [] ∧ s.queue.length < capacity then some { s with queue := s.queue ++ [.files paths] } else none
  | .recv =>
    match c.point, s.queue with
    | .receiving, trigger :: queue =>
      if cfg.consumes then some { s with queue := queue, consumer := { c with point := .guarding trigger } } else none
    | _, _ => none
  | .guard r =>
    match c.point with
    | .guarding trigger =>
      let job : Job := ⟨trigger,binaryChanged cfg r.normalizePath trigger,r.before⟩
      some { s with consumer := { c with
        point := if c.skips cfg s.now r then .receiving else .run cfg job cfg.stages } }
    | _ => none
  | .ran result =>
    match c.point, result with
    | .staging job _ rest, .ok _ => some { s with consumer := { c with point := .run cfg job rest } }
    | .staging job _ _, .error e =>
      some { s with consumer := { c with point := .finishing job (some ("stage: " ++ e.display)) } }
    | .installing job, .ok _ => some { s with consumer := { c with point := .finishing job none } }
    | .installing job, .error e =>
      some { s with consumer := { c with point := .finishing job (some ("install: " ++ e.display)) } }
    | _, _ => none
  | .finish after =>
    match c.point with
    | .finishing job failure => some { s with consumer := c.finish cfg s.now job failure after }
    | _ => none
  | .restartOne id =>
    match c.point with
    | .restarting =>
      if id = c.nextPod % cfg.pods then
        some { s with consumer := { c with nextPod := (c.nextPod + 1) % 2^64, point := .receiving } }
      else none
    | _ => none

def initial (now : Nat) : Machine := ⟨now,[],⟨none,.probing⟩,⟨.receiving,.new,0⟩⟩

/-- The loop at another point, all else as it was. -/
def Machine.goto (s : Machine) (point : Point) : Machine := { s with consumer := { s.consumer with point := point } }

def Readings.job (cfg : Config) (r : Readings) (trigger : Trigger) : Job :=
  ⟨trigger,Pipeline.binaryChanged cfg r.normalizePath trigger,r.before⟩

inductive Steps (cfg : Config) (s : Machine) : Event → Machine → Prop where
  | tick : Steps cfg s (.tick ns) { s with now := s.now + ns }
  | probed (here : s.poller.point = .probing) : Steps cfg s (.probe result)
      { s with poller := s.poller.probe result }
  | sent (here : s.poller.point = .sending sha) (room : s.queue.length < capacity) : Steps cfg s .send
      { s with queue := s.queue ++ [.remote sha], poller := { s.poller with point := .updating sha } }
  | updated (here : s.poller.point = .updating sha) : Steps cfg s .update { s with poller := ⟨some sha,.sleeping⟩ }
  | woke (here : s.poller.point = .sleeping) : Steps cfg s .wake
      { s with poller := { s.poller with point := .probing } }
  | files (room : s.queue.length < capacity) : Steps cfg s (.files paths)
      { s with queue := s.queue ++ [.files paths] }
  | received (here : s.consumer.point = .receiving) (queued : s.queue = trigger :: queue) :
      Steps cfg s .recv { s.goto (.guarding trigger) with queue := queue }
  | skipped (here : s.consumer.point = .guarding trigger) (skips : s.consumer.skips cfg s.now r = true) :
      Steps cfg s (.guard r) (s.goto .receiving)
  | started (here : s.consumer.point = .guarding trigger) (passes : s.consumer.skips cfg s.now r = false) :
      Steps cfg s (.guard r) (s.goto (.run cfg (r.job cfg trigger) cfg.stages))
  | staged (here : s.consumer.point = .staging job stage rest) :
      Steps cfg s (.ran (.ok ())) (s.goto (.run cfg job rest))
  | stageFailed (here : s.consumer.point = .staging job stage rest) :
      Steps cfg s (.ran (.error e)) (s.goto (.finishing job (some ("stage: " ++ e.display))))
  | installed (here : s.consumer.point = .installing job) :
      Steps cfg s (.ran (.ok ())) (s.goto (.finishing job none))
  | installFailed (here : s.consumer.point = .installing job) :
      Steps cfg s (.ran (.error e)) (s.goto (.finishing job (some ("install: " ++ e.display))))
  | finished (here : s.consumer.point = .finishing job why) : Steps cfg s (.finish after)
      { s with consumer := s.consumer.finish cfg s.now job why after }
  | restarted (here : s.consumer.point = .restarting) : Steps cfg s (.restartOne (s.consumer.nextPod % cfg.pods))
      { s with consumer := { s.consumer with nextPod := (s.consumer.nextPod + 1) % 2^64, point := .receiving } }

theorem step_steps (cfg : Config) (s s' : Machine) (e : Event) (taken : step cfg s e = some s') :
    Steps cfg s e s' := by
  cases e with
  | tick ns => obtain rfl := Option.some.inj taken; exact .tick
  | probe result =>
    simp only [step] at taken
    split at taken
    next open_ => obtain rfl := Option.some.inj taken; exact .probed open_.2
    · contradiction
  | send =>
    simp only [step] at taken
    split at taken
    next here =>
      split at taken
      next room => obtain rfl := Option.some.inj taken; exact .sent here room
      · contradiction
    · contradiction
  | update =>
    simp only [step] at taken
    split at taken
    next here => obtain rfl := Option.some.inj taken; exact .updated here
    · contradiction
  | wake =>
    simp only [step] at taken
    split at taken
    next here => obtain rfl := Option.some.inj taken; exact .woke here
    · contradiction
  | files paths =>
    simp only [step] at taken
    split at taken
    next open_ => obtain rfl := Option.some.inj taken; exact .files open_.2
    · contradiction
  | recv =>
    simp only [step] at taken
    split at taken
    next here queued =>
      split at taken
      · obtain rfl := Option.some.inj taken; exact .received here queued
      · contradiction
    · contradiction
  | guard r =>
    simp only [step] at taken
    split at taken
    next here =>
      obtain rfl := Option.some.inj taken
      cases skips : s.consumer.skips cfg s.now r with
      | true => exact .skipped here skips
      | false => exact .started here skips
    · contradiction
  | ran result =>
    simp only [step] at taken
    split at taken
    next here => obtain rfl := Option.some.inj taken; exact .staged here
    next here => obtain rfl := Option.some.inj taken; exact .stageFailed here
    next here => obtain rfl := Option.some.inj taken; exact .installed here
    next here => obtain rfl := Option.some.inj taken; exact .installFailed here
    · contradiction
  | finish after =>
    simp only [step] at taken
    split at taken
    next here => obtain rfl := Option.some.inj taken; exact .finished here
    · contradiction
  | restartOne id =>
    simp only [step] at taken
    split at taken
    next here =>
      split at taken
      next turn => obtain rfl := Option.some.inj taken; rw [turn]; exact .restarted here
      · contradiction
    · contradiction

end Malkuth.Pipeline
