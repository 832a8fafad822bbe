import Malkuth.ControlArms
import Malkuth.Transition

/-! The MCP server as one machine: any number of `restart` and `drain` calls, `approve`
calls, the supervised workers of every run, and the clocks. A call moves by one shared
access at a time. Runs are addressed by their ids, which `insert_run` keeps apart;
registration and eviction are not part of this machine. -/
namespace Malkuth.Mcp

open Malkuth.Fleet Malkuth.Lifecycle Malkuth.DrainAuth Malkuth.Supervise Transition

abbrev Specs := String → Option RunSpec

structure RestartAccepted where
  runId : String
  workerId : String
  deriving DecidableEq, Repr

inductive RestartPoint where
  | findRun
  | checkFinished
  | gate (proposal : String)
  | snapshot (proposal : String)
  | locked (proposal : String) (phases : Phases)
  | describe (code : Refusal)
  | consume (proposal : String)
  | notify
  | answered (answer : Except Failure RestartAccepted)

/-- The points at which a refusal is answered by a step that changes nothing. -/
def RestartPoint.mayRefuse : RestartPoint → Bool
  | .findRun | .checkFinished | .gate _ | .describe _ => true
  | _ => false

structure DrainAccepted where
  runId : String
  kind : String
  already : Bool
  draining : Bool
  finished : Bool
  timedOut : Bool
  workers : List WorkerSnapshot
  deriving DecidableEq, Repr

/-- `panicked` is the overflow of `Instant::now() + budget`. -/
inductive DrainPoint where
  | findRun
  | checkDraining (kind : ShutdownKind)
  | validate (kind : ShutdownKind) (proposal worker : String)
  | storeKind (kind : ShutdownKind) (already : Bool)
  | storeDraining (kind : ShutdownKind) (already : Bool)
  | setDeadline (kind : ShutdownKind) (already : Bool)
  | waiting (kind : ShutdownKind) (already : Bool) (deadline : Nat)
  | readFleet (kind : ShutdownKind) (already timedOut : Bool)
  | readDraining (kind : ShutdownKind) (already timedOut : Bool) (workers : List WorkerSnapshot)
  | readFinished (kind : ShutdownKind) (already timedOut draining : Bool) (workers : List WorkerSnapshot)
  | answered (answer : Except Failure DrainAccepted)
  | panicked

/-- The points whose step only reads what is shared. -/
def DrainPoint.onlyReads : DrainPoint → Bool
  | .validate .. | .storeKind .. | .storeDraining .. => false
  | _ => true

inductive Call where
  | idle
  | restart (args : RestartArgs) (point : RestartPoint)
  | drain (args : DrainArgs) (point : DrainPoint)

structure Server where
  now : Nat
  registry : List ApprovalEntry
  runs : String → RunHandle
  calls : Nat → Call

namespace Server

def initial (now : Nat) : Server := ⟨now,[],fun _ => .new,fun _ => .idle⟩

def setRun (s : Server) (run : String) (h : RunHandle) : Server :=
  { s with runs := Function.update s.runs run h }

def setCall (s : Server) (call : Nat) (c : Call) : Server :=
  { s with calls := Function.update s.calls call c }

def unknownRun (run : String) : Failure := ⟨"unknown_run","no run with id `" ++ run ++ "`"⟩

def gateCode : ApprovalStatus → String
  | .expired => "approval_expired"
  | .consumed => "approval_consumed"
  | .blocked => "approval_blocked"
  | _ => "approval_required"

def cannotRestart (worker : String) (phase : WorkerPhase) (code : Refusal) : Failure :=
  ⟨code.code,"worker `" ++ worker ++ "` cannot restart now (phase " ++ phase.name ++
    ", code " ++ code.code ++ ")"⟩

/-- What `restart_payload` looks at once the run is known to be unfinished, up to the
gate: the run's restart signals and the proposal. -/
def restartTarget (spec : RunSpec) (args : RestartArgs) : Except Failure String :=
  if (spec.config args.workerId).isNone then
    .error ⟨"unknown_worker","run `" ++ args.runId ++ "` has no worker id `" ++ args.workerId ++ "`"⟩
  else requireProposal args.proposalId

def restartAdvance (spec : Option RunSpec) (s : Server) (args : RestartArgs) (r : Readings) :
    RestartPoint → Option (Server × RestartPoint)
  | .findRun =>
    match spec with
    | none => some (s,.answered (.error (unknownRun args.runId)))
    | some _ => some (s,.checkFinished)
  | .checkFinished =>
    if (s.runs args.runId).isFinished then
      some (s,.answered (.error ⟨"run_finished","run `" ++ args.runId ++ "` has already finished"⟩))
    else do
      match restartTarget (← spec) args with
      | .error failure => some (s,.answered (.error failure))
      | .ok proposal => some (s,.gate proposal)
  | .gate proposal =>
    match status Limits.global s.registry proposal args.workerId (r.wall 0) with
    | .approved => some (s,.snapshot proposal)
    | other => some (s,.answered (.error ⟨gateCode other,
        "the approval is not live (" ++ gateCode other ++ ")"⟩))
  | .snapshot proposal => some (s,.locked proposal (s.runs args.runId).phases)
  | .locked proposal phases =>
    let h := s.runs args.runId
    let (answer,book) := h.book.accept phases args.workerId r.instant (r.instant h.book.stamps.length)
    let s := s.setRun args.runId { h with book }
    match answer with
    | .ok _ => some (s,.consume proposal)
    | .error code => some (s,.describe code)
  | .describe code =>
    some (s,.answered (.error (cannotRestart args.workerId
      ((s.runs args.runId).phaseOf args.workerId) code)))
  | .consume proposal =>
    let (answer,registry) :=
      consume Limits.global s.registry proposal args.workerId (r.wall 0) (r.wall 1)
    let s := { s with registry }
    match answer with
    | .ok _ => some (s,.notify)
    | .error error => some (s,.answered (.error ⟨error.code,error.message⟩))
  | .notify =>
    let h := s.runs args.runId
    let w := h.workers args.workerId
    some (s.setRun args.runId
        (h.setWorker args.workerId { w with restartSignal := w.restartSignal.notifyOne }),
      .answered (.ok ⟨args.runId,args.workerId⟩))
  | .answered _ => none

def drainTarget (args : DrainArgs) : Except Failure (String × String) :=
  match requireProposal args.proposalId with
  | .error failure => .error failure
  | .ok proposal =>
    match args.workerId.map Text.trim with
    | some id => if id ≠ "" then .ok (proposal,id) else .error unnamed
    | none => .error unnamed
where
  unnamed : Failure := ⟨DrainAuthError.invalidRequest.code,
    "a drain must name the worker whose approved proposal justifies it"⟩

def unsupportedKind (args : DrainArgs) (code : String) : Failure :=
  ⟨code,"drain kind " ++ Text.debug (args.kind.getD "") ++ " is not supported — use `graceful` or " ++
    "`immediate`; a `reload` is a service-lifecycle signal for the supervised program, not a run action"⟩

def defaultDrainTimeoutSecs : Nat := 30

/-- An `Instant` holds its seconds in an `i64`. -/
def instantLimit : Nat := secs (2^63)

def drainAdvance (spec : Option RunSpec) (s : Server) (args : DrainArgs) (r : Readings) :
    DrainPoint → Option (Server × DrainPoint)
  | .findRun =>
    match spec with
    | none => some (s,.answered (.error (unknownRun args.runId)))
    | some _ =>
      match parseDrainKind args.kind with
      | .error code => some (s,.answered (.error (unsupportedKind args code)))
      | .ok kind => some (s,.checkDraining kind)
  | .checkDraining kind =>
    if (s.runs args.runId).drain.draining then some (s,.storeKind kind true)
    else
      match drainTarget args with
      | .error failure => some (s,.answered (.error failure))
      | .ok (proposal,worker) => some (s,.validate kind proposal worker)
  | .validate kind proposal worker =>
    let (answer,registry) :=
      validateDrainRequest Limits.global s.registry worker proposal none (r.wall 0) (r.wall 1)
    let s := { s with registry }
    match answer with
    | .ok _ => some (s,.storeKind kind false)
    | .error error => some (s,.answered (.error ⟨error.code,error.message⟩))
  | .storeKind kind already =>
    let h := s.runs args.runId
    some (s.setRun args.runId { h with drain := h.drain.storeKind kind },
      if kind.causesDrain then .storeDraining kind already else .setDeadline kind already)
  | .storeDraining kind already =>
    let h := s.runs args.runId
    some (s.setRun args.runId { h with drain := h.drain.storeDraining },.setDeadline kind already)
  | .setDeadline kind already =>
    let deadline := s.now + secs (args.timeoutSecs.getD defaultDrainTimeoutSecs)
    some (s,if deadline < instantLimit then .waiting kind already deadline else .panicked)
  | .waiting kind already deadline =>
    if (s.runs args.runId).isFinished then some (s,.readFleet kind already false)
    else if deadline ≤ s.now then some (s,.readFleet kind already true)
    else some (s,.waiting kind already deadline)
  | .readFleet kind already timedOut => do
    some (s,.readDraining kind already timedOut ((s.runs args.runId).fleetSnapshot (← spec) r.wall))
  | .readDraining kind already timedOut workers =>
    some (s,.readFinished kind already timedOut (s.runs args.runId).drain.draining workers)
  | .readFinished kind already timedOut draining workers =>
    some (s,.answered (.ok ⟨args.runId,shutdownKindName kind,already,draining,
      (s.runs args.runId).isFinished,timedOut,workers⟩))
  | .answered _ | .panicked => none

inductive Event where
  | supervise (run worker : String) (a : Action)
  | timeout (run : String)
  | conclude (run : String)
  | tick (ns : Nat)
  | approve (args : ApproveArgs) (r : Readings)
  | restart (call : Nat) (args : RestartArgs)
  | drain (call : Nat) (args : DrainArgs)
  | advance (call : Nat) (r : Readings)

def advance (specs : Specs) (s : Server) (call : Nat) (r : Readings) : Option Server :=
  match s.calls call with
  | .idle => none
  | .restart args point =>
    (restartAdvance (specs args.runId) s args r point).map fun (s,point) =>
      s.setCall call (.restart args point)
  | .drain args point =>
    (drainAdvance (specs args.runId) s args r point).map fun (s,point) =>
      s.setCall call (.drain args point)

def begin (s : Server) (call : Nat) (c : Call) : Option Server :=
  match s.calls call with
  | .idle => some (s.setCall call c)
  | _ => none

def step (specs : Specs) (s : Server) : Event → Option Server
  | .supervise run worker a => do
    let cfg ← (← specs run).config worker
    let h := s.runs run
    if h.stage = .supervising then
      (h.workers worker).act cfg s.now h.drain a |>.map fun w => s.setRun run (h.setWorker worker w)
    else none
  | .timeout run => do
    (s.runs run).timeout (← specs run) |>.map fun h => s.setRun run h
  | .conclude run => do
    (s.runs run).conclude (← specs run) |>.map fun h => s.setRun run h
  | .tick ns => some { s with now := s.now + ns }
  | .approve args r => some { s with registry := (approvePayload s.registry args r).2 }
  | .restart call args => s.begin call (.restart args .findRun)
  | .drain call args => s.begin call (.drain args .findRun)
  | .advance call r => s.advance specs call r

inductive RestartMoves (spec : Option RunSpec) (s : Server) (args : RestartArgs) (r : Readings) :
    RestartPoint → Server → RestartPoint → Prop where
  | found : spec.isSome = true → RestartMoves spec s args r .findRun s .checkFinished
  | gated : RestartMoves spec s args r .checkFinished s (.gate proposal)
  | approved (live : status Limits.global s.registry proposal args.workerId (r.wall 0) = .approved) :
      RestartMoves spec s args r (.gate proposal) s (.snapshot proposal)
  | snapshot :
      RestartMoves spec s args r (.snapshot proposal) s (.locked proposal (s.runs args.runId).phases)
  | accepted
      (ok : ((s.runs args.runId).book.accept phases args.workerId r.instant
        (r.instant (s.runs args.runId).book.stamps.length)).1 = .ok ()) :
      RestartMoves spec s args r (.locked proposal phases)
        (s.setRun args.runId { s.runs args.runId with
          book := ((s.runs args.runId).book.accept phases args.workerId r.instant
            (r.instant (s.runs args.runId).book.stamps.length)).2 })
        (.consume proposal)
  | blocked
      (error : ((s.runs args.runId).book.accept phases args.workerId r.instant
        (r.instant (s.runs args.runId).book.stamps.length)).1 = .error code) :
      RestartMoves spec s args r (.locked proposal phases)
        (s.setRun args.runId { s.runs args.runId with
          book := (s.runs args.runId).book.settle phases r.instant })
        (.describe code)
  | spent
      (ok : (consume Limits.global s.registry proposal args.workerId (r.wall 0) (r.wall 1)).1 = .ok ()) :
      RestartMoves spec s args r (.consume proposal)
        { s with registry :=
          (consume Limits.global s.registry proposal args.workerId (r.wall 0) (r.wall 1)).2 }
        .notify
  | unspent
      (error : (consume Limits.global s.registry proposal args.workerId (r.wall 0) (r.wall 1)).1 =
        .error refusal) :
      RestartMoves spec s args r (.consume proposal) s
        (.answered (.error ⟨refusal.code,refusal.message⟩))
  | notified :
      RestartMoves spec s args r .notify
        (s.setRun args.runId ((s.runs args.runId).setWorker args.workerId
          { (s.runs args.runId).workers args.workerId with
            restartSignal := ((s.runs args.runId).workers args.workerId).restartSignal.notifyOne }))
        (.answered (.ok ⟨args.runId,args.workerId⟩))
  | refused (reason : Failure) (before : point.mayRefuse = true) :
      RestartMoves spec s args r point s (.answered (.error reason))

theorem restartAdvance_moves (spec : Option RunSpec) (s m : Server) (args : RestartArgs) (r : Readings)
    (point point' : RestartPoint) (taken : restartAdvance spec s args r point = some (m,point')) :
    RestartMoves spec s args r point m point' := by
  cases point with
  | findRun =>
    simp only [restartAdvance] at taken
    split at taken
    · cases taken; exact .refused _ rfl
    · cases taken; exact .found rfl
  | checkFinished =>
    simp only [restartAdvance] at taken
    split at taken
    · cases taken; exact .refused _ rfl
    · obtain ⟨found,_,rest⟩ := Option.bind_eq_some_iff.mp taken
      split at rest
      · cases rest; exact .refused _ rfl
      · cases rest; exact .gated
  | gate proposal =>
    simp only [restartAdvance] at taken
    split at taken
    next live => cases taken; exact .approved live
    · cases taken; exact .refused _ rfl
  | snapshot proposal =>
    cases taken
    exact .snapshot
  | locked proposal phases =>
    simp only [restartAdvance] at taken
    split at taken
    next ok => cases taken; exact .accepted ok
    next code error =>
      cases taken
      rw [accept_error _ _ _ _ _ error]
      exact .blocked error
  | describe code =>
    cases taken
    exact .refused _ rfl
  | consume proposal =>
    simp only [restartAdvance] at taken
    split at taken
    next ok => cases taken; exact .spent ok
    next refusal error =>
      cases taken
      rw [consume_error _ _ _ _ _ _ error]
      exact .unspent error
  | notify =>
    cases taken
    exact .notified
  | answered answer => cases taken

inductive DrainMoves (s : Server) (args : DrainArgs) (r : Readings) :
    DrainPoint → Server → DrainPoint → Prop where
  | read (reads : point.onlyReads = true) : DrainMoves s args r point s point'
  | spent
      (ok : (validateDrainRequest Limits.global s.registry worker proposal none (r.wall 0) (r.wall 1)).1 =
        .ok ()) :
      DrainMoves s args r (.validate kind proposal worker)
        { s with registry :=
          (validateDrainRequest Limits.global s.registry worker proposal none (r.wall 0) (r.wall 1)).2 }
        (.storeKind kind false)
  | unspent
      (error : (validateDrainRequest Limits.global s.registry worker proposal none (r.wall 0) (r.wall 1)).1 =
        .error refusal) :
      DrainMoves s args r (.validate kind proposal worker) s
        (.answered (.error ⟨refusal.code,refusal.message⟩))
  | kindStored :
      DrainMoves s args r (.storeKind kind already)
        (s.setRun args.runId { s.runs args.runId with
          drain := (s.runs args.runId).drain.storeKind kind })
        (if kind.causesDrain then .storeDraining kind already else .setDeadline kind already)
  | drainStored :
      DrainMoves s args r (.storeDraining kind already)
        (s.setRun args.runId { s.runs args.runId with
          drain := (s.runs args.runId).drain.storeDraining })
        (.setDeadline kind already)

theorem drainAdvance_moves (spec : Option RunSpec) (s m : Server) (args : DrainArgs) (r : Readings)
    (point point' : DrainPoint) (taken : drainAdvance spec s args r point = some (m,point')) :
    DrainMoves s args r point m point' := by
  cases point with
  | findRun =>
    simp only [drainAdvance] at taken
    split at taken
    · cases taken; exact .read rfl
    · split at taken <;> cases taken <;> exact .read rfl
  | checkDraining kind =>
    simp only [drainAdvance] at taken
    split at taken
    · cases taken; exact .read rfl
    · split at taken <;> cases taken <;> exact .read rfl
  | validate kind proposal worker =>
    simp only [drainAdvance] at taken
    split at taken
    next ok => cases taken; exact .spent ok
    next refusal error =>
      cases taken
      rw [validateDrainRequest_error _ _ _ _ _ _ _ error]
      exact .unspent error
  | storeKind kind already => cases taken; exact .kindStored
  | storeDraining kind already => cases taken; exact .drainStored
  | setDeadline kind already => cases taken; exact .read rfl
  | waiting kind already deadline =>
    simp only [drainAdvance] at taken
    split at taken
    · cases taken; exact .read rfl
    · split at taken <;> cases taken <;> exact .read rfl
  | readFleet kind already timedOut =>
    obtain ⟨found,_,rest⟩ := Option.bind_eq_some_iff.mp taken
    cases rest
    exact .read rfl
  | readDraining kind already timedOut workers => cases taken; exact .read rfl
  | readFinished kind already timedOut draining workers => cases taken; exact .read rfl
  | answered answer => cases taken
  | panicked => cases taken

/-- Every step of the server; a call's own step is one of `RestartMoves`, or a drain's. -/
inductive Moves (specs : Specs) (s : Server) : Event → Server → Prop where
  | supervised (found : specs run = some spec) (known : spec.config worker = some cfg)
      (live : (s.runs run).stage = .supervising)
      (acted : ((s.runs run).workers worker).act cfg s.now (s.runs run).drain a = some w) :
      Moves specs s (.supervise run worker a) (s.setRun run ((s.runs run).setWorker worker w))
  | timedOut (found : specs run = some spec) (dropped : (s.runs run).timeout spec = some h) :
      Moves specs s (.timeout run) (s.setRun run h)
  | concluded (found : specs run = some spec) (done : (s.runs run).conclude spec = some h) :
      Moves specs s (.conclude run) (s.setRun run h)
  | ticked : Moves specs s (.tick ns) { s with now := s.now + ns }
  | approved : Moves specs s (.approve args r) { s with registry := (approvePayload s.registry args r).2 }
  | restartBegun (free : s.calls call = .idle) :
      Moves specs s (.restart call args) (s.setCall call (.restart args .findRun))
  | drainBegun (free : s.calls call = .idle) :
      Moves specs s (.drain call args) (s.setCall call (.drain args .findRun))
  | restart (here : s.calls call = .restart args point)
      (moves : RestartMoves (specs args.runId) s args r point m point') :
      Moves specs s (.advance call r) (m.setCall call (.restart args point'))
  | drain (here : s.calls call = .drain args point) (moves : DrainMoves s args r point m point') :
      Moves specs s (.advance call r) (m.setCall call (.drain args point'))

theorem begin_eq_some (s : Server) (begun : s.begin call c = some s') :
    s.calls call = .idle ∧ s' = s.setCall call c := by
  unfold begin at begun
  split at begun
  next free => exact ⟨free,(Option.some.inj begun).symm⟩
  · contradiction

theorem step_moves (specs : Specs) (s s' : Server) (e : Event) (taken : step specs s e = some s') :
    Moves specs s e s' := by
  cases e with
  | supervise run worker a =>
    obtain ⟨spec,found,configured⟩ := Option.bind_eq_some_iff.mp taken
    obtain ⟨cfg,known,rest⟩ := Option.bind_eq_some_iff.mp configured
    simp only at rest
    split at rest
    next live =>
      obtain ⟨w,acted,rfl⟩ := Option.map_eq_some_iff.mp rest
      exact .supervised found known live acted
    · contradiction
  | timeout run =>
    obtain ⟨spec,found,rest⟩ := Option.bind_eq_some_iff.mp taken
    obtain ⟨h,dropped,rfl⟩ := Option.map_eq_some_iff.mp rest
    exact .timedOut found dropped
  | conclude run =>
    obtain ⟨spec,found,rest⟩ := Option.bind_eq_some_iff.mp taken
    obtain ⟨h,done,rfl⟩ := Option.map_eq_some_iff.mp rest
    exact .concluded found done
  | tick ns => cases taken; exact .ticked
  | approve args r => cases taken; exact .approved
  | restart call args =>
    obtain ⟨free,rfl⟩ := begin_eq_some s taken
    exact .restartBegun free
  | drain call args =>
    obtain ⟨free,rfl⟩ := begin_eq_some s taken
    exact .drainBegun free
  | advance call r =>
    simp only [step,advance] at taken
    split at taken
    · contradiction
    next args point here =>
      obtain ⟨⟨m,point'⟩,moved,rfl⟩ := Option.map_eq_some_iff.mp taken
      exact .restart here (restartAdvance_moves _ s m args r point point' moved)
    next args point here =>
      obtain ⟨⟨m,point'⟩,moved,rfl⟩ := Option.map_eq_some_iff.mp taken
      exact .drain here (drainAdvance_moves _ s m args r point point' moved)

@[simp] theorem setRun_now (s : Server) (run : String) (h : RunHandle) : (s.setRun run h).now = s.now := rfl

@[simp] theorem setRun_registry (s : Server) (run : String) (h : RunHandle) :
    (s.setRun run h).registry = s.registry := rfl

@[simp] theorem setRun_calls (s : Server) (run : String) (h : RunHandle) :
    (s.setRun run h).calls = s.calls := rfl

@[simp] theorem setRun_runs (s : Server) (run : String) (h : RunHandle) :
    (s.setRun run h).runs = Function.update s.runs run h := rfl

@[simp] theorem setCall_now (s : Server) (call : Nat) (c : Call) : (s.setCall call c).now = s.now := rfl

@[simp] theorem setCall_registry (s : Server) (call : Nat) (c : Call) :
    (s.setCall call c).registry = s.registry := rfl

@[simp] theorem setCall_runs (s : Server) (call : Nat) (c : Call) : (s.setCall call c).runs = s.runs := rfl

@[simp] theorem setCall_calls (s : Server) (call : Nat) (c : Call) :
    (s.setCall call c).calls = Function.update s.calls call c := rfl

/-- The drain bit of a run is never cleared. -/
theorem step_bit (specs : Specs) (s s' : Server) (e : Event) (run : String)
    (taken : step specs s e = some s') (bit : (s.runs run).drain.draining = true) :
    (s'.runs run).drain.draining = true := by
  have updated : ∀ other h, (other = run → h.drain.draining = true) →
      (Function.update s.runs other h run).drain.draining = true := by
    intro other h keeps
    by_cases same : other = run
    · subst same; simpa using keeps rfl
    · simpa [Function.update_of_ne (Ne.symm same)] using bit
  cases step_moves specs s s' e taken with
  | supervised => exact updated _ _ (by rintro rfl; exact bit)
  | timedOut _ dropped =>
    obtain rfl := RunHandle.timeout_eq_some _ dropped
    exact updated _ _ (by rintro rfl; exact bit)
  | concluded _ done =>
    obtain ⟨_,_,keeps,_⟩ := RunHandle.conclude_eq_some _ done
    exact updated _ _ (by rintro rfl; exact keeps bit)
  | ticked | approved | restartBegun | drainBegun => exact bit
  | restart here moves =>
    cases moves with
    | accepted | blocked | notified => exact updated _ _ (by rintro rfl; exact bit)
    | _ => exact bit
  | drain here moves =>
    cases moves with
    | read | spent | unspent => exact bit
    | kindStored => exact updated _ _ (by rintro rfl; exact bit)
    | drainStored => exact updated _ _ fun _ => rfl

def Event.movesCall (call : Nat) : Event → Bool
  | .advance c _ => c == call
  | _ => false

inductive CallMoves (specs : Specs) (s : Server) (call : Nat) : Event → Server → Prop where
  | kept (foreign : e.movesCall call = false) (same : s'.calls call = s.calls call) :
      CallMoves specs s call e s'
  | restartBegun (free : s.calls call = .idle) :
      CallMoves specs s call (.restart call args) (s.setCall call (.restart args .findRun))
  | drainBegun (free : s.calls call = .idle) :
      CallMoves specs s call (.drain call args) (s.setCall call (.drain args .findRun))
  | restart (here : s.calls call = .restart args point)
      (moves : RestartMoves (specs args.runId) s args r point m point') :
      CallMoves specs s call (.advance call r) (m.setCall call (.restart args point'))
  | drain (here : s.calls call = .drain args point) (moves : DrainMoves s args r point m point') :
      CallMoves specs s call (.advance call r) (m.setCall call (.drain args point'))

theorem RestartMoves.calls (moves : RestartMoves spec s args r point m point') : m.calls = s.calls := by
  cases moves <;> rfl

theorem DrainMoves.calls (moves : DrainMoves s args r point m point') : m.calls = s.calls := by
  cases moves <;> rfl

theorem step_callMoves (specs : Specs) (s s' : Server) (e : Event) (call : Nat)
    (taken : step specs s e = some s') : CallMoves specs s call e s' := by
  cases step_moves specs s s' e taken with
  | supervised | timedOut | concluded | ticked | approved => exact .kept rfl rfl
  | @restartBegun other args free =>
    by_cases own : call = other
    · subst own; exact .restartBegun free
    · exact .kept rfl (by simp [own])
  | @drainBegun other args free =>
    by_cases own : call = other
    · subst own; exact .drainBegun free
    · exact .kept rfl (by simp [own])
  | @restart other args point r m point' here moves =>
    by_cases own : call = other
    · subst own; exact .restart here moves
    · exact .kept (by simp [Event.movesCall,Ne.symm own]) (by simp [own,moves.calls])
  | @drain other args point r m point' here moves =>
    by_cases own : call = other
    · subst own; exact .drain here moves
    · exact .kept (by simp [Event.movesCall,Ne.symm own]) (by simp [own,moves.calls])

def restartAnswer (s : Server) (call : Nat) : Option (Except String RestartAccepted) :=
  match s.calls call with
  | .restart _ (.answered answer) => some (answer.mapError Failure.code)
  | _ => none

def advances (call n : Nat) : List Event := List.replicate n (.advance call (.at 0))

def twins : Specs := fun run =>
  if run = "run-1" ∨ run = "run-2" then
    some ⟨[api .permanent],none,by decide,by simp [api]⟩
  else none

end Server

end Malkuth.Mcp
