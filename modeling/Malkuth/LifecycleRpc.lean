import Malkuth.Lifecycle
import Malkuth.ServeConn

/-! The lifecycle methods of `Router` in `jsonrpc.rs`, served on any number of connections at
once. A handler is the sequence of its atomic steps on what the connections share: the drain
controller, and the `ProbeState` of `probes.rs` behind its three locks. The host has its own
methods, and begins drains and sets the probe when it likes. -/
namespace Malkuth.LifecycleRpc

open Transition Lifecycle Json JsonRpc ServeConn

def methodDrain : String := "Lifecycle.Drain"
def methodReload : String := "Lifecycle.Reload"
def methodStatus : String := "Lifecycle.Status"
def methodHealth : String := "Lifecycle.Health"

inductive DrainState where
  | active
  | draining
  | reloading
  deriving DecidableEq, Repr

structure DependencyCheck where
  name : String
  ok : Bool
  detail : Option String
  deriving DecidableEq, Repr

def DependencyCheck.toValue (d : DependencyCheck) : Value :=
  .object (skipNone "detail" (d.detail.map .string) ++ [("name",.string d.name),("ok",.bool d.ok)])

structure ReadyStatus where
  ready : Bool
  draining : Bool
  dependencies : List DependencyCheck
  generation : Option UInt64
  deriving DecidableEq, Repr

def ReadyStatus.toValue (r : ReadyStatus) : Value :=
  .object ([("dependencies",.array (r.dependencies.map DependencyCheck.toValue)),("draining",.bool r.draining)] ++
    skipNone "generation" (r.generation.map fun n => .number (.posInt n)) ++ [("ready",.bool r.ready)])

structure HealthStatus where
  alive : Bool
  pid : UInt32
  uptimeSecs : UInt64
  version : String
  deriving DecidableEq, Repr

def HealthStatus.toValue (h : HealthStatus) : Value :=
  .object [("alive",.bool h.alive),("pid",.number (.posInt h.pid.toUInt64)),
    ("uptime_secs",.number (.posInt h.uptimeSecs)),("version",.string h.version)]

structure DrainResponse where
  accepted : Bool
  draining : Bool
  deriving DecidableEq, Repr

def DrainResponse.toValue (d : DrainResponse) : Value :=
  .object [("accepted",.bool d.accepted),("draining",.bool d.draining)]

def methodNotFound (method : String) : RpcError := ⟨-32601,s!"method not found: {method}",none⟩

/-- The closures that `Router` may have under a name: those of `lifecycle`, and the host's. -/
inductive Handler where
  | drain
  | reload
  | status
  | health
  | host
  deriving DecidableEq, Repr

abbrev Router := String → Option Handler

def Router.new : Router := fun _ => none

def Router.route (r : Router) (name : String) (f : Handler) : Router := Function.update r name (some f)

def Router.lifecycle (r : Router) : Router :=
  (((r.route methodDrain .drain).route methodReload .reload).route methodStatus .status).route methodHealth .health

/-- What a `ProbeState` may change. The lock of the dependencies is `poisoned` once a check has
panicked in it. -/
structure Probe where
  drainState : DrainState
  generation : Option UInt64
  deps : List String
  poisoned : Bool
  deriving DecidableEq, Repr

def Probe.new : Probe := ⟨.active,none,[],false⟩

def DrainState.isDraining : DrainState → Bool
  | .draining | .reloading => true
  | .active => false

/-- The dependencies with what their checks said. -/
def checked (deps : List String) (oks : List Bool) : List DependencyCheck :=
  List.zipWith (fun name ok => ⟨name,ok,if ok then none else some "unhealthy"⟩) deps oks

def readyStatus (state : DrainState) (generation : Option UInt64) (p : Probe) (oks : List Bool) : ReadyStatus :=
  if p.poisoned then ⟨false,true,[⟨"internal_lock",false,some "registry mutex poisoned"⟩],none⟩
  else ⟨!state.isDraining && oks.all id,state.isDraining,checked p.deps oks,generation⟩

def plainStatus (draining : Bool) : ReadyStatus := ⟨!draining,draining,[],none⟩

inductive Point where
  | start
  /-- `begin_drain` has stored the kind, not yet the bit. -/
  | kindStored
  | stateRead (state : DrainState)
  | generationRead (state : DrainState) (generation : Option UInt64)
  | done (outcome : Outcome)
  deriving DecidableEq

/-- `begun j` says that a `begin_drain` of the host's has yet to store the bit. -/
structure Server where
  ctrl : DrainController
  probe : Probe
  conns : Nat → Conn
  points : Nat → Point
  begun : Nat → Bool

/-- What a handler is told from outside: by the checks of the dependencies, by the system, or
by the host's own method. -/
structure Input where
  oks : List Bool
  pid : UInt32
  uptimeSecs : UInt64
  outcome : Outcome
  deriving DecidableEq

inductive Event where
  | receive (i : Nat) (chunk : List UInt8)
  | disconnect (i : Nat)
  | frame (i : Nat)
  | work (i : Nat) (input : Input)
  /-- A check of a dependency panics, and takes the task of the connection with it. -/
  | checkPanics (i : Nat)
  | write (i : Nat)
  | writeFails (i : Nat)
  | beginDrain (j : Nat) (kind : ShutdownKind)
  | settle (j : Nat)
  | clearDraining
  | clearKind
  | setDrainState (state : DrainState)
  | setGeneration (generation : Option UInt64)
  | addDependency (name : String)
  deriving DecidableEq

def Server.setConn (s : Server) (i : Nat) (c : Conn) : Server := { s with conns := Function.update s.conns i c }

def Server.setPoint (s : Server) (i : Nat) (p : Point) : Server := { s with points := Function.update s.points i p }

def Server.answer (s : Server) (i : Nat) (outcome : Outcome) : Server := s.setPoint i (.done outcome)

def Server.initial : Server := ⟨.new,.new,fun _ => .new,fun _ => .start,fun _ => false⟩

structure Config where
  router : Router
  probed : Bool
  version : String

variable {Error : Type} (serde : Serde Error) (cfg : Config)

def handle (s : Server) (i : Nat) (input : Input) : Handler → Point → Option Server
  | .drain, .start => some ({ s with ctrl := s.ctrl.storeKind .graceful }.setPoint i .kindStored)
  | .drain, .kindStored =>
    some ({ s with ctrl := s.ctrl.storeDraining }.answer i (.ok (DrainResponse.toValue ⟨true,true⟩)))
  | .reload, .start => some ({ s with ctrl := s.ctrl.storeKind .reload }.answer i (.ok .null))
  | .status, .start =>
    if cfg.probed then some (s.setPoint i (.stateRead s.probe.drainState))
    else some (s.answer i (.ok (plainStatus s.ctrl.draining).toValue))
  | .status, .stateRead state => some (s.setPoint i (.generationRead state s.probe.generation))
  | .status, .generationRead state generation =>
    if input.oks.length = s.probe.deps.length then
      some (s.answer i (.ok (readyStatus state generation s.probe input.oks).toValue))
    else none
  | .health, .start =>
    some (s.answer i (.ok (if cfg.probed then HealthStatus.toValue ⟨true,input.pid,input.uptimeSecs,cfg.version⟩
      else HealthStatus.toValue ⟨true,input.pid,0,"unknown"⟩)))
  | .host, .start => some (s.answer i input.outcome)
  | _, _ => none

/-- The request that a connection has at hand. -/
def Server.current (s : Server) (i : Nat) : Option Request :=
  match (s.conns i).phase with
  | .handling req => some req
  | _ => none

def work (s : Server) (i : Nat) (input : Input) : Option Server := do
  let req ← s.current i
  match cfg.router req.method with
  | some f => handle cfg s i input f (s.points i)
  | none => if s.points i = .start then some (s.answer i (.error (methodNotFound req.method))) else none

def Server.finish (s : Server) (i : Nat) (event : Outcome → ServeConn.Event) : Option Server :=
  match s.points i with
  | .done outcome => (ServeConn.step serde (s.conns i) (event outcome)).map (s.setConn i)
  | _ => none

def step (s : Server) : Event → Option Server
  | .receive i chunk => (ServeConn.step serde (s.conns i) (.receive chunk)).map (s.setConn i)
  | .disconnect i => (ServeConn.step serde (s.conns i) .disconnect).map (s.setConn i)
  | .frame i => (ServeConn.step serde (s.conns i) .frame).map fun c => (s.setConn i c).setPoint i .start
  | .work i input => work cfg s i input
  | .checkPanics i =>
    match s.current i, s.points i with
    | some req, .generationRead _ _ =>
      if s.probe.poisoned = false ∧ s.probe.deps ≠ [] then
        some ({ s with probe := { s.probe with poisoned := true } }.setConn i { s.conns i with phase := .closed (some req) })
      else none
    | _, _ => none
  | .write i => s.finish serde i .finish
  | .writeFails i => s.finish serde i .finishUnwritten
  | .beginDrain j kind =>
    if s.begun j then none
    else some { s with ctrl := s.ctrl.storeKind kind, begun := Function.update s.begun j kind.causesDrain }
  | .settle j => if s.begun j then some { s with ctrl := s.ctrl.storeDraining, begun := Function.update s.begun j false } else none
  | .clearDraining => some { s with ctrl := s.ctrl.clearDraining }
  | .clearKind => some { s with ctrl := s.ctrl.clearKind }
  | .setDrainState state => some { s with probe := { s.probe with drainState := state } }
  | .setGeneration generation => some { s with probe := { s.probe with generation := generation } }
  | .addDependency name =>
    -- the lock is unwrapped here
    if s.probe.poisoned then none else some { s with probe := { s.probe with deps := s.probe.deps ++ [name] } }

inductive Works (s : Server) (i : Nat) (req : Request) : Server → Prop where
  | kindStored (routed : cfg.router req.method = some .drain) (here : s.points i = .start) :
      Works s i req ({ s with ctrl := s.ctrl.storeKind .graceful }.setPoint i .kindStored)
  | bitStored (routed : cfg.router req.method = some .drain) (here : s.points i = .kindStored) :
      Works s i req ({ s with ctrl := s.ctrl.storeDraining }.answer i (.ok (DrainResponse.toValue ⟨true,true⟩)))
  | reloaded (routed : cfg.router req.method = some .reload) :
      Works s i req ({ s with ctrl := s.ctrl.storeKind .reload }.answer i (.ok .null))
  | plain (routed : cfg.router req.method = some .status) (plain : cfg.probed = false) :
      Works s i req (s.answer i (.ok (plainStatus s.ctrl.draining).toValue))
  | stateRead (routed : cfg.router req.method = some .status) (probed : cfg.probed = true) :
      Works s i req (s.setPoint i (.stateRead s.probe.drainState))
  | generationRead (routed : cfg.router req.method = some .status) (here : s.points i = .stateRead state) :
      Works s i req (s.setPoint i (.generationRead state s.probe.generation))
  | checked (routed : cfg.router req.method = some .status) (here : s.points i = .generationRead state generation)
      (counted : oks.length = s.probe.deps.length) :
      Works s i req (s.answer i (.ok (readyStatus state generation s.probe oks).toValue))
  | other (noDrain : cfg.router req.method ≠ some .drain) (noStatus : cfg.router req.method ≠ some .status) :
      Works s i req (s.answer i outcome)

theorem work_works (s : Server) (taken : work cfg s i input = some s') :
    ∃ req, s.current i = some req ∧ Works cfg s i req s' := by
  obtain ⟨req,current,taken⟩ := Option.bind_eq_some_iff.mp taken
  refine ⟨req,current,?_⟩
  cases routed : cfg.router req.method with
  | none =>
    rw [routed] at taken
    obtain ⟨_,rfl⟩ := Option.ite_some_none_eq_some.mp taken
    exact .other (by simp [routed]) (by simp [routed])
  | some f =>
    simp only [routed] at taken
    unfold handle at taken
    split at taken
    next here => obtain rfl := Option.some.inj taken; exact .kindStored routed here
    next here => obtain rfl := Option.some.inj taken; exact .bitStored routed here
    next here => obtain rfl := Option.some.inj taken; exact .reloaded routed
    next here =>
      split at taken
      next probed => obtain rfl := Option.some.inj taken; exact .stateRead routed probed
      next plain => obtain rfl := Option.some.inj taken; exact .plain routed (Bool.not_eq_true _ ▸ plain)
    next here => obtain rfl := Option.some.inj taken; exact .generationRead routed here
    next here =>
      obtain ⟨counted,rfl⟩ := Option.ite_some_none_eq_some.mp taken
      exact .checked routed here counted
    next => obtain rfl := Option.some.inj taken; exact .other (by simp [routed]) (by simp [routed])
    next => obtain rfl := Option.some.inj taken; exact .other (by simp [routed]) (by simp [routed])
    · contradiction

inductive Steps (s : Server) : Event → Server → Prop where
  /-- Bytes arrive, a connection ends, or a request is done with. -/
  | quiet (i : Nat) (c : Conn) (idle : ∀ req, c.phase ≠ .handling req) (other : ∀ k, e ≠ .frame k) : Steps s e (s.setConn i c)
  | frame (i : Nat) (c : Conn) : Steps s (.frame i) ((s.setConn i c).setPoint i .start)
  | work (i : Nat) (req : Request) (current : s.current i = some req) (works : Works cfg s i req s') : Steps s (.work i input) s'
  | panicked (i : Nat) (c : Conn) (idle : ∀ req, c.phase ≠ .handling req) :
      Steps s (.checkPanics i) ({ s with probe := { s.probe with poisoned := true } }.setConn i c)
  | begun (free : s.begun j = false) : Steps s (.beginDrain j kind)
      { s with ctrl := s.ctrl.storeKind kind, begun := Function.update s.begun j kind.causesDrain }
  | settled (begun : s.begun j = true) : Steps s (.settle j)
      { s with ctrl := s.ctrl.storeDraining, begun := Function.update s.begun j false }
  | clearedBit : Steps s .clearDraining { s with ctrl := s.ctrl.clearDraining }
  | clearedKind : Steps s .clearKind { s with ctrl := s.ctrl.clearKind }
  | stateSet : Steps s (.setDrainState state) { s with probe := { s.probe with drainState := state } }
  | generationSet : Steps s (.setGeneration generation) { s with probe := { s.probe with generation := generation } }
  | added : Steps s (.addDependency name) { s with probe := { s.probe with deps := s.probe.deps ++ [name] } }

/-- What a connection does but for taking a frame leaves no request at hand. -/
theorem step_idle (c : Conn) (taken : ServeConn.step serde c e = some c') (other : e ≠ .frame) (req : Request) :
    c'.phase ≠ .handling req := by
  cases e with
  | receive chunk =>
    obtain ⟨reading,taken⟩ := Option.ite_none_right_eq_some.mp taken
    obtain ⟨_,_,rfl⟩ := Option.map_eq_some_iff.mp taken
    simp [reading]
  | disconnect =>
    obtain ⟨_,rfl⟩ := Option.ite_some_none_eq_some.mp taken
    simp
  | frame => contradiction
  | finish outcome =>
    obtain ⟨⟨_,_⟩,finished,rfl⟩ := Option.map_eq_some_iff.mp taken
    simp only [Conn.finish] at finished
    split at finished
    · obtain ⟨rfl,_⟩ := Prod.mk.inj (Option.some.inj finished)
      simp
    · contradiction
  | finishUnwritten outcome =>
    simp only [ServeConn.step] at taken
    split at taken
    · obtain ⟨_,rfl⟩ := Option.ite_some_none_eq_some.mp taken
      simp
    · contradiction

theorem finish_quiet {event : Outcome → ServeConn.Event} (s : Server) (taken : s.finish serde i event = some s')
    (other : ∀ outcome, event outcome ≠ .frame) : ∃ c, (∀ req, c.phase ≠ .handling req) ∧ s' = s.setConn i c := by
  simp only [Server.finish] at taken
  split at taken
  · obtain ⟨c,ended,rfl⟩ := Option.map_eq_some_iff.mp taken
    exact ⟨c,step_idle serde _ ended (other _),rfl⟩
  · contradiction

theorem step_steps (s s' : Server) (e : Event) (taken : step serde cfg s e = some s') : Steps cfg s e s' := by
  cases e with
  | receive i chunk =>
    obtain ⟨c,received,rfl⟩ := Option.map_eq_some_iff.mp taken
    exact .quiet _ _ (step_idle serde _ received (by simp)) (by simp)
  | disconnect i =>
    obtain ⟨c,ended,rfl⟩ := Option.map_eq_some_iff.mp taken
    exact .quiet _ _ (step_idle serde _ ended (by simp)) (by simp)
  | frame i =>
    obtain ⟨c,_,rfl⟩ := Option.map_eq_some_iff.mp taken
    exact .frame _ _
  | work i input =>
    obtain ⟨req,current,works⟩ := work_works cfg s taken
    exact .work _ _ current works
  | checkPanics i =>
    simp only [step] at taken
    split at taken
    · obtain ⟨_,rfl⟩ := Option.ite_some_none_eq_some.mp taken
      exact .panicked _ _ (by simp)
    · contradiction
  | write i =>
    obtain ⟨c,idle,rfl⟩ := finish_quiet serde s taken (by simp)
    exact .quiet _ _ idle (by simp)
  | writeFails i =>
    obtain ⟨c,idle,rfl⟩ := finish_quiet serde s taken (by simp)
    exact .quiet _ _ idle (by simp)
  | beginDrain j kind =>
    obtain ⟨free,same⟩ := Option.ite_none_left_eq_some.mp taken
    obtain rfl := Option.some.inj same
    exact .begun (Bool.not_eq_true _ ▸ free)
  | settle j =>
    obtain ⟨begun,rfl⟩ := Option.ite_some_none_eq_some.mp taken
    exact .settled begun
  | clearDraining => obtain rfl := Option.some.inj taken; exact .clearedBit
  | clearKind => obtain rfl := Option.some.inj taken; exact .clearedKind
  | setDrainState state => obtain rfl := Option.some.inj taken; exact .stateSet
  | setGeneration generation => obtain rfl := Option.some.inj taken; exact .generationSet
  | addDependency name =>
    obtain ⟨_,same⟩ := Option.ite_none_left_eq_some.mp taken
    obtain rfl := Option.some.inj same
    exact .added

section Locality

@[simp] theorem current_setPoint (s : Server) (i : Nat) (p : Point) : (s.setPoint i p).current = s.current := rfl

@[simp] theorem current_answer (s : Server) (i : Nat) (outcome : Outcome) : (s.answer i outcome).current = s.current := rfl

theorem current_setConn_ne (s : Server) (c : Conn) (different : j ≠ i) : (s.setConn i c).current j = s.current j := by
  simp [Server.current,Server.setConn,different]

theorem current_setConn_self (s : Server) (c : Conn) (idle : ∀ req, c.phase ≠ .handling req) :
    (s.setConn i c).current i = none := by
  cases phase : c.phase with
  | handling req => exact absurd phase (idle req)
  | _ => simp [Server.current,Server.setConn,phase]

theorem points_setPoint_ne (s : Server) (p : Point) (different : j ≠ i) : (s.setPoint i p).points j = s.points j := by
  simp [Server.setPoint,different]

theorem points_answer_ne (s : Server) (outcome : Outcome) (different : j ≠ i) :
    (s.answer i outcome).points j = s.points j := points_setPoint_ne s _ different

@[simp] theorem points_setPoint_self (s : Server) (i : Nat) (p : Point) : (s.setPoint i p).points i = p := by
  simp [Server.setPoint]

@[simp] theorem points_answer_self (s : Server) (i : Nat) (outcome : Outcome) : (s.answer i outcome).points i = .done outcome :=
  points_setPoint_self s i _

variable {cfg : Config}

/-- A handler touches no other connection, and leaves its request at hand. -/
theorem Works.elsewhere (works : Works cfg s i req s') (different : j ≠ i) :
    s'.current j = s.current j ∧ s'.points j = s.points j := by
  cases works <;> exact ⟨rfl,points_setPoint_ne _ _ different⟩

/-- What a step may do to a connection: nothing, unless to end what it has at hand; take a
frame; or let its handler work. -/
theorem Steps.local (steps : Steps cfg s e s') (j : Nat) :
    ((s'.current j = none ∨ s'.current j = s.current j) ∧ s'.points j = s.points j) ∨
      (e = .frame j ∧ s'.points j = .start) ∨
      ∃ req input, e = .work j input ∧ s.current j = some req ∧ Works cfg s j req s' := by
  cases steps with
  | quiet i c idle other =>
    by_cases here : j = i
    · exact .inl ⟨.inl (here ▸ current_setConn_self s c idle),rfl⟩
    · exact .inl ⟨.inr (current_setConn_ne s c here),rfl⟩
  | frame i c =>
    by_cases here : j = i
    · exact .inr (.inl ⟨here ▸ rfl,here ▸ points_setPoint_self ..⟩)
    · exact .inl ⟨.inr (current_setConn_ne s c here),points_setPoint_ne _ _ here⟩
  | work i req current works =>
    by_cases here : j = i
    · subst here
      exact .inr (.inr ⟨req,_,rfl,current,works⟩)
    · exact .inl ((works.elsewhere here).imp_left .inr)
  | panicked i c idle =>
    by_cases here : j = i
    · exact .inl ⟨.inl (here ▸ current_setConn_self _ c idle),rfl⟩
    · exact .inl ⟨.inr (current_setConn_ne _ c here),rfl⟩
  | _ => exact .inl ⟨.inr rfl,rfl⟩

/-- Only `clear_drain` clears the bit. -/
theorem Steps.bit_kept (steps : Steps cfg s e s') (kept : e ≠ .clearDraining) (bit : s.ctrl.draining = true) :
    s'.ctrl.draining = true := by
  cases steps with
  | work _ _ _ works => cases works <;> first | exact bit | rfl
  | settled => rfl
  | clearedBit => contradiction
  | _ => exact bit

def Answered (Q : Bool → Request → Outcome → Prop) (s : Server) (j : Nat) : Prop :=
  ∀ req outcome, s.current j = some req → s.points j = .done outcome → Q s.ctrl.draining req outcome

theorem Steps.answered {Q : Bool → Request → Outcome → Prop} (steps : Steps cfg s e s') (kept : e ≠ .clearDraining)
    (mono : ∀ b b' req outcome, (b = true → b' = true) → Q b req outcome → Q b' req outcome)
    (fresh : ∀ req outcome, Works cfg s j req s' → s'.points j = .done outcome → Q s'.ctrl.draining req outcome)
    (before : Answered Q s j) : Answered Q s' j := by
  intro req outcome current done
  rcases steps.local j with ⟨gone | same,point⟩ | ⟨_,start⟩ | ⟨req',_,_,current',works⟩
  · simp [gone] at current
  · exact mono _ _ _ _ (steps.bit_kept kept) (before req outcome (same ▸ current) (point ▸ done))
  · simp [start] at done
  · have same : s'.current j = s.current j := by cases works <;> rfl
    obtain rfl := Option.some.inj ((same ▸ current).symm.trans current')
    exact fresh req outcome works done

/-- In the middle of `ProbeState::ready`. -/
def Point.reads : Point → Bool
  | .stateRead _ | .generationRead _ _ => true
  | _ => false

theorem Steps.unread (steps : Steps cfg s e s') (plain : cfg.probed = false) (before : (s.points j).reads = false) :
    (s'.points j).reads = false := by
  rcases steps.local j with ⟨_,point⟩ | ⟨_,start⟩ | ⟨_,_,_,_,works⟩
  · rw [point,before]
  · rw [start]; rfl
  · cases works with
    | stateRead _ probed => simp [plain] at probed
    | generationRead _ here => simp [here,Point.reads] at before
    | _ => simp [Point.reads]

end Locality

section Calls

def drainCall : Request := .call 1 methodDrain .null
def statusCall : Request := .call 2 methodStatus .null

def lifecycleCalls : List (List UInt8 × Value) :=
  [(JsonRpc.text "\x7b\"id\":1,\"jsonrpc\":\"2.0\",\"method\":\"Lifecycle.Drain\",\"params\":null\x7d",drainCall.toValue),
   (JsonRpc.text "\x7b\"id\":2,\"jsonrpc\":\"2.0\",\"method\":\"Lifecycle.Status\",\"params\":null\x7d",statusCall.toValue)]

def drainThenStatus (input : Input) (steps : Nat) : List Event :=
  [.receive 0 ((tableSerde lifecycleCalls).frame drainCall.toValue),.frame 0,.work 0 input,.work 0 input,.write 0,
    .receive 1 ((tableSerde lifecycleCalls).frame statusCall.toValue),.frame 1] ++
  List.replicate steps (.work 1 input) ++ [.write 1]

def quietInput : Input := ⟨[],7,0,.ok .null⟩

def lifecycleConfig (probed : Bool) : Config := ⟨Router.new.lifecycle,probed,"1.0"⟩

end Calls

end Malkuth.LifecycleRpc
