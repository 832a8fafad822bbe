import Malkuth.Lifecycle
import Malkuth.Transition

/-! `Supervised::serve_rpc_listener` of `service.rs`: the accept loop raced against the exit
source, and then the drain hooks. Connections arrive, calls come in on the accepted ones, and
anybody with a clone of the controller may begin a drain; the serving task itself acts only
when it is polled. What an exit source does when it is polled is an event, so it may be any. -/
namespace Malkuth.Service

open Transition Lifecycle

/-- The lifecycle methods of `Router::lifecycle`; the others do not touch the controller. -/
inductive Method where
  | drain
  | reload
  | other
  deriving DecidableEq, Repr

/-- `begin_drain`; the serving task reads neither store, so they are one step here. -/
def beginDrain (c : DrainController) (kind : ShutdownKind) : DrainController :=
  if kind.causesDrain then (c.storeKind kind).storeDraining else c.storeKind kind

def Method.handle (c : DrainController) : Method → DrainController
  | .drain => beginDrain c .graceful
  | .reload => beginDrain c .reload
  | .other => c

/-- One poll of `exit.wait(ctrl)`: the drains it begins, and whether it returns. -/
structure ExitPoll where
  begun : List ShutdownKind
  returned : Bool
  deriving DecidableEq, Repr

inductive Signal where
  | int
  | term
  | quit
  | hup
  deriving DecidableEq, Repr

/-- `SignalExitSource::wait` on the signals it receives in one poll, in the order in which
its `select!` takes them. -/
def signalPoll : List Signal → ExitPoll
  | [] => ⟨[],false⟩
  | .int :: _ | .term :: _ => ⟨[.graceful],true⟩
  | .quit :: _ => ⟨[.immediate],true⟩
  | .hup :: signals =>
    let rest := signalPoll signals
    ⟨.reload :: rest.begun,rest.returned⟩

/-- One poll of the `select!`, which picks the order of its branches at random. The accept
loop takes connections until it has to wait; a failed accept is only logged. -/
structure Poll where
  exitFirst : Bool
  accepts : Nat
  /-- Nothing if there is no exit source. -/
  exit : Option ExitPoll
  deriving DecidableEq, Repr

def Poll.returned (p : Poll) : Bool := p.exit.any ExitPoll.returned

inductive Phase where
  | serving
  /-- The listener is dropped; so many drain hooks are left. -/
  | hooks (left : Nat)
  | done
  deriving DecidableEq, Repr

/-- `exit` says whether there is an exit source, `hooks` how many drain hooks there are. -/
structure State where
  exit : Bool
  hooks : Nat
  phase : Phase
  drain : DrainController
  backlog : Nat
  accepted : Nat
  deriving DecidableEq, Repr

inductive Event where
  | connect
  /-- A call on an accepted connection. -/
  | rpc (method : Method)
  | beginDrain (kind : ShutdownKind)
  | poll (p : Poll)
  /-- A poll after the `select!`, in which the next hook returns or not. -/
  | hook (returned : Bool)
  deriving DecidableEq, Repr

def State.poll (s : State) (p : Poll) : Option State :=
  if s.phase = .serving ∧ p.exit.isSome = s.exit ∧ p.accepts ≤ s.backlog then
    let accepts := if p.returned && p.exitFirst then 0 else p.accepts
    some { s with
      phase := if p.returned then .hooks s.hooks else .serving
      drain := (p.exit.elim [] ExitPoll.begun).foldl Service.beginDrain s.drain
      backlog := if p.returned then 0 else s.backlog - accepts
      accepted := s.accepted + accepts }
  else none

def step (s : State) : Event → Option State
  -- without a listener a connection is refused
  | .connect => some (if s.phase = .serving then { s with backlog := s.backlog + 1 } else s)
  | .rpc method => if 0 < s.accepted then some { s with drain := method.handle s.drain } else none
  | .beginDrain kind => some { s with drain := Service.beginDrain s.drain kind }
  | .poll p => s.poll p
  | .hook returned =>
    match s.phase with
    | .serving | .done => none
    | .hooks 0 => some { s with phase := .done }
    | .hooks (left + 1) => some (if returned then { s with phase := .hooks left } else s)

def initial (exit : Bool) (hooks : Nat) : State := ⟨exit,hooks,.serving,.new,0,0⟩

/-- The serving task is polled. -/
def Event.polls : Event → Bool
  | .poll _ | .hook _ => true
  | _ => false

def Event.exits : Event → Bool
  | .poll p => p.returned
  | _ => false

/-- The accept loop goes on until the exit source returns, and from then on not at all. -/
theorem step_serving (s s' : State) (e : Event) (taken : step s e = some s') :
    (s'.phase = .serving ↔ s.phase = .serving ∧ e.exits = false) ∧
    (s.phase ≠ .serving → s'.accepted = s.accepted) ∧ s'.exit = s.exit := by
  cases e with
  | connect =>
    obtain rfl := Option.some.inj taken
    by_cases serving : s.phase = .serving <;> simp [serving,Event.exits]
  | rpc method =>
    obtain ⟨_,rfl⟩ := Option.ite_some_none_eq_some.mp taken
    simp [Event.exits]
  | beginDrain kind =>
    obtain rfl := Option.some.inj taken
    simp [Event.exits]
  | poll p =>
    obtain ⟨⟨serving,_,_⟩,rfl⟩ := Option.ite_some_none_eq_some.mp taken
    cases returned : p.returned <;> simp [serving,Event.exits,returned]
  | hook returned =>
    simp only [step] at taken
    split at taken
    · contradiction
    · contradiction
    next gone =>
      obtain rfl := Option.some.inj taken
      simp [gone]
    next left gone =>
      obtain rfl := Option.some.inj taken
      cases returned <;> simp [gone]

/-- Serving means that the exit source has not returned yet. -/
theorem run_serving (run : Run step (initial exit hooks) past s) :
    (s.phase = .serving ↔ ∀ t ∈ past, t.event.exits = false) ∧ s.exit = exit := by
  induction run with
  | nil => simp [initial]
  | snoc _ taken ih =>
    obtain ⟨serving,_,config⟩ := step_serving _ _ _ taken
    refine ⟨?_,config.trans ih.2⟩
    rw [serving,ih.1,List.forall_mem_append,List.forall_mem_singleton]

/-- Once the accept loop has ended, no run accepts anything. -/
theorem run_accepts_nothing (run : Run step s past s') (ended : s.phase ≠ .serving) :
    s'.phase ≠ .serving ∧ s'.accepted = s.accepted := by
  induction run with
  | nil => exact ⟨ended,rfl⟩
  | snoc _ taken ih =>
    obtain ⟨serving,kept,_⟩ := step_serving _ _ _ taken
    exact ⟨fun still => ih.1 (serving.mp still).1,(kept ih.1).trans ih.2⟩

/-- A serving task takes the next connection that comes. -/
theorem serving_accepts (s : State) (serving : s.phase = .serving) :
    ∃ past s', Run step s past s' ∧ s'.accepted = s.accepted + 1 := by
  let connected : State := { s with backlog := s.backlog + 1 }
  let p : Poll := ⟨false,1,if s.exit then some ⟨[],false⟩ else none⟩
  have pending : p.returned = false := by cases exit : s.exit <;> simp [p,Poll.returned,exit]
  have enabled : p.exit.isSome = s.exit := by cases exit : s.exit <;> simp [p,exit]
  have first : step s .connect = some connected := by simp [step,serving,connected]
  have second : ∃ s', step connected (.poll p) = some s' ∧ s'.accepted = s.accepted + 1 := by
    refine ⟨_,if_pos ⟨serving,enabled,by simp [p,connected]⟩,?_⟩
    simp [pending,p,connected]
  obtain ⟨s',polled,one⟩ := second
  exact ⟨_,s',Run.cons first (Run.one polled),one⟩

/-- The serving task is polled at `t`, with the drain bit set. -/
def PolledDraining (t : Taken State Event) : Prop := t.pre.drain.draining = true ∧ t.event.polls = true

instance (t : Taken State Event) : Decidable (PolledDraining t) :=
  inferInstanceAs (Decidable (_ ∧ _))

def QuietOnceDraining (past : List (Taken State Event)) : Prop :=
  ∀ front t back, past = front ++ t :: back → PolledDraining t →
    ∀ later s, Run step t.post later s → s.accepted = t.post.accepted

def ExitAnswersDrain (past : List (Taken State Event)) : Prop :=
  ∀ front t back, past = front ++ t :: back → PolledDraining t → ∃ u ∈ front ++ [t], u.event.exits = true

/-- A drain stops the accept loop exactly if the exit source returns for it: whoever else set
the bit does not matter. -/
theorem accepts_nothing_iff (exit : Bool) (hooks : Nat) (past : List (Taken State Event)) (s : State)
    (run : Run step (initial exit hooks) past s) : QuietOnceDraining past ↔ ExitAnswersDrain past := by
  constructor
  · intro quiet front t back cut polled
    subst cut
    obtain ⟨before,taken,_⟩ := run.split
    by_contra never
    have serving : t.post.phase = .serving := (run_serving (before.snoc taken)).1.mpr fun u member => by
      by_contra exits
      exact never ⟨u,member,by simpa using exits⟩
    obtain ⟨later,s'',rest,one⟩ := serving_accepts t.post serving
    have same := quiet front t back rfl polled later s'' rest
    omega
  · intro answers front t back cut polled later s'' rest
    obtain ⟨u,member,exits⟩ := answers front t back cut polled
    subst cut
    obtain ⟨before,taken,_⟩ := run.split
    have ended : t.post.phase ≠ .serving := by
      intro serving
      have silent := (run_serving (before.snoc taken)).1.mp serving u member
      rw [exits] at silent
      contradiction
    exact (run_accepts_nothing rest ended).2

/-- The signal source returns for the drains it begins itself, and for no other. -/
theorem signalPoll_returned (signals : List Signal) :
    (signalPoll signals).returned = (signalPoll signals).begun.any ShutdownKind.causesDrain := by
  induction signals with
  | nil => rfl
  | cons signal signals ih => cases signal <;> simp [signalPoll,ShutdownKind.causesDrain,ih]

/-- A drain by RPC with an exit source that waits for the controller: it returns in the next
poll, and the connection that came meanwhile is refused. -/
theorem accepts_nothing_watched : ∃ past s, Run step (initial true 1) past s ∧
    (∃ t ∈ past, PolledDraining t) ∧ s.accepted = 1 ∧ QuietOnceDraining past := by
  obtain ⟨past,s,run,polled,one,exits⟩ := exists_run step (initial true 1)
    [.connect,.poll ⟨false,1,some (signalPoll [.hup])⟩,.rpc .drain,.connect,.poll ⟨true,1,some ⟨[],true⟩⟩]
    (fun past s => (∃ t ∈ past, PolledDraining t) ∧ s.accepted = 1 ∧
      ∀ t ∈ past, PolledDraining t → t.event.exits = true) (by decide +kernel)
  have answers : ExitAnswersDrain past := by
    rintro front t back rfl draining
    exact ⟨t,by simp,exits t (by simp) draining⟩
  exact ⟨past,s,run,polled,one,(accepts_nothing_iff true 1 past s run).mpr answers⟩

/-- `Lifecycle.Drain` on a service with the signal source: the task is polled, and the next
connection is accepted all the same. -/
theorem accepts_after_drain :
    ¬ ∀ exit hooks past s, Run step (initial exit hooks) past s → QuietOnceDraining past := by
  intro quiet
  obtain ⟨before,t,after,s,run,_,polled,more⟩ := exists_run_cut step (initial true 0)
    [.connect,.poll ⟨false,1,some (signalPoll [])⟩,.rpc .drain] (.poll ⟨false,0,some (signalPoll [])⟩)
    [.connect,.poll ⟨false,1,some (signalPoll [])⟩]
    (fun _ t _ s => PolledDraining t ∧ s.accepted ≠ t.post.accepted) (by decide +kernel)
  exact more (quiet true 0 _ s run before t after rfl polled after s run.split.2.2)

end Malkuth.Service
