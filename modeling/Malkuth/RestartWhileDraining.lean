import Malkuth.Server

/-! Restart calls on a run that is being drained. `restart_payload` never reads the drain
bit: it relies on the phase the worker publishes, which the supervisor changes only when
it comes to notice the drain. -/
namespace Malkuth.Mcp

open Malkuth.Fleet Malkuth.DrainAuth Malkuth.Supervise Transition

def Phases.restartable (phases : Phases) (worker : String) : Bool :=
  (phases worker).any fun p => p.1 == .starting || p.1 == .running

/-- A restart call that is about to take its fleet snapshot. -/
def Call.snapshotting : Call → Option RestartArgs
  | .restart args (.snapshot _) => some args
  | _ => none

def Call.Found (specs : Specs) : Call → Prop
  | .restart args .checkFinished => (specs args.runId).isSome = true
  | _ => True

/-- The points from which a restart call cannot come to be accepted any more, if it does
not see the worker starting or running. -/
def RestartPoint.Refusing (worker : String) : RestartPoint → Prop
  | .locked _ phases => Phases.restartable phases worker = false
  | .consume _ | .notify | .answered (.ok _) => False
  | _ => True

def RestartPoint.rank : RestartPoint → Nat
  | .findRun => 7
  | .checkFinished => 6
  | .gate _ => 5
  | .snapshot _ => 4
  | .locked _ _ => 3
  | .consume _ => 2
  | .describe _ | .notify => 1
  | .answered _ => 0

namespace Server

/-- A call that begins with the drain bit set spends nothing, and its answer, which it
reaches by at most seven accesses that nothing holds up, is a refusal. -/
def DrainedRefuses (specs : Specs) (past : List (Taken Server Event)) (s : Server) : Prop :=
  ∀ before t after call args, past = before ++ t :: after → t.event = .restart call args →
    (t.pre.runs args.runId).drain.draining = true →
    (∀ u ∈ after, u.event.movesCall call = true → u.post.registry = u.pre.registry) ∧
    (after.countP fun u => u.event.movesCall call) ≤ 7 ∧
    ∃ point, s.calls call = .restart args point ∧
      ((∃ reason, point = .answered (.error reason)) ∨
        (point.rank ≠ 0 ∧ ∀ r, (step specs s (.advance call r)).isSome = true))

/-- No restart call takes its snapshot on a draining run while its worker is still shown
as starting or running. -/
def Noticed (s : Server) : Event → Prop
  | .advance call _ => ∀ args ∈ (s.calls call).snapshotting,
      (s.runs args.runId).drain.draining = true →
        Phases.restartable (s.runs args.runId).phases args.workerId = false
  | _ => True

instance (s : Server) : (e : Event) → Decidable (Noticed s e)
  | .advance call _ => inferInstanceAs (Decidable (∀ args ∈ (s.calls call).snapshotting,
      (s.runs args.runId).drain.draining = true →
        Phases.restartable (s.runs args.runId).phases args.workerId = false))
  | .supervise .. | .timeout _ | .conclude _ | .tick _ | .approve .. | .restart .. | .drain .. =>
    .isTrue trivial

/-- A refusing call makes one access at a time towards its refusal, and spends nothing. -/
theorem moves_refuses (moves : RestartMoves spec s args r point m point')
    (refusing : point.Refusing args.workerId)
    (noticed : ∀ proposal, point = .snapshot proposal →
      Phases.restartable (s.runs args.runId).phases args.workerId = false) :
    point'.Refusing args.workerId ∧ m.registry = s.registry ∧ point'.rank + 1 ≤ point.rank := by
  cases moves
  case snapshot proposal => exact ⟨noticed proposal rfl,rfl,by simp [RestartPoint.rank]⟩
  case accepted phases proposal ok =>
    obtain ⟨phase,count,shown,alive,_⟩ := accept_ok _ _ _ _ _ ok
    have restartable : Phases.restartable phases args.workerId = true := by
      rcases alive with rfl | rfl <;> simp [Phases.restartable,shown]
    simp [RestartPoint.Refusing,restartable] at refusing
  case refused reason before =>
    refine ⟨trivial,rfl,?_⟩
    cases point <;> simp [RestartPoint.mayRefuse,RestartPoint.rank] at before ⊢
  case spent | unspent | notified => exact refusing.elim
  all_goals exact ⟨trivial,rfl,by simp [RestartPoint.rank]⟩

theorem run_found (specs : Specs) (exec : Run (step specs) (initial start) past s) (call : Nat) :
    (s.calls call).Found specs := by
  apply exec.always (P := fun s => (s.calls call).Found specs) trivial
  intro s e s' before taken
  cases step_callMoves specs s s' e call taken with
  | kept _ same => rwa [same]
  | restart here moves =>
    simp only [setCall_calls,Function.update_self]
    cases moves with
    | found found => exact found
    | _ => trivial
  | restartBegun | drainBegun | drain => simp [Call.Found]

/-- Nothing holds a restart call up before it has answered. -/
theorem restart_enabled (specs : Specs) (s : Server) (call : Nat) (r : Readings)
    (here : s.calls call = .restart args point) (found : (s.calls call).Found specs)
    (unanswered : point.rank ≠ 0) : (step specs s (.advance call r)).isSome = true := by
  simp only [step,advance,here,Option.isSome_map]
  rw [here] at found
  cases point with
  | findRun => simp only [restartAdvance]; split <;> rfl
  | checkFinished =>
    obtain ⟨spec,known⟩ := Option.isSome_iff_exists.mp found
    simp only [restartAdvance,known]
    split
    · rfl
    · simp only [Option.bind_eq_bind,Option.bind_some]; split <;> rfl
  | gate proposal => simp only [restartAdvance]; split <;> rfl
  | snapshot proposal => rfl
  | locked proposal phases => simp only [restartAdvance]; split <;> rfl
  | describe code => rfl
  | consume proposal => simp only [restartAdvance]; split <;> rfl
  | notify => rfl
  | answered answer => simp [RestartPoint.rank] at unanswered

structure Refused (args : RestartArgs) (call : Nat) (after : List (Taken Server Event)) (s : Server)
    (point : RestartPoint) : Prop where
  here : s.calls call = .restart args point
  bit : (s.runs args.runId).drain.draining = true
  refusing : point.Refusing args.workerId
  bounded : (after.countP fun u => u.event.movesCall call) + point.rank ≤ 7
  unspent : ∀ u ∈ after, u.event.movesCall call = true → u.post.registry = u.pre.registry

theorem step_refused (specs : Specs) (refused : Refused args call after s point)
    (taken : step specs s e = some s') (noticed : Noticed s e) :
    ∃ point', Refused args call (after ++ [⟨s,e,s'⟩]) s' point' := by
  have bit := step_bit specs s s' e args.runId taken refused.bit
  cases step_callMoves specs s s' e call taken with
  | kept foreign same =>
    refine ⟨point,by rw [same,refused.here],bit,refused.refusing,?_,?_⟩
    · simpa [foreign] using refused.bounded
    · intro u member own
      rcases List.mem_append.mp member with old | new
      · exact refused.unspent u old own
      · obtain rfl := List.mem_singleton.mp new
        simp [foreign] at own
  | restartBegun free | drainBegun free => simp [refused.here] at free
  | @restart args' before r m point' at_ moves =>
    rw [refused.here] at at_
    cases at_
    have seen : ∀ proposal, point = .snapshot proposal →
        Phases.restartable (s.runs args.runId).phases args.workerId = false := by
      rintro proposal rfl
      exact noticed args (by simp [refused.here,Call.snapshotting]) refused.bit
    obtain ⟨refusing,registry,smaller⟩ := moves_refuses moves refused.refusing seen
    refine ⟨point',by simp,bit,refusing,?_,?_⟩
    · have bounded := refused.bounded
      have own : (Event.advance call r).movesCall call = true := by simp [Event.movesCall]
      simp only [List.countP_append,List.countP_singleton,own,if_true]
      omega
    · intro u member own
      rcases List.mem_append.mp member with old | new
      · exact refused.unspent u old own
      · obtain rfl := List.mem_singleton.mp new
        exact registry
  | drain at_ => simp [refused.here] at at_

theorem run_refused (specs : Specs) (exec : Run (step specs) m after s)
    (start : Refused args call [] m point) (noticed : ∀ u ∈ after, Noticed u.pre u.event) :
    ∃ point', Refused args call after s point' := by
  induction exec with
  | nil => exact ⟨point,start⟩
  | @snoc after m e m' _ taken ih =>
    obtain ⟨point',refused⟩ := ih fun u member => noticed u (by simp [member])
    exact step_refused specs refused taken (noticed ⟨m,e,m'⟩ (by simp))

/-- A restart that begins on a draining run is refused and spends nothing, provided that no
snapshot is taken while the worker still publishes that it is starting or running. -/
theorem drained_refuses (specs : Specs) (now : Nat) (past : List (Taken Server Event)) (s : Server)
    (exec : Run (step specs) (initial now) past s) (noticed : ∀ t ∈ past, Noticed t.pre t.event) :
    DrainedRefuses specs past s := by
  rintro before t after call args rfl begun bit
  obtain ⟨_,taken,rest⟩ := exec.split
  obtain ⟨m,e,m'⟩ := t
  obtain rfl : e = .restart call args := begun
  have start : Refused args call [] m' .findRun := by
    obtain ⟨_,rfl⟩ := begin_eq_some m taken
    exact ⟨by simp,bit,trivial,by simp [RestartPoint.rank],by simp⟩
  obtain ⟨point,refused⟩ := run_refused specs rest start fun u member => noticed u (by simp [member])
  refine ⟨refused.unspent,?_,point,refused.here,?_⟩
  · have bounded := refused.bounded
    omega
  · by_cases answered : point.rank = 0
    · left
      have refusing := refused.refusing
      cases point with
      | answered answer =>
        cases answer with
        | error reason => exact ⟨reason,rfl⟩
        | ok accepted => exact refusing.elim
      | _ => simp [RestartPoint.rank] at answered
    · right
      exact ⟨answered,fun r => restart_enabled specs s call r refused.here (run_found specs exec call) answered⟩

def drainBegun : List Event :=
  List.flatten [[.supervise "run-1" "api" .register,.supervise "run-1" "api" .checkDrain,
    .supervise "run-1" "api" (.spawned 101),.supervise "run-1" "api" (.publish 0 none),
    .approve ⟨"p1","api",none⟩ (.at 0),.approve ⟨"p2","api",none⟩ (.at 0),
    .drain 0 ⟨"run-1",none,some 0,some "p1",some "api"⟩],advances 0 5]

/-- The supervisor notices the drain, then a restart is asked for. -/
theorem drained_refuses_noticed : ∃ past s, Run (step twins) (initial 0) past s ∧
    restartAnswer s 1 = some (.error "worker_draining") ∧ DrainedRefuses twins past s := by
  obtain ⟨past,s,exec,answer,noticed⟩ := exists_run (step twins) (initial 0)
    (List.flatten [drainBegun,[.supervise "run-1" "api" .drainBranch,
      .supervise "run-1" "api" (.publish 0 none),.restart 1 ⟨"run-1","api",some "p2"⟩],advances 1 6])
    (fun past s => restartAnswer s 1 = some (.error "worker_draining") ∧
      ∀ t ∈ past, Noticed t.pre t.event) (by decide +kernel)
  exact ⟨past,s,exec,answer,drained_refuses twins 0 past s exec noticed⟩

def Event.begins : Event → Option (Nat × RestartArgs)
  | .restart call args => some (call,args)
  | _ => none

theorem Event.begins_eq_some (e : Event) (begun : e.begins = some (call,args)) : e = .restart call args := by
  cases e <;> simp_all [Event.begins]

/-- The bit is set and the supervisor has not noticed yet: the restart is accepted, and
spends its approval. -/
theorem accepted_while_draining : ¬ ∀ specs now past s, Run (step specs) (initial now) past s →
    DrainedRefuses specs past s := by
  intro refuses
  obtain ⟨past,s,exec,answer,t,found,begun,bit⟩ := exists_run (step twins) (initial 0)
    (List.flatten [drainBegun,[.restart 1 ⟨"run-1","api",some "p2"⟩],advances 1 7])
    (fun past s => restartAnswer s 1 = some (.ok ⟨"run-1","api"⟩) ∧
      ∃ t ∈ past, t.event.begins = some (1,⟨"run-1","api",some "p2"⟩) ∧
        (t.pre.runs "run-1").drain.draining = true) (by decide +kernel)
  obtain ⟨before,after,rfl⟩ := List.append_of_mem found
  obtain ⟨_,_,point,here,refused | ⟨running,_⟩⟩ :=
    refuses twins 0 _ s exec before t after 1 _ rfl (t.event.begins_eq_some begun) bit
  · obtain ⟨reason,rfl⟩ := refused
    simp [restartAnswer,here,Except.mapError] at answer
  · unfold restartAnswer at answer
    rw [here] at answer
    cases point <;> simp_all [RestartPoint.rank]

end Server

end Malkuth.Mcp
