import Malkuth.Server

/-! What a refused restart leaves behind. `restart_payload` asks the gate, records the
request and spends the approval in three critical sections; a refusal by the last one
comes after the second has recorded. -/
namespace Malkuth.Mcp

open Malkuth.DrainAuth Transition

/-- The request is recorded in the book, and not refused since. -/
def RestartPoint.accepted : RestartPoint → Bool
  | .consume _ | .notify | .answered (.ok _) => true
  | _ => false

/-- The pair whose approval a restart call is about to spend. -/
def Call.spending : Call → Option (String × String)
  | .restart args (.consume proposal) => some (proposal,args.workerId)
  | _ => none

theorem Call.spending_eq_some (c : Call) (spending : pair ∈ c.spending) :
    ∃ args proposal, c = .restart args (.consume proposal) ∧ pair = (proposal,args.workerId) := by
  unfold Call.spending at spending
  split at spending
  · exact ⟨_,_,rfl,by simpa using spending.symm⟩
  · simp at spending

namespace Server

/-- No approval is spent and nothing is recorded in any book; entries may be settled. -/
def Harmless (s m : Server) : Prop :=
  m.registry = s.registry ∧ ∀ run,
    (m.runs run).book.pending.Sublist (s.runs run).book.pending ∧
    (m.runs run).book.stamps.Sublist (s.runs run).book.stamps

/-- Every step this call has made was harmless. -/
def Clean (past : List (Taken Server Event)) (call : Nat) : Prop :=
  ∀ t ∈ past, t.event.movesCall call = true → Harmless t.pre t.post

/-- A call that has answered `ok: false` has recorded and spent nothing. -/
def RefusalsHarmless (past : List (Taken Server Event)) (s : Server) : Prop :=
  ∀ call args reason, s.calls call = .restart args (.answered (.error reason)) → Clean past call

def StillApproved (s : Server) : Event → Prop
  | .advance call r => ∀ pair ∈ (s.calls call).spending,
      status Limits.global s.registry pair.1 pair.2 (r.wall 0) = .approved
  | _ => True

instance (s : Server) : (e : Event) → Decidable (StillApproved s e)
  | .advance call r => inferInstanceAs (Decidable (∀ pair ∈ (s.calls call).spending,
      status Limits.global s.registry pair.1 pair.2 (r.wall 0) = .approved))
  | .supervise .. | .timeout _ | .conclude _ | .tick _ | .approve .. | .restart .. | .drain .. =>
    .isTrue trivial

theorem Harmless.refl (s : Server) : Harmless s s := ⟨rfl,fun _ => ⟨.refl _,.refl _⟩⟩

theorem harmless_settle (s : Server) (run : String) (phases : Phases) (clock : Nat → Nat) :
    Harmless s (s.setRun run { s.runs run with book := (s.runs run).book.settle phases clock }) := by
  refine ⟨rfl,fun other => ?_⟩
  by_cases same : other = run
  · subst same
    simpa using settle_sublist (s.runs other).book phases clock
  · simp [same]

theorem clean_snoc : Clean (past ++ [t]) call ↔
    Clean past call ∧ (t.event.movesCall call = true → Harmless t.pre t.post) := by
  simp only [Clean,List.mem_append,List.mem_singleton]
  constructor
  · intro all
    exact ⟨fun u member => all u (.inl member),all t (.inr rfl)⟩
  · rintro ⟨old,new⟩ u (member | rfl)
    · exact old u member
    · exact new

/-- A move to a point that is not accepted was harmless; it began at such a point, unless
the approval was lost since the gate was asked. -/
theorem moves_refusing (moves : RestartMoves spec s args r point m point')
    (refused : point'.accepted = false) :
    Harmless s m ∧ (point.accepted = true → ∃ proposal, point = .consume proposal ∧
      status Limits.global s.registry proposal args.workerId (r.wall 0) ≠ .approved) := by
  cases moves
  case accepted | spent | notified => simp [RestartPoint.accepted] at refused
  case blocked code phases proposal error => exact ⟨harmless_settle ..,by simp [RestartPoint.accepted]⟩
  case unspent proposal refusal error =>
    refine ⟨.refl s,fun _ => ⟨proposal,rfl,fun still => ?_⟩⟩
    have spent := (consume_ok_iff Limits.global s.registry proposal args.workerId (r.wall 0) (r.wall 1)).mpr still
    rw [error] at spent
    contradiction
  case refused reason before =>
    refine ⟨.refl s,fun accepted => ?_⟩
    cases point <;> simp [RestartPoint.accepted,RestartPoint.mayRefuse] at accepted before
  all_goals exact ⟨.refl s,by simp [RestartPoint.accepted]⟩

/-- A call that has not been accepted has done nothing so far. -/
def Untouched (past : List (Taken Server Event)) (call : Nat) : Call → Prop
  | .idle => Clean past call
  | .restart _ point => point.accepted = false → Clean past call
  | .drain _ _ => True

theorem Untouched.kept (before : Untouched past call c) (foreign : t.event.movesCall call = false) :
    Untouched (past ++ [t]) call c := by
  have snoc : Clean past call → Clean (past ++ [t]) call := fun clean =>
    clean_snoc.mpr ⟨clean,by simp [foreign]⟩
  cases c with
  | idle => exact snoc before
  | restart args point => exact fun refused => snoc (before refused)
  | drain args point => trivial

theorem run_untouched (specs : Specs) (exec : Run (step specs) (initial start) past s)
    (still : ∀ t ∈ past, StillApproved t.pre t.event) (call : Nat) : Untouched past call (s.calls call) := by
  induction exec with
  | nil => simp [initial,Untouched,Clean]
  | @snoc past m e m' _ taken ih =>
    have before := ih fun t member => still t (by simp [member])
    have open_ := still ⟨m,e,m'⟩ (by simp)
    cases step_callMoves specs m m' e call taken with
    | kept foreign same =>
      rw [same]
      exact before.kept foreign
    | restartBegun free =>
      rw [free] at before
      simp only [setCall_calls,Function.update_self]
      exact fun _ => clean_snoc.mpr ⟨before,by simp [Event.movesCall]⟩
    | @restart args point r n point' here moves =>
      simp only [setCall_calls,Function.update_self]
      intro refused
      obtain ⟨harmless,lost⟩ := moves_refusing moves refused
      rw [here] at before
      have outside : point.accepted = false := by
        by_contra accepted
        obtain ⟨proposal,rfl,closed⟩ := lost (by simpa using accepted)
        exact closed (open_ (proposal,args.workerId) (by simp [here,Call.spending]))
      exact clean_snoc.mpr ⟨before outside,fun _ => harmless⟩
    | drainBegun | drain => simp [Untouched]

/-- An accepted call has recorded its request: one of its steps was not harmless. -/
theorem run_recorded (specs : Specs) (exec : Run (step specs) (initial start) past s)
    (here : s.calls call = .restart args point) (accepted : point.accepted = true) :
    ¬ Clean past call := by
  induction exec generalizing args point with
  | nil => simp [initial] at here
  | @snoc past m e m' _ taken ih =>
    rw [clean_snoc]
    rintro ⟨clean,harmless⟩
    cases step_callMoves specs m m' e call taken with
    | kept foreign same => exact ih (same ▸ here) accepted clean
    | restartBegun free =>
      simp only [setCall_calls,Function.update_self,Call.restart.injEq] at here
      simp [← here.2,RestartPoint.accepted] at accepted
    | @restart args' point' r n point'' before moves =>
      simp only [setCall_calls,Function.update_self,Call.restart.injEq] at here
      obtain ⟨rfl,rfl⟩ := here
      cases moves with
      | accepted ok =>
        have sublist := ((harmless (by simp [Event.movesCall])).2 args'.runId).1
        simp only [setCall_runs,setRun_runs,Function.update_self] at sublist
        exact accept_ok_fresh _ _ _ _ _ ok sublist
      | spent | notified => exact ih before rfl clean
      | _ => simp [RestartPoint.accepted] at accepted
    | drainBegun | drain => simp at here

theorem run_answered (specs : Specs) (exec : Run (step specs) m past s)
    (answered : m.calls call = .restart args (.answered answer)) :
    s.calls call = .restart args (.answered answer) := by
  apply exec.always (P := fun s => s.calls call = .restart args (.answered answer)) answered
  intro s e s' here taken
  cases step_callMoves specs s s' e call taken with
  | kept _ same => rw [same,here]
  | restartBegun free | drainBegun free => simp [free] at here
  | restart at_ moves =>
    rw [here] at at_
    cases at_
    cases moves with
    | refused _ before => simp [RestartPoint.mayRefuse] at before
  | drain at_ => simp [here] at at_

/-- A call whose approval is gone when it comes to spend it is refused. -/
theorem lost_approval (specs : Specs) (s s' : Server) (taken : step specs s (.advance call r) = some s')
    (here : s.calls call = .restart args (.consume proposal))
    (closed : status Limits.global s.registry proposal args.workerId (r.wall 0) ≠ .approved) :
    ∃ reason, s'.calls call = .restart args (.answered (.error reason)) := by
  cases step_callMoves specs s s' _ call taken with
  | kept foreign _ => simp [Event.movesCall] at foreign
  | restart at_ moves =>
    rw [here] at at_
    cases at_
    cases moves with
    | spent ok => exact absurd ((consume_ok_iff ..).mp ok) closed
    | unspent error => exact ⟨_,Function.update_self ..⟩
    | refused _ before => simp [RestartPoint.mayRefuse] at before
  | drain at_ => simp [here] at at_

/-- Refused calls leave books and approvals alone exactly in the runs in which every call
that comes to spend its approval still finds it live. -/
theorem refusals_harmless_iff (specs : Specs) (now : Nat) (past : List (Taken Server Event)) (s : Server)
    (exec : Run (step specs) (initial now) past s) :
    RefusalsHarmless past s ↔ ∀ t ∈ past, StillApproved t.pre t.event := by
  constructor
  · intro harmless t member
    obtain ⟨before,after,rfl⟩ := List.append_of_mem member
    obtain ⟨front,taken,rest⟩ := exec.split
    obtain ⟨m,e,m'⟩ := t
    cases e with
    | advance call r =>
      intro pair spending
      by_contra closed
      obtain ⟨args,proposal,here,rfl⟩ := Call.spending_eq_some _ spending
      obtain ⟨reason,answered⟩ := lost_approval specs m m' taken here closed
      have clean := harmless call args reason (run_answered specs rest answered)
      exact run_recorded specs front here rfl fun u old => clean u (by simp [old])
    | _ => trivial
  · intro still call args reason refused
    have untouched := run_untouched specs exec still call
    rw [refused] at untouched
    exact untouched rfl

/-- One approval, a call that spends it and a second call that is refused at the gate. -/
theorem refusals_harmless_in_turn : ∃ past s, Run (step twins) (initial 0) past s ∧
    restartAnswer s 1 = some (.error "approval_consumed") ∧ RefusalsHarmless past s := by
  obtain ⟨past,s,exec,refused,still⟩ := exists_run (step twins) (initial 0)
    (List.flatten [[.supervise "run-1" "api" .register,.approve ⟨"p1","api",none⟩ (.at 0),
        .restart 0 ⟨"run-1","api",some "p1"⟩],advances 0 7,
      [.restart 1 ⟨"run-2","api",some "p1"⟩],advances 1 3])
    (fun past s => restartAnswer s 1 = some (.error "approval_consumed") ∧
      ∀ t ∈ past, StillApproved t.pre t.event) (by decide +kernel)
  exact ⟨past,s,exec,refused,(refusals_harmless_iff twins 0 past s exec).mpr still⟩

/-- Two runs share a worker id and an approval. Both calls find the gate open and both
are recorded; the second one comes too late to spend. -/
theorem refused_but_recorded : ¬ ∀ specs now past s, Run (step specs) (initial now) past s →
    RefusalsHarmless past s := by
  intro harmless
  obtain ⟨past,s,exec,refused,t,member,own,empty,recorded⟩ := exists_run (step twins) (initial 0)
    (List.flatten [[.supervise "run-1" "api" .register,.supervise "run-2" "api" .register,
        .approve ⟨"p1","api",none⟩ (.at 0),
        .restart 0 ⟨"run-1","api",some "p1"⟩,.restart 1 ⟨"run-2","api",some "p1"⟩],
      advances 0 5,advances 1 5,advances 0 1,advances 1 1])
    (fun past s => restartAnswer s 1 = some (.error "approval_consumed") ∧
      ∃ t ∈ past, t.event.movesCall 1 = true ∧ (t.pre.runs "run-2").book.pending = [] ∧
        (t.post.runs "run-2").book.pending = [("api",0)]) (by decide +kernel)
  unfold restartAnswer at refused
  split at refused
  next args answer answered =>
    cases answer with
    | ok accepted => simp [Except.mapError] at refused
    | error reason =>
      have sublist := ((harmless twins 0 past s exec 1 args reason answered t member own).2 "run-2").1
      simp [empty,recorded] at sublist
  · contradiction

end Server

end Malkuth.Mcp
