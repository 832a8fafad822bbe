import Malkuth.RestartBook
import Malkuth.Transition

/-! Concurrent calls of `accept_restart` on one run. A call takes its fleet snapshot
first and enters the locked section later; in between the supervisor may publish
anything, except that published restart counts never decrease. -/
namespace Malkuth.Mcp

open Malkuth.Fleet Transition

inductive Caller where
  | idle
  | snapshotted (worker : String) (phases : Phases)
  | answered (worker : String) (answer : Except Refusal Unit)

structure Acceptance where
  fleet : Phases
  book : RestartBook
  callers : Nat → Caller

namespace Acceptance

inductive Event where
  | snapshot (caller : Nat) (worker : String)
  | locked (caller : Nat) (clock : Nat → Nat) (now : Nat)
  | publish (worker : String) (phase : WorkerPhase) (count : Nat)

def initial : Acceptance := ⟨fun _ => none,.default,fun _ => .idle⟩

def step (s : Acceptance) : Event → Option Acceptance
  | .snapshot caller worker =>
    match s.callers caller with
    | .idle => some { s with
        callers := Function.update s.callers caller (.snapshotted worker s.fleet) }
    | _ => none
  | .locked caller clock now =>
    match s.callers caller with
    | .snapshotted worker phases =>
      let (answer,book) := s.book.accept phases worker clock now
      some { s with book, callers := Function.update s.callers caller (.answered worker answer) }
    | _ => none
  | .publish worker phase count =>
    if (s.fleet worker).all fun old => old.2 ≤ count then
      some { s with fleet := Function.update s.fleet worker (some (phase,count)) }
    else none

/-- The worker and the answer of a call whose locked section this step is. -/
def answered (t : Taken Acceptance Event) : Option (String × Except Refusal Unit) :=
  match t.event with
  | .locked caller _ _ =>
    match t.post.callers caller with
    | .answered worker answer => some (worker,answer)
    | _ => none
  | _ => none

def publishedCount (s : Acceptance) (worker : String) : Option Nat := (s.fleet worker).map Prod.snd

def ended (s : Acceptance) (worker : String) : Bool := (s.fleet worker).any fun p => p.1 == .stopped

/-- While an accepted request stands, that is until its worker's published count moves,
no other call for the worker is accepted; unless the worker has ended, the code is
`already_restarting`. -/
def Exclusive (past : List (Taken Acceptance Event)) : Prop :=
  ∀ before t between u after worker answer,
    past = before ++ t :: (between ++ u :: after) →
    answered t = some (worker,.ok ()) → answered u = some (worker,answer) →
    (∀ v ∈ between, publishedCount v.post worker = publishedCount v.pre worker) →
    answer ≠ .ok () ∧ (ended u.pre worker = false → answer = .error .alreadyRestarting)

/-- The count of a worker and whether it has ended. -/
def view (published : Option (WorkerPhase × Nat)) : Option (Nat × Bool) :=
  published.map fun p => (p.2,p.1 == .stopped)

/-- The snapshot of a call is not behind for its own worker, nor for a worker with a
request pending at its published count. -/
def Caller.UpToDate (s : Acceptance) : Caller → Prop
  | .snapshotted worker phases =>
    view (phases worker) = view (s.fleet worker) ∧
      ∀ request ∈ s.book.pending, publishedCount s request.1 = some request.2 →
        view (phases request.1) = view (s.fleet request.1)
  | _ => True

/-- Locked sections run on a snapshot that is not behind, and `Stopped` is left only
with a new count. -/
def UpToDate (s : Acceptance) : Event → Prop
  | .snapshot _ _ => True
  | .locked caller _ _ => Caller.UpToDate s (s.callers caller)
  | .publish worker phase count => s.fleet worker = some (.stopped,count) → phase = .stopped

instance (s : Acceptance) : (c : Caller) → Decidable (Caller.UpToDate s c)
  | .idle => .isTrue trivial
  | .snapshotted _ _ => inferInstanceAs (Decidable (_ ∧ _))
  | .answered _ _ => .isTrue trivial

instance (s : Acceptance) : (e : Event) → Decidable (UpToDate s e)
  | .snapshot _ _ => .isTrue trivial
  | .locked caller _ _ => inferInstanceAs (Decidable (Caller.UpToDate s (s.callers caller)))
  | .publish _ _ _ => inferInstanceAs (Decidable (_ → _))

def Standing (s : Acceptance) (worker : String) : Prop :=
  ∃ phase count, s.fleet worker = some (phase,count) ∧
    (phase = .stopped ∨ (worker,count) ∈ s.book.pending)

theorem step_locked (s s' : Acceptance) (taken : step s (.locked caller clock now) = some s') :
    ∃ worker phases, s.callers caller = .snapshotted worker phases ∧
      s' = { s with
        book := (s.book.accept phases worker clock now).2
        callers := Function.update s.callers caller
          (.answered worker (s.book.accept phases worker clock now).1) } := by
  simp only [step] at taken
  split at taken
  next worker phases here => exact ⟨worker,phases,here,(Option.some.inj taken).symm⟩
  · contradiction

theorem answered_cases (t : Taken Acceptance Event) (taken : step t.pre t.event = some t.post)
    (found : answered t = some (worker,answer)) :
    ∃ caller clock now phases, t.event = .locked caller clock now ∧
      t.pre.callers caller = .snapshotted worker phases ∧
      answer = (t.pre.book.accept phases worker clock now).1 ∧
      t.post.book = (t.pre.book.accept phases worker clock now).2 ∧ t.post.fleet = t.pre.fleet := by
  obtain ⟨s,e,s'⟩ := t
  cases e with
  | snapshot | publish => simp [answered] at found
  | locked caller clock now =>
    obtain ⟨other,phases,here,rfl⟩ := step_locked s s' taken
    simp only [answered,Function.update_self,Option.some.injEq,Prod.mk.injEq] at found
    obtain ⟨rfl,rfl⟩ := found
    exact ⟨caller,clock,now,phases,rfl,here,rfl,rfl,rfl⟩

theorem unsettled_of_view (published : view (phases worker) = view (some (phase,count)))
    (alive : phase ≠ .stopped) : unsettled phases (worker,count) = true := by
  obtain ⟨⟨seen,shown⟩,found,same⟩ := Option.map_eq_some_iff.mp published
  obtain ⟨rfl,stopped⟩ := Prod.mk.inj same
  simp only [unsettled,found]
  cases seen <;> simp_all

/-- What an up-to-date step does to a standing request of a worker whose count it keeps. -/
theorem step_standing (s : Acceptance) (e : Event) (s' : Acceptance) (taken : step s e = some s')
    (current : UpToDate s e) (kept : publishedCount s' worker = publishedCount s worker)
    (standing : Standing s worker) : Standing s' worker := by
  obtain ⟨phase,count,published,settled⟩ := standing
  cases e with
  | snapshot caller other =>
    simp only [step] at taken
    split at taken
    · obtain rfl := Option.some.inj taken; exact ⟨phase,count,published,settled⟩
    · contradiction
  | locked caller clock now =>
    obtain ⟨other,phases,here,rfl⟩ := step_locked s s' taken
    refine ⟨phase,count,published,?_⟩
    by_cases stopped : phase = .stopped
    · exact .inl stopped
    · have member := settled.resolve_left stopped
      simp only [UpToDate,here,Caller.UpToDate] at current
      have shown := current.2 _ member (by simp [publishedCount,published])
      rw [published] at shown
      have still : (worker,count) ∈ (s.book.settle phases clock).pending :=
        (mem_settle_pending ..).mpr ⟨member,unsettled_of_view shown stopped⟩
      right
      cases answer : (s.book.accept phases other clock now).1 with
      | error code => simpa [accept_error _ _ _ _ _ answer] using still
      | ok _ =>
        obtain ⟨_,_,_,_,_,book⟩ := accept_ok _ _ _ _ _ answer
        simp [book,still]
  | publish other phase' count' =>
    simp only [step] at taken
    split at taken
    next grows =>
      obtain rfl := Option.some.inj taken
      by_cases same : worker = other
      · subst same
        have unmoved : count' = count := by simpa [publishedCount,published] using kept
        subst unmoved
        refine ⟨phase',count',by simp,?_⟩
        rcases settled with rfl | member
        · exact .inl (current published)
        · exact .inr member
      · exact ⟨phase,count,by simpa [Function.update_of_ne same] using published,settled⟩
    · contradiction

/-- Acceptance on an up-to-date snapshot records the published count. -/
theorem accepted_standing (t : Taken Acceptance Event) (taken : step t.pre t.event = some t.post)
    (current : UpToDate t.pre t.event) (accepted : answered t = some (worker,.ok ())) :
    Standing t.post worker := by
  obtain ⟨caller,clock,now,phases,event,here,ok,book,fleet⟩ := answered_cases t taken accepted
  obtain ⟨phase,count,shown,_,_,recorded⟩ := accept_ok _ _ _ _ _ ok.symm
  rw [event] at current
  simp only [UpToDate,here,Caller.UpToDate,shown] at current
  obtain ⟨⟨published,_⟩,found,same⟩ := Option.map_eq_some_iff.mp current.1.symm
  obtain ⟨rfl,_⟩ := Prod.mk.inj same
  exact ⟨published,_,by rw [fleet,found],.inr (by simp [book,recorded])⟩

theorem run_standing (run : Run step s past s') (current : ∀ t ∈ past, UpToDate t.pre t.event)
    (kept : ∀ t ∈ past, publishedCount t.post worker = publishedCount t.pre worker)
    (standing : Standing s worker) : Standing s' worker := by
  induction run with
  | nil => exact standing
  | @snoc past m e m' _ taken ih =>
    have before := ih (fun t member => current t (by simp [member])) (fun t member => kept t (by simp [member]))
    exact step_standing m e m' taken (current ⟨m,e,m'⟩ (by simp)) (kept ⟨m,e,m'⟩ (by simp)) before

theorem standing_refused (t : Taken Acceptance Event) (taken : step t.pre t.event = some t.post)
    (current : UpToDate t.pre t.event) (standing : Standing t.pre worker)
    (found : answered t = some (worker,answer)) :
    answer ≠ .ok () ∧ (ended t.pre worker = false → answer = .error .alreadyRestarting) := by
  obtain ⟨caller,clock,now,phases,event,here,rfl,_⟩ := answered_cases t taken found
  obtain ⟨phase,count,published,settled⟩ := standing
  rw [event] at current
  simp only [UpToDate,here,Caller.UpToDate,published] at current
  by_cases stopped : phase = .stopped
  · refine ⟨?_,by simp [ended,published,stopped]⟩
    intro ok
    obtain ⟨seen,_,shown,alive,_⟩ := accept_ok _ _ _ _ _ ok
    have same := current.1
    rcases alive with rfl | rfl <;> simp [shown,view,stopped] at same
  · have refused := accept_pending t.pre.book phases worker clock now
      ((mem_settle_pending ..).mpr
        ⟨settled.resolve_left stopped,unsettled_of_view current.1 stopped⟩)
    exact ⟨by simp [refused],fun _ => refused⟩

/-- Of the calls for one worker at most one is accepted at each published count, if no
locked section works on a snapshot that is behind. -/
theorem exclusive_acceptance (past : List (Taken Acceptance Event)) (s : Acceptance)
    (run : Run step initial past s) (current : ∀ t ∈ past, UpToDate t.pre t.event) :
    Exclusive past := by
  rintro before t between u after worker answer rfl accepted refused kept
  obtain ⟨_,taken,rest⟩ := run.split
  have standing := accepted_standing t taken (current t (by simp)) accepted
  obtain ⟨middle,next,_⟩ := rest.split
  have still := run_standing middle (fun v member => current v (by simp [member])) kept standing
  exact standing_refused u next (current u (by simp)) still refused

/-- Two callers at one count, and a third after the restart was published. -/
theorem exclusive_acceptance_in_turn : ∃ past s, Run step initial past s ∧
    past.filterMap answered = [("api",.ok ()),("api",.error .alreadyRestarting),("api",.ok ())] ∧
    Exclusive past := by
  obtain ⟨past,s,run,answers,current⟩ := exists_run step initial
    [.publish "api" .running 0,.snapshot 0 "api",.snapshot 1 "api",.locked 0 (fun _ => 0) 0,
      .locked 1 (fun _ => 0) 0,.publish "api" .running 1,.snapshot 2 "api",.locked 2 (fun _ => 0) 0]
    (fun past _ => past.filterMap answered =
        [("api",.ok ()),("api",.error .alreadyRestarting),("api",.ok ())] ∧
      ∀ t ∈ past, UpToDate t.pre t.event) (by decide +kernel)
  exact ⟨past,s,run,answers,exclusive_acceptance past s run current⟩

/-- A snapshot taken before the count moved: its locked section settles the request that
was accepted since, and accepts another one at the same published count. -/
theorem stale_snapshot_accepted : ¬ ∀ past s, Run step initial past s → Exclusive past := by
  intro exclusive
  obtain ⟨past,s,run,fact⟩ := exists_run step initial
    [.publish "api" .running 0,.snapshot 0 "api",.publish "api" .running 1,.snapshot 1 "api",
      .locked 1 (fun _ => 0) 0,.locked 0 (fun _ => 0) 0]
    (fun past _ => (past.drop 4).map answered = [some ("api",.ok ()),some ("api",.ok ())]) (by decide +kernel)
  obtain ⟨t,rest,last,first,others⟩ := List.map_eq_cons_iff.mp fact
  obtain ⟨u,none,rfl,second,empty⟩ := List.map_eq_cons_iff.mp others
  obtain rfl := List.map_eq_nil_iff.mp empty
  have cut : past = past.take 4 ++ t :: ([] ++ u :: []) := by
    rw [List.nil_append,← last,List.take_append_drop]
  exact (exclusive past s run _ t [] u [] "api" _ cut first second (by simp)).1 rfl

end Acceptance

end Malkuth.Mcp
