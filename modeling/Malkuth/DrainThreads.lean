import Malkuth.Lifecycle
import Malkuth.Transition

/-! `DrainController` under any number of threads. Each of `begin_drain`, `clear_drain`,
`wait_for_drain` and `wait_for_signal` is the sequence of its atomic steps, and the threads
interleave in any order. A `Notified` future receives every `notify_waiters` that comes after
it was created, whether or not it has been polled. -/
namespace Malkuth.DrainThreads

open Malkuth.Lifecycle Transition

inductive BeginPoint where
  | storeKind
  | notifyKind
  | storeDraining
  | notifyDrain
  deriving DecidableEq, Repr

inductive ClearPoint where
  | clearDraining
  | clearKind
  deriving DecidableEq, Repr

inductive Wait where
  | drain
  | signal
  deriving DecidableEq, Repr

/-- The points of a wait. From `recheck` on it has a future, and `notified` says whether
that has been notified. -/
inductive WaitPoint where
  | check
  | create
  | recheck (notified : Bool)
  | parked (notified : Bool)
  | readKind
  | returned (kind : ShutdownKind)
  deriving DecidableEq, Repr

inductive Thread where
  | idle
  | beginDrain (kind : ShutdownKind) (point : BeginPoint)
  | clearDrain (point : ClearPoint)
  | waitFor (wait : Wait) (point : WaitPoint)
  deriving DecidableEq, Repr

inductive Call where
  | beginDrain (kind : ShutdownKind)
  | clearDrain
  | waitFor (wait : Wait)
  deriving DecidableEq, Repr

def Call.enter : Call → Thread
  | .beginDrain kind => .beginDrain kind .storeKind
  | .clearDrain => .clearDrain .clearDraining
  | .waitFor wait => .waitFor wait .check

def Thread.free : Thread → Bool
  | .idle | .waitFor _ (.returned _) => true
  | _ => false

def WaitPoint.notified : WaitPoint → WaitPoint
  | .recheck _ => .recheck true
  | .parked _ => .parked true
  | point => point

/-- `notify_waiters` on the `Notify` of this wait. -/
def Thread.notified (on : Wait) : Thread → Thread
  | .waitFor wait point => .waitFor wait (if wait = on then point.notified else point)
  | thread => thread

/-- What the check of a wait leads to, if it succeeds: `wait_for_signal` has its answer,
`wait_for_drain` reads the kind for it. -/
def Wait.check (c : DrainController) : Wait → Option WaitPoint
  | .drain => if c.draining then some .readKind else none
  | .signal => c.kind.map .returned

structure Shared where
  ctrl : DrainController
  threads : Nat → Thread

namespace Shared

def set (s : Shared) (i : Nat) (thread : Thread) : Shared :=
  { s with threads := Function.update s.threads i thread }

def notifyWaiters (s : Shared) (on : Wait) : Shared :=
  { s with threads := fun i => (s.threads i).notified on }

/-- The next atomic step of a thread. -/
def move (s : Shared) (i : Nat) : Option Shared :=
  match s.threads i with
  | .beginDrain kind .storeKind =>
    some ({ s with ctrl := s.ctrl.storeKind kind }.set i (.beginDrain kind .notifyKind))
  | .beginDrain kind .notifyKind =>
    some ((s.notifyWaiters .signal).set i
      (if kind.causesDrain then .beginDrain kind .storeDraining else .idle))
  | .beginDrain kind .storeDraining =>
    some ({ s with ctrl := s.ctrl.storeDraining }.set i (.beginDrain kind .notifyDrain))
  | .beginDrain _ .notifyDrain => some ((s.notifyWaiters .drain).set i .idle)
  | .clearDrain .clearDraining =>
    some ({ s with ctrl := s.ctrl.clearDraining }.set i (.clearDrain .clearKind))
  | .clearDrain .clearKind => some ({ s with ctrl := s.ctrl.clearKind }.set i .idle)
  | .waitFor wait .check => some (s.set i (.waitFor wait ((wait.check s.ctrl).getD .create)))
  | .waitFor wait .create => some (s.set i (.waitFor wait (.recheck false)))
  | .waitFor wait (.recheck notified) =>
    some (s.set i (.waitFor wait ((wait.check s.ctrl).getD (.parked notified))))
  | .waitFor wait (.parked true) => some (s.set i (.waitFor wait .check))
  | .waitFor wait .readKind => some (s.set i (.waitFor wait (.returned (s.ctrl.kind.getD .graceful))))
  | _ => none

end Shared

inductive Event where
  | call (i : Nat) (call : Call)
  | move (i : Nat)
  /-- A wait is dropped, by a `select!` that took another branch. -/
  | cancel (i : Nat)
  deriving DecidableEq, Repr

def Shared.step (s : Shared) : Event → Option Shared
  | .call i call => if (s.threads i).free then some (s.set i call.enter) else none
  | .move i => s.move i
  | .cancel i =>
    match s.threads i with
    | .waitFor _ _ => some (s.set i .idle)
    | _ => none

def Shared.initial : Shared := ⟨.new,fun _ => .idle⟩

inductive Quietly (c : DrainController) : Thread → Thread → Prop where
  | called (free : thread.free = true) (call : Call) : Quietly c thread call.enter
  | cancelled : Quietly c (.waitFor wait point) .idle
  | checked (seen : wait.check c = some point) : Quietly c (.waitFor wait .check) (.waitFor wait point)
  | unchecked (unseen : wait.check c = none) : Quietly c (.waitFor wait .check) (.waitFor wait .create)
  | created : Quietly c (.waitFor wait .create) (.waitFor wait (.recheck false))
  | rechecked (seen : wait.check c = some point) :
      Quietly c (.waitFor wait (.recheck notified)) (.waitFor wait point)
  | parked (unseen : wait.check c = none) :
      Quietly c (.waitFor wait (.recheck notified)) (.waitFor wait (.parked notified))
  | woken : Quietly c (.waitFor wait (.parked true)) (.waitFor wait .check)
  | answered : Quietly c (.waitFor wait .readKind) (.waitFor wait (.returned (c.kind.getD .graceful)))

inductive Steps (s : Shared) : Event → Shared → Prop where
  | quietly (moves : Quietly s.ctrl (s.threads i) thread) : Steps s e (s.set i thread)
  | storeKind (here : s.threads i = .beginDrain kind .storeKind) : Steps s (.move i)
      ({ s with ctrl := s.ctrl.storeKind kind }.set i (.beginDrain kind .notifyKind))
  | notifyKind (here : s.threads i = .beginDrain kind .notifyKind) : Steps s (.move i)
      ((s.notifyWaiters .signal).set i (if kind.causesDrain then .beginDrain kind .storeDraining else .idle))
  | storeDraining (here : s.threads i = .beginDrain kind .storeDraining) : Steps s (.move i)
      ({ s with ctrl := s.ctrl.storeDraining }.set i (.beginDrain kind .notifyDrain))
  | notifyDrain (here : s.threads i = .beginDrain kind .notifyDrain) : Steps s (.move i)
      ((s.notifyWaiters .drain).set i .idle)
  | clearDraining (here : s.threads i = .clearDrain .clearDraining) : Steps s (.move i)
      ({ s with ctrl := s.ctrl.clearDraining }.set i (.clearDrain .clearKind))
  | clearKind (here : s.threads i = .clearDrain .clearKind) : Steps s (.move i)
      ({ s with ctrl := s.ctrl.clearKind }.set i .idle)

theorem step_steps (s s' : Shared) (e : Event) (taken : s.step e = some s') : Steps s e s' := by
  cases e with
  | call i call =>
    simp only [Shared.step] at taken
    split at taken
    next free => obtain rfl := Option.some.inj taken; exact .quietly (.called free call)
    · contradiction
  | cancel i =>
    simp only [Shared.step] at taken
    split at taken
    next here => obtain rfl := Option.some.inj taken; exact .quietly (here ▸ .cancelled)
    · contradiction
  | move i =>
    simp only [Shared.step,Shared.move] at taken
    split at taken
    next here => obtain rfl := Option.some.inj taken; exact .storeKind here
    next here => obtain rfl := Option.some.inj taken; exact .notifyKind here
    next here => obtain rfl := Option.some.inj taken; exact .storeDraining here
    next here => obtain rfl := Option.some.inj taken; exact .notifyDrain here
    next here => obtain rfl := Option.some.inj taken; exact .clearDraining here
    next here => obtain rfl := Option.some.inj taken; exact .clearKind here
    next wait here =>
      obtain rfl := Option.some.inj taken
      cases seen : wait.check s.ctrl with
      | some point => exact .quietly (here ▸ .checked seen)
      | none => exact .quietly (here ▸ .unchecked seen)
    next here => obtain rfl := Option.some.inj taken; exact .quietly (here ▸ .created)
    next wait notified here =>
      obtain rfl := Option.some.inj taken
      cases seen : wait.check s.ctrl with
      | some point => exact .quietly (here ▸ .rechecked seen)
      | none => exact .quietly (here ▸ .parked seen)
    next here => obtain rfl := Option.some.inj taken; exact .quietly (here ▸ .woken)
    next here => obtain rfl := Option.some.inj taken; exact .quietly (here ▸ .answered)
    next => contradiction

theorem set_threads {s : Shared} (found : (s.set i thread).threads j = t) :
    (j = i ∧ thread = t) ∨ (j ≠ i ∧ s.threads j = t) :=
  update_cases (· = t) found

@[simp] theorem set_threads_self (s : Shared) (i : Nat) (thread : Thread) : (s.set i thread).threads i = thread := by
  simp [Shared.set]

theorem set_threads_ne (s : Shared) (thread : Thread) (different : j ≠ i) :
    (s.set i thread).threads j = s.threads j := by
  simp [Shared.set,different]

def Wait.notifying : Wait → BeginPoint
  | .drain => .notifyDrain
  | .signal => .notifyKind

/-- Some `begin_drain` is about to notify the tasks of this wait. -/
def Shared.Notifies (s : Shared) (on : Wait) : Prop := ∃ j kind, s.threads j = .beginDrain kind on.notifying

/-- A task that has parked without a notification has nothing to wake up for, or will be
notified. -/
def NoneLost (s : Shared) : Prop :=
  ∀ i on, s.threads i = .waitFor on (.parked false) → on.check s.ctrl = none ∨ s.Notifies on

theorem Quietly.not_begin (moves : Quietly c thread thread') : thread ≠ .beginDrain kind point := by
  rintro rfl
  cases moves with
  | called free => simp [Thread.free] at free

theorem Quietly.parks (moves : Quietly c thread (.waitFor on (.parked false))) : on.check c = none := by
  generalize target : Thread.waitFor on (.parked false) = thread' at moves
  cases moves with
  | called _ call => cases call <;> simp [Call.enter] at target
  | checked seen | rechecked seen =>
    obtain ⟨rfl,rfl⟩ := Thread.waitFor.inj target
    cases on
    · simp only [Wait.check] at seen
      split at seen <;> simp at seen
    · simp [Wait.check] at seen
  | parked unseen =>
    obtain ⟨rfl,_⟩ := Thread.waitFor.inj target
    exact unseen
  | cancelled => simp at target
  | unchecked | created | woken | answered => simp at target

/-- A notification that is still to come, past a step of another thread. -/
theorem Shared.Notifies.kept {s s' : Shared} (notifies : s.Notifies on)
    (other : ∀ kind, s.threads i ≠ .beginDrain kind on.notifying)
    (same : ∀ j kind, j ≠ i → s.threads j = .beginDrain kind on.notifying →
      s'.threads j = .beginDrain kind on.notifying) : s'.Notifies on := by
  obtain ⟨j,kind,here⟩ := notifies
  have different : j ≠ i := by
    rintro rfl
    exact other kind here
  exact ⟨j,kind,same j kind different here⟩

/-- A store of `begin_drain` or `clear_drain` that this wait does not look at. -/
theorem NoneLost.stored {s : Shared} (none_ : NoneLost s)
    (other : ∀ kind, s.threads i ≠ .beginDrain kind on.notifying)
    (parked : ({ s with ctrl := c }.set i thread).threads j = .waitFor on (.parked false))
    (moved : ∀ on point, thread ≠ .waitFor on point) (unseen : on.check c = on.check s.ctrl) :
    on.check c = none ∨ ({ s with ctrl := c }.set i thread).Notifies on := by
  rcases set_threads (s := { s with ctrl := c }) parked with ⟨_,here⟩ | ⟨_,here⟩
  · exact absurd here (moved _ _)
  · rw [unseen]
    refine (none_ j on here).imp_right fun notifies => notifies.kept other ?_
    intro k kind different there
    rw [set_threads_ne _ _ different]
    exact there

/-- `notify_waiters` leaves no task parked on it without a notification. -/
theorem NoneLost.notified {s : Shared} (none_ : NoneLost s)
    (elsewhere : ∀ kind, s.threads i ≠ .beginDrain kind on.notifying)
    (here : s.threads j = .waitFor on (.parked false)) :
    on.check s.ctrl = none ∨ ((s.notifyWaiters woken).set i thread).Notifies on := by
  refine (none_ j on here).imp_right fun notifies => notifies.kept elsewhere ?_
  intro k kind different there
  rw [set_threads_ne _ _ different]
  simp [Shared.notifyWaiters,there,Thread.notified]

theorem notified_parked {thread : Thread} (parked : thread.notified woken = .waitFor on (.parked false)) :
    on ≠ woken ∧ thread = .waitFor on (.parked false) := by
  cases thread with
  | waitFor wait point =>
    simp only [Thread.notified,Thread.waitFor.injEq] at parked
    obtain ⟨rfl,parked⟩ := parked
    split at parked
    · cases point <;> simp [WaitPoint.notified] at parked
    next different => exact ⟨different,by rw [parked]⟩
  | _ => simp [Thread.notified] at parked

theorem step_noneLost (steps : Steps s e s') (none_ : NoneLost s) : NoneLost s' := by
  intro x on parked
  cases steps with
  | @quietly i thread _ moves =>
    rcases set_threads parked with ⟨rfl,rfl⟩ | ⟨_,here⟩
    · exact .inl moves.parks
    · refine (none_ x on here).imp_right fun notifies => notifies.kept (fun _ => moves.not_begin) ?_
      intro k kind different there
      rw [set_threads_ne _ _ different]
      exact there
  | @storeKind i kind here =>
    cases on with
    | signal => exact .inr ⟨i,kind,set_threads_self ..⟩
    | drain => exact none_.stored (by simp [here,Wait.notifying]) parked (by simp) rfl
  | @storeDraining i kind here =>
    cases on with
    | drain => exact .inr ⟨i,kind,set_threads_self ..⟩
    | signal => exact none_.stored (by simp [here,Wait.notifying]) parked (by simp) rfl
  | clearDraining here =>
    cases on with
    | drain => exact .inl (by simp [Wait.check,Shared.set,DrainController.clearDraining])
    | signal => exact none_.stored (by simp [here]) parked (by simp) rfl
  | clearKind here =>
    cases on with
    | signal => exact .inl (by simp [Wait.check,Shared.set,DrainController.clearKind])
    | drain => exact none_.stored (by simp [here]) parked (by simp) rfl
  | notifyKind here =>
    rcases set_threads parked with ⟨_,there⟩ | ⟨_,there⟩
    · split at there <;> simp at there
    · obtain ⟨other,before⟩ := notified_parked there
      cases on with
      | signal => exact absurd rfl other
      | drain => exact none_.notified (by simp [here,Wait.notifying]) before
  | notifyDrain here =>
    rcases set_threads parked with ⟨_,there⟩ | ⟨_,there⟩
    · simp at there
    · obtain ⟨other,before⟩ := notified_parked there
      cases on with
      | drain => exact absurd rfl other
      | signal => exact none_.notified (by simp [here,Wait.notifying]) before

/-- In every interleaving, with or without `clear_drain`: a task that is parked in
`wait_for_drain` while the drain bit is set has been notified, or a `begin_drain` is between
its store of the bit and its notification; and so for `wait_for_signal` and the kind. -/
theorem no_lost_wakeup (past : List (Taken Shared Event)) (s : Shared) (run : Run Shared.step .initial past s) :
    (∀ i, s.threads i = .waitFor .drain (.parked false) → s.ctrl.draining = true →
      ∃ j kind, s.threads j = .beginDrain kind .notifyDrain) ∧
    (∀ i, s.threads i = .waitFor .signal (.parked false) → s.ctrl.kind ≠ none →
      ∃ j kind, s.threads j = .beginDrain kind .notifyKind) := by
  have none_ := run.always (P := NoneLost) (by simp [NoneLost,Shared.initial]) fun s e s' kept taken =>
    step_noneLost (step_steps s s' e taken) kept
  constructor
  · intro i parked bit
    exact (none_ i .drain parked).resolve_left (by simp [Wait.check,bit])
  · intro i parked fired
    exact (none_ i .signal parked).resolve_left (by simpa [Wait.check] using fired)

/-- A task parks just before the bit is set; its notification is still to come. -/
theorem no_lost_wakeup_late : ∃ past s, Run Shared.step .initial past s ∧
    s.threads 0 = .waitFor .drain (.parked false) ∧ s.ctrl.draining = true ∧
    ∃ j kind, s.threads j = .beginDrain kind .notifyDrain := by
  obtain ⟨past,s,run,parked,bit⟩ := exists_run Shared.step .initial
    [.call 0 (.waitFor .drain),.move 0,.call 1 (.beginDrain .immediate),.move 1,.move 0,.move 1,.move 0,.move 1]
    (fun _ s => s.threads 0 = .waitFor .drain (.parked false) ∧ s.ctrl.draining = true) (by decide +kernel)
  exact ⟨past,s,run,parked,bit,(no_lost_wakeup past s run).1 0 parked bit⟩

end Malkuth.DrainThreads
