import Malkuth.Pool
import Malkuth.RingLaws

/-! From `restart_one` to the respawn. Until the child it was meant for is gone, a request
is a permit of the pod's `Notify` or has brought `supervise` to the code that stops the
child. -/
namespace Malkuth.Pool

open Transition Proxy

/-- From the stop of a child to the end of the loop body that drops it. -/
def Point.Stops : Point → Prop
  | .stopDraining _ | .deregistering | .publishing .deregistered | .setting .deregistered _ | .resting => True
  | _ => False

def Event.spawns (pod : Nat) : Event → Bool
  | .act i (.spawned _) => i == pod
  | _ => false

def Consumed (pod : Nat) (past : List (Taken State Event)) : Prop :=
  ∃ t ∈ past, t.event = .act pod .restartBranch

theorem Consumed.snoc (consumed : Consumed pod past) : Consumed pod (past ++ [t]) := by
  obtain ⟨u,member,event⟩ := consumed
  exact ⟨u,List.mem_append_left _ member,event⟩

/-- A request that is not lost: the child is gone, or the permit is there, or it has been
consumed and the child is being stopped. -/
def Answered (pod : Nat) (past : List (Taken State Event)) (p : Pod) : Prop :=
  p.child = none ∨ p.restart.Stored ∨ (Consumed pod past ∧ p.point.Stops)

theorem Answered.snoc (answered : Answered pod past p) : Answered pod (past ++ [t]) p :=
  answered.imp_right fun there => there.imp_right fun gone => ⟨gone.1.snoc,gone.2⟩

/-- A move that keeps the child and the permit, and does not turn back from a stop. -/
theorem Answered.kept (answered : Answered pod past p) (child : p'.child = p.child)
    (restart : p.restart.Stored → p'.restart.Stored) (point : p.point.Stops → p'.point.Stops) :
    Answered pod past p' := by
  rcases answered with none_ | stored | ⟨consumed,stops⟩
  · exact .inl (child.trans none_)
  · exact .inr (.inl (restart stored))
  · exact .inr (.inr ⟨consumed,point stops⟩)

theorem Point.Selects.not_stops (selects : Point.Selects point) : ¬ point.Stops := by
  cases point <;> simp_all [Point.Selects,Point.Stops]

theorem acts_answered (acts : Pod.Acts port p a p') (answered : Answered pod past p)
    (calm : ∀ pid, a ≠ .spawned pid) (consumed : a = .restartBranch → Consumed pod past) :
    Answered pod past p' := by
  have dropped := Notify.stored_drop () p.restart
  cases acts with
  | spawned => exact absurd rfl (calm _)
  | spawnFailed here | retry here | ready here =>
    exact answered.kept rfl id (by simp [here,Point.Stops])
  | park =>
    refine answered.kept rfl ?_ id
    intro stored
    simpa [Notify.Stored] using stored
  | restartBranch => exact .inr (.inr ⟨consumed rfl,trivial⟩)
  | probed here | paused here => exact answered.kept rfl dropped (by simp [here,Point.Stops])
  | exited here => exact answered.kept rfl dropped fun stops => absurd stops here.not_stops
  | drainTimeout | drained => exact answered.kept rfl id fun _ => trivial
  | rested => exact .inl rfl

theorem stops_publish (s : State) : (s.publish .deregistered).Stops := by
  unfold State.publish
  split <;> trivial

theorem step_answered (steps : Steps mgr by_ s e s') (answered : Answered pod past (s.pods pod))
    (calm : e.spawns pod = false) : Answered pod (past ++ [⟨s,e,s'⟩]) (s'.pods pod) := by
  have before : Answered pod (past ++ [⟨s,e,s'⟩]) (s.pods pod) := answered.snoc
  cases steps with
  | requested =>
    apply setPod_pods before
    intro same
    exact .inr (.inl (Notify.stored_notifyOne _))
  | nobody | client => exact before
  | acts _ acts =>
    apply setPod_pods before
    rintro rfl
    apply acts_answered acts before
    · rintro pid rfl
      simp [Event.spawns] at calm
    · rintro rfl
      exact ⟨_,List.mem_append_right _ (List.mem_singleton_self _),rfl⟩
  | register _ here =>
    apply setPod_pods before
    rintro rfl
    exact before.kept rfl id (by simp [here,Point.Stops])
  | deregister =>
    apply setPod_pods before
    rintro rfl
    exact before.kept rfl id fun _ => stops_publish s
  | @lock _ _ update _ _ here =>
    apply setPod_pods before
    rintro rfl
    refine before.kept rfl id ?_
    rw [here]
    cases update <;> exact id
  | @setBackends _ _ update _ _ here =>
    apply setPod_pods before
    rintro rfl
    refine before.kept rfl id ?_
    rw [here]
    cases update <;> exact id

theorem run_answered (run : Run (step mgr by_) m after s) (answered : Answered pod [] (m.pods pod))
    (calm : ∀ u ∈ after, u.event.spawns pod = false) : Answered pod after (s.pods pod) := by
  induction run with
  | nil => exact answered
  | snoc _ taken ih =>
    have earlier := ih fun u member => calm u (List.mem_append_left _ member)
    exact step_answered (step_steps mgr by_ _ _ _ taken) earlier
      (calm _ (List.mem_append_right _ (List.mem_singleton_self _)))

theorem requested_answered (run : Run (step mgr by_) (initial proxy) past s)
    (taken : step mgr by_ s (.restartOne pod) = some s') : Answered pod [] (s'.pods pod) := by
  have steps := step_steps mgr by_ s s' _ taken
  cases steps with
  | requested =>
    refine .inr (.inl ?_)
    simpa [State.setPod] using Notify.stored_notifyOne _
  | nobody unknown => exact .inl (run_unborn unknown run).2

/-- A `Notified` future lives in one `select!` only. -/
def Pod.Tidy (p : Pod) : Prop := p.restart.held () ≤ 1 ∧ (¬ p.point.Selects → p.restart.held () = 0)

theorem acts_tidy (acts : Pod.Acts port p a p') (tidy : p.Tidy) : p'.Tidy := by
  have dropped : ∀ point, (p.unselect point).Tidy := by
    intro point
    have gone : (p.unselect point).restart.held () = 0 := by
      have once := tidy.1
      simp only [Pod.unselect,Notify.held_drop]
      omega
    exact ⟨by omega,fun _ => gone⟩
  cases acts with
  | spawned here | spawnFailed here | retry here | ready here
  | drainTimeout here | drained here | rested here =>
    have away : p.restart.held () = 0 := tidy.2 (by simp [here,Point.Selects])
    exact ⟨tidy.1,fun _ => away⟩
  | park here => exact ⟨Notify.held_park () _ tidy.1,fun away => absurd here away⟩
  | restartBranch _ received =>
    have once := tidy.1
    have gone := Notify.held_receive () _ _ received
    exact ⟨by simp only; omega,fun _ => by simp only; omega⟩
  | probed | paused | exited => exact dropped _

theorem step_tidy (steps : Steps mgr by_ s e s') (tidy : (s.pods pod).Tidy) : (s'.pods pod).Tidy := by
  cases steps with
  | requested =>
    apply setPod_pods tidy
    rintro rfl
    simpa [Pod.Tidy] using tidy
  | nobody | client => exact tidy
  | acts _ acts =>
    apply setPod_pods tidy
    rintro rfl
    exact acts_tidy acts tidy
  | register _ here | deregister _ here | lock _ here | setBackends _ here =>
    apply setPod_pods tidy
    rintro rfl
    exact ⟨tidy.1,fun _ => tidy.2 (by simp [here,Point.Selects])⟩

/-- A permit that is in the cell, or with the `select!` the task is at. -/
def Pod.Permitted (p : Pod) : Prop :=
  p.restart.permit = true ∨ (p.point.Selects ∧ () ∈ p.restart.signalled)

theorem permitted_of_stored (tidy : Pod.Tidy p) (stored : p.restart.Stored) : p.Permitted := by
  by_cases permit : p.restart.permit = true
  · exact .inl permit
  · have handed : 0 < p.restart.signalled.length := by simpa [Notify.Stored,Notify.tokens,permit] using stored
    have member : () ∈ p.restart.signalled := List.length_pos_iff_exists_mem.mp handed |>.choose_spec
    refine .inr ⟨?_,member⟩
    by_contra away
    have none_ := tidy.2 away
    have positive := List.count_pos_iff.mpr member
    simp only [Notify.held] at none_
    omega

/-- No request for a restart is lost: as long as the child it found has not been replaced,
its permit is stored or handed to the `select!` the task is at, or it was consumed since
and the child is being stopped. -/
theorem restart_one_kept (mgr : PodManager) (by_ : UnstableSort) (proxy : Option Clocked) (pod : Nat)
    (before : List (Taken State Event)) (t : Taken State Event) (after : List (Taken State Event))
    (s : State) (run : Run (step mgr by_) (initial proxy) (before ++ t :: after) s)
    (requested : t.event = .restartOne pod)
    (unreplaced : ∀ u ∈ after, u.event.spawns pod = false)
    (running : (s.pods pod).child ≠ none) :
    (s.pods pod).Permitted ∨ (Consumed pod after ∧ (s.pods pod).point.Stops) := by
  obtain ⟨front,taken,back⟩ := run.split
  rw [requested] at taken
  have answered := run_answered back (requested_answered front taken) unreplaced
  have tidy := run.always (P := fun s => (s.pods pod).Tidy) (by simp [initial,Pod.initial,Pod.Tidy])
    fun s e s' tidy taken => step_tidy (step_steps mgr by_ s s' e taken) tidy
  exact (answered.resolve_left running).imp_left (permitted_of_stored tidy)

def single : PodManager := ⟨.v4 0x7f000001,[(0,3001)]⟩

/-- The request comes while a late probe is under way, and that `select!` consumes it. -/
theorem restart_one_kept_probing : ∃ past s, Run (step single stableSort) (initial none) past s ∧
    (s.pods 0).child = some 7 ∧ ¬ (s.pods 0).Permitted ∧ (s.pods 0).point.Stops := by
  obtain ⟨before,t,after,s,run,event,unreplaced,child,fresh⟩ := exists_run_cut (step single stableSort)
    (initial none) [.act 0 (.spawned 7),.act 0 (.ready false),.act 0 .park] (.restartOne 0)
    [.act 0 .restartBranch]
    (fun _ _ after s => (∀ u ∈ after, u.event.spawns 0 = false) ∧ (s.pods 0).child = some 7 ∧
      (s.pods 0).restart = .new) (by decide +kernel)
  have spent : ¬ (s.pods 0).Permitted := by simp [Pod.Permitted,fresh,Notify.new]
  have kept := restart_one_kept single stableSort none 0 before t after s run event unreplaced (by simp [child])
  exact ⟨_,s,run,child,spent,(kept.resolve_left spent).2⟩

end Malkuth.Pool
