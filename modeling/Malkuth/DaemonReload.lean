import Malkuth.Daemon

/-! A SIGHUP and the iteration it is meant for. `notify_one` wakes the wiring task that has
waited longest; one whose iteration ended without a drain waits on, ahead of the live one. -/
namespace Malkuth.Daemon

open Malkuth.Lifecycle Transition

/-- The wiring task of one iteration, in the queue of the `Notify` only while it is in its
`select!`, and once. -/
structure WiredAt (begun : Prop) (w : Wiring) (held : Nat) (drain : DrainController) : Prop where
  unborn : ¬ begun → w = .unborn
  once : held ≤ 1
  left : w ≠ .selecting → held = 0
  drained : drain.draining = true → w = .done

def Wired (s : State) : Prop :=
  ∀ m, WiredAt (m ≤ s.iteration) (s.wiring m) (s.reload.held m) (s.drain m)

theorem initial_wired (now : Nat) : Wired (initial now) :=
  fun _ => ⟨fun _ => rfl,by simp [initial],fun _ => rfl,by simp [initial,DrainController.new]⟩

theorem WiredAt.begun_of (wired : WiredAt begun w held drain) (here : w ≠ .unborn) : begun := by
  by_contra later
  exact here (wired.unborn later)

/-- A task that leaves its `select!` leaves the queue. -/
theorem WiredAt.leaves (wired : WiredAt begun .selecting held drain) :
    WiredAt begun .storingKind (held - 1) drain := by
  have once := wired.once
  refine ⟨fun later => absurd (wired.unborn later) (by simp),by omega,fun _ => by omega,fun bit => ?_⟩
  exact absurd (wired.drained bit) (by simp)

theorem step_wired (steps : Steps s e s') (wired : Wired s) : Wired s' := by
  intro j
  have at_ := wired j
  cases steps with
  | tick | exit | unreadable | empty | act | shutdown | again => exact at_
  | hangup => simpa using at_
  | started here some_ =>
    by_cases same : j = s.iteration + 1
    · have gone := at_.left (by simp [at_.unborn (by omega)])
      subst same
      simp only [State.startIteration,Function.update_self]
      exact ⟨by simp,by simp [gone],fun other => absurd rfl other,by simp [DrainController.new]⟩
    · simp only [State.startIteration,Function.update_of_ne same]
      exact ⟨fun later => at_.unborn (by omega),at_.once,at_.left,at_.drained⟩
  | @park m here =>
    by_cases same : j = m
    · subst same
      exact ⟨at_.unborn,Notify.held_park j _ at_.once,fun other => absurd here other,at_.drained⟩
    · simpa [Notify.held_park_other _ same] using at_
  | @reloadBranch m reload here received =>
    by_cases same : j = m
    · subst same
      rw [here] at at_
      simpa [State.setWiring,Notify.held_receive j _ _ received] using at_.leaves
    · simpa [State.setWiring,same,Notify.held_receive_other _ _ same received] using at_
  | @exitBranch m here exits =>
    by_cases same : j = m
    · subst same
      rw [here] at at_
      simpa [State.setWiring,Notify.held_drop j s.reload] using at_.leaves
    · simpa [State.setWiring,same,Notify.held_drop_other _ same] using at_
  | @storeKind m here | @storeDraining m here =>
    by_cases same : j = m
    · subst same
      rw [here] at at_
      simp only [State.setWiring,Function.update_self]
      refine ⟨fun later => absurd (at_.unborn later) (by simp),at_.once,fun _ => at_.left (by simp),?_⟩
      first
        | exact fun _ => rfl
        | exact fun bit => absurd (at_.drained bit) (by simp)
    · simpa [State.setWiring,same] using at_

theorem run_wired (run : Run step (initial now) past s) : Wired s :=
  run.always (initial_wired now) fun s e s' wired taken => step_wired (step_steps s s' e taken).2 wired

/-- A SIGHUP that finds the wiring task of the running iteration waiting. -/
def reachesWiring (t : Taken State Event) : Bool :=
  t.event = .hangup && t.pre.point = .running && t.pre.iteration ∈ t.pre.reload.waiting

/-- The SIGHUP goes to the wiring task of the running iteration, and to no other. -/
def Received (t : Taken State Event) : Prop :=
  t.post.reload.signalled = t.pre.reload.signalled ++ [t.pre.iteration]

/-- Wiring tasks of earlier iterations that have been waiting for longer. -/
def State.stale (s : State) : List Nat :=
  (s.reload.waiting.takeWhile (· ≠ s.iteration)).filter (· < s.iteration)

def endsAlone (t : Taken State Event) : Bool :=
  t.event = .returned && !t.pre.exit && !(t.pre.drain t.pre.iteration).draining

theorem Wired.waiting_le (wired : Wired s) (waits : m ∈ s.reload.waiting) :
    s.wiring m = .selecting ∧ m ≤ s.iteration := by
  have positive : 0 < s.reload.held m :=
    Nat.lt_of_lt_of_le (List.count_pos_iff.mpr waits) (Nat.le_add_right ..)
  have here : s.wiring m = .selecting := by
    by_contra other
    simp [(wired m).left other] at positive
  exact ⟨here,(wired m).begun_of (by simp [here])⟩

/-- `notify_one` reaches the task of the running iteration if no earlier one is ahead. -/
theorem hangup_received_iff (wired : Wired s) (waits : s.iteration ∈ s.reload.waiting) :
    s.reload.notifyOne.signalled = s.reload.signalled ++ [s.iteration] ↔ s.stale = [] := by
  cases queue : s.reload.waiting with
  | nil => simp [queue] at waits
  | cons first rest =>
    have woken : s.reload.notifyOne.signalled = s.reload.signalled ++ [first] := by
      simp [Notify.notifyOne,queue]
    rw [woken,List.append_cancel_left_eq,List.singleton_inj]
    constructor
    · rintro rfl
      simp [State.stale,queue]
    · intro none_
      by_contra other
      have early : first < s.iteration :=
        Nat.lt_of_le_of_ne (wired.waiting_le (by simp [queue])).2 other
      simp [State.stale,queue,other,early] at none_

def Retired (s : State) : Prop :=
  ∀ m, m < s.iteration ∨ (m = s.iteration ∧ s.point = .reading) → s.wiring m ≠ .selecting

theorem step_retired (steps : Steps s e s') (wired : Wired s) (retired : Retired s)
    (drains : endsAlone ⟨s,e,s'⟩ = false) : Retired s' := by
  intro j gone
  cases steps with
  | tick | hangup | exit | park | act => exact retired j gone
  | unreadable here | empty here => exact retired j (.inl (by simpa using gone))
  | started here some_ =>
    have earlier : j ≤ s.iteration := by
      simp only [State.startIteration] at gone
      simp at gone
      omega
    simp only [State.startIteration,Function.update_of_ne (show j ≠ s.iteration + 1 by omega)]
    rcases Nat.lt_or_eq_of_le earlier with before | same
    · exact retired j (.inl before)
    · exact retired j (.inr ⟨same,here⟩)
  | @reloadBranch m _ here | @exitBranch m here | @storeKind m here | @storeDraining m here =>
    by_cases same : j = m
    · simp [State.setWiring,same]
    · simpa [State.setWiring,same] using retired j gone
  | shutdown here => exact retired j (.inl (by simpa using gone))
  | again here finished stays =>
    rcases gone with before | ⟨rfl,_⟩
    · exact retired j (.inl before)
    · have bit : (s.drain s.iteration).draining = true := by simpa [endsAlone,stays] using drains
      simp [(wired s.iteration).drained bit]

theorem run_retired (run : Run step (initial now) past s) (drains : ∀ t ∈ past, endsAlone t = false) :
    Retired s := by
  induction run with
  | nil =>
    intro m _
    simp [initial]
  | @snoc past s e s' before taken ih =>
    rw [List.forall_mem_append,List.forall_mem_singleton] at drains
    exact step_retired (step_steps s s' e taken).2 (run_wired before) (ih drains.1) drains.2

theorem retired_stale (wired : Wired s) (retired : Retired s) : s.stale = [] := by
  rw [State.stale,List.filter_eq_nil_iff]
  intro m ahead early
  have waits := (List.takeWhile_subset _ ahead : m ∈ s.reload.waiting)
  exact retired m (.inl (by simpa using early)) (wired.waiting_le waits).1

/-- In every run, every SIGHUP that finds the wiring task of the running iteration waiting is
received by that task if and only if none of them finds the task of an earlier iteration
ahead of it; and none does while every iteration ends by its own drain or by the exit. -/
theorem sighup_received_iff (now : Nat) (past : List (Taken State Event)) (s : State)
    (run : Run step (initial now) past s) :
    ((∀ t ∈ past, reachesWiring t = true → Received t) ↔
      ∀ t ∈ past, reachesWiring t = true → t.pre.stale = []) ∧
    ((∀ t ∈ past, endsAlone t = false) → ∀ t ∈ past, reachesWiring t = true → t.pre.stale = []) := by
  constructor
  · refine forall_congr' fun t => forall_congr' fun member => imp_congr_right fun reaches => ?_
    obtain ⟨before,front,taken,_⟩ := run.upTo member
    obtain ⟨s,e,s'⟩ := t
    obtain ⟨⟨rfl,_⟩,waits⟩ : (e = .hangup ∧ s.point = .running) ∧ s.iteration ∈ s.reload.waiting := by
      simpa [reachesWiring] using reaches
    cases (step_steps s s' _ taken).2
    exact hangup_received_iff (run_wired front) waits
  · intro drains t member reaches
    obtain ⟨before,front,_,earlier⟩ := run.upTo member
    have drained : ∀ u ∈ before, endsAlone u = false :=
      fun u member => drains u (earlier u (List.mem_append_left _ member))
    exact retired_stale (run_wired front) (run_retired front drained)

def service (policy : Fleet.RestartPolicy) : DaemonConfig := ⟨60,5,30,[⟨"chest","backend",policy⟩]⟩

def fades (m pid : Nat) : List Event :=
  [.read (.ok (service .temporary)),.park m,.act 0 .register,.act 0 .checkDrain,.act 0 (.spawned pid),
    .act 0 (.publish 0 none),.act 0 (.childExit true),.act 0 (.publish 0 none),.returned]

def reloads (m pid : Nat) : List Event :=
  [.read (.ok (service .permanent)),.park m,.act 0 .register,.act 0 .checkDrain,.act 0 (.spawned pid),
    .act 0 (.publish 0 none),.hangup,.reloadBranch m,.storeKind m,.storeDraining m,.act 0 .drainBranch,
    .act 0 (.publish 0 none),.act 0 .stopReaped,.act 0 (.publish 0 none),.returned]

theorem sighup_received_reloads : ∃ past s, Run step (initial 0) past s ∧ s.iteration = 2 ∧
    past.countP reachesWiring = 2 ∧ ∀ t ∈ past, reachesWiring t = true → Received t := by
  obtain ⟨past,s,run,second,reached,drains⟩ := exists_run step (initial 0) (reloads 1 101 ++ reloads 2 102)
    (fun past s => s.iteration = 2 ∧ past.countP reachesWiring = 2 ∧ ∀ t ∈ past, endsAlone t = false)
    (by decide +kernel)
  obtain ⟨same,enough⟩ := sighup_received_iff 0 past s run
  exact ⟨past,s,run,second,reached,same.mpr (enough drains)⟩

/-- The first iteration fades, and the SIGHUP of the second one wakes the task of the first. -/
theorem sighup_received_by_stale : ¬ ∀ now past s, Run step (initial now) past s →
    ∀ t ∈ past, reachesWiring t = true → Received t := by
  intro received
  obtain ⟨past,s,run,t,member,reaches,other⟩ := exists_run step (initial 0)
    (fades 1 101 ++ [.read (.ok (service .temporary)),.park 2,.hangup])
    (fun past _ => ∃ t ∈ past, reachesWiring t = true ∧
      t.post.reload.signalled ≠ t.pre.reload.signalled ++ [t.pre.iteration]) (by decide +kernel)
  exact other (received 0 past s run t member reaches)

end Malkuth.Daemon
