import Malkuth.SuperviseDrain

/-! What the published entry of a supervised worker says about its child. An observer runs
while `supervise_one` is suspended, in its `select!`, in `stop_draining` or in a cooldown;
between two such points the entry may lag behind. -/
namespace Malkuth.Supervise

open Malkuth.Fleet Transition

/-- The awaits of `supervise_one`. -/
def Point.suspended : Point → Bool
  | .selecting | .cooling _ | .stopping _ _ _ => true
  | _ => false

/-- Points at which the entry shows the child of this iteration. -/
def Point.showsChild : Point → Bool
  | .selecting | .publishRestarting .operator | .publishDraining _ => true
  | _ => false

/-- Points at which the entry may still show a child that is over. -/
def Point.lags : Point → Bool
  | .publishRestarting .ended | .finishing => true
  | _ => false

/-- The child spawned last has this pid. -/
def SpawnedLast (past : List (Taken World Event)) (pid : Nat) : Prop :=
  ∃ before t after, past = before ++ t :: after ∧ t.event = .act (.spawned pid) ∧
    ∀ u ∈ after, u.event.spawns = false

structure Shown (s : World) : Prop where
  started : ∀ entry, s.worker.entry = some entry → entry.snapshot.starttime.isSome = true →
    entry.snapshot.pid.isSome = true
  running : ∀ entry, s.worker.entry = some entry → entry.snapshot.pid.isSome = true →
    entry.snapshot.phase = .running
  current : ∀ entry pid, s.worker.entry = some entry → entry.snapshot.pid = some pid →
    s.worker.point.lags = false → s.worker.point.showsChild = true ∧ s.worker.child = some pid
  unreaped : ∀ pid, s.worker.point.hasChild = true → s.worker.child = some pid → pid ∈ s.worker.children

/-- An update that withdraws the pid. -/
theorem Shown.withdrawn (s : World) (before : Option FleetEntry) (f : FleetEntry → FleetEntry)
    (pid : ∀ e, (f e).snapshot.pid = none) (starttime : ∀ e, (f e).snapshot.starttime = none)
    (updated : s.worker.entry = before.map f)
    (unreaped : ∀ pid, s.worker.point.hasChild = true → s.worker.child = some pid →
      pid ∈ s.worker.children) : Shown s where
  started := by
    intro entry here start
    rw [updated] at here
    obtain ⟨e,_,rfl⟩ := Option.map_eq_some_iff.mp here
    simp [starttime] at start
  running := by
    intro entry here some
    rw [updated] at here
    obtain ⟨e,_,rfl⟩ := Option.map_eq_some_iff.mp here
    simp [pid] at some
  current := by
    intro entry p here shown
    rw [updated] at here
    obtain ⟨e,_,rfl⟩ := Option.map_eq_some_iff.mp here
    simp [pid] at shown
  unreaped := unreaped

/-- A step that leaves the entry alone. -/
theorem Shown.kept (shown : Shown s) (same : s'.worker.entry = s.worker.entry)
    (current : s'.worker.point.lags = false → s.worker.point.lags = false ∧
      (s.worker.point.showsChild = true → s'.worker.point.showsChild = true ∧
        s'.worker.child = s.worker.child))
    (unreaped : ∀ pid, s'.worker.point.hasChild = true → s'.worker.child = some pid →
      pid ∈ s'.worker.children) : Shown s' where
  started := by rw [same]; exact shown.started
  running := by rw [same]; exact shown.running
  current := by
    intro entry pid here some fresh
    rw [same] at here
    obtain ⟨before,keeps⟩ := current fresh
    obtain ⟨shows,child⟩ := shown.current entry pid here some before
    obtain ⟨shows',same'⟩ := keeps shows
    exact ⟨shows',same'.trans child⟩
  unreaped := unreaped

theorem step_shown (cfg : Config) (s : World) (e : Event) (s' : World) (shown : Shown s)
    (taken : step cfg s e = some s') : Shown s' := by
  rcases step_cases cfg s s' e taken with ⟨a,w,rfl,acts,rfl⟩ | outside
  · have unreaped := shown.unreaped
    cases acts
    case register here =>
      by_cases sink : cfg.sink = true
      · exact .withdrawn _ (some (.register cfg.spec)) (fun _ => .register cfg.spec) (fun _ => rfl)
          (fun _ => rfl) (by simp [sink]) (by simp [Point.hasChild])
      · exact shown.kept (by simp [sink]) (by simp [here,Point.lags,Point.showsChild]) (by simp [Point.hasChild])
    case spawnRetried here retry =>
      exact .withdrawn _ _ _ (fun _ => rfl) (fun _ => rfl) rfl (by simp [Point.hasChild])
    case spawnGivenUp here never =>
      exact .withdrawn _ _ _ (fun _ => rfl) (fun _ => rfl) rfl (by simp [Point.hasChild])
    case endPublished here =>
      exact .withdrawn _ _ _ (fun _ => rfl) (fun _ => rfl) rfl (by simp [Point.hasChild])
    case finished here =>
      exact .withdrawn _ _ _ (fun _ => rfl) (fun _ => rfl) rfl (by simp [Point.hasChild])
    case restartPublished here | drainPublished here =>
      exact .withdrawn _ _ _ (fun _ => rfl) (fun _ => rfl) rfl
        (fun pid _ child => unreaped pid (by simp [here,Point.hasChild]) child)
    case running wall start here =>
      -- the entry now shows the child of this iteration
      have entries : ∀ entry, s.worker.entry.map (.running s.worker.child start wall) = some entry →
          ∃ e : FleetEntry, entry = e.running s.worker.child start wall := by
        intro entry updated
        obtain ⟨e,_,rfl⟩ := Option.map_eq_some_iff.mp updated
        exact ⟨e,rfl⟩
      refine ⟨?_,?_,?_,fun pid _ child => unreaped pid (by simp [here,Point.hasChild]) child⟩
      · intro entry updated started
        obtain ⟨e,rfl⟩ := entries entry updated
        cases child : s.worker.child <;> simp_all [FleetEntry.running]
      · intro entry updated _
        obtain ⟨e,rfl⟩ := entries entry updated
        rfl
      · intro entry pid updated some _
        obtain ⟨e,rfl⟩ := entries entry updated
        exact ⟨rfl,some⟩
    case stopReaped why _ _ here | stopWaitError why _ _ here =>
      cases why <;> exact shown.kept (by simp [Worker.stopped])
        (by simp [here,Worker.stopped,Point.lags,Point.showsChild]) (by simp [Worker.stopped,Point.hasChild])
    case spawned pid here fresh =>
      exact shown.kept rfl (by simp [here,Point.lags,Point.showsChild]) (by simp)
    case stopTimeout here late | park here | drainBranch here bit | drainSignalBranch here wired received
      | restartSignalBranch here wired received =>
      exact shown.kept rfl (by simp [here,Point.lags,Point.showsChild])
        (fun pid _ child => unreaped pid (by simp [here,Point.hasChild]) child)
    all_goals exact shown.kept rfl (by simp_all [Point.lags,Point.showsChild]) (by simp [Point.hasChild])
  · apply shown.kept
    all_goals rw [outside.worker]
    · exact fun fresh => ⟨fresh,fun shows => ⟨shows,rfl⟩⟩
    · exact shown.unreaped

theorem initial_shown (now : Nat) : Shown (initial now) :=
  ⟨by simp [initial,Worker.initial],by simp [initial,Worker.initial],by simp [initial,Worker.initial],
    by simp [initial,Worker.initial]⟩

/-- A step spawns, or leaves the iteration's child or drops it. -/
theorem step_child (cfg : Config) (s : World) (e : Event) (s' : World) (taken : step cfg s e = some s') :
    (∃ pid, e = .act (.spawned pid) ∧ s'.worker.child = some pid) ∨
    (e.spawns = false ∧ (s'.worker.child = s.worker.child ∨ s'.worker.child = none)) := by
  rcases step_cases cfg s s' e taken with ⟨a,w,rfl,acts,rfl⟩ | outside
  · cases acts
    case spawned pid here fresh => exact .inl ⟨pid,rfl,rfl⟩
    case stopReaped why _ _ here | stopWaitError why _ _ here =>
      cases why <;> exact .inr ⟨rfl,by simp [Worker.stopped]⟩
    all_goals exact .inr ⟨rfl,by simp⟩
  · right
    have foreign := outside.foreign
    refine ⟨?_,.inl (by rw [outside.worker])⟩
    cases e <;> simp_all [Event.spawns]

theorem SpawnedLast.snoc (last : SpawnedLast past pid) (quiet : t.event.spawns = false) :
    SpawnedLast (past ++ [t]) pid := by
  obtain ⟨before,u,after,rfl,spawned,since⟩ := last
  have still : ∀ v ∈ after ++ [t], v.event.spawns = false :=
    List.forall_mem_append.mpr ⟨since,List.forall_mem_singleton.mpr quiet⟩
  exact ⟨before,u,after ++ [t],by simp,spawned,still⟩

theorem run_spawnedLast (cfg : Config) (run : Run (step cfg) (initial now) past s)
    (child : s.worker.child = some pid) : SpawnedLast past pid := by
  induction run generalizing pid with
  | nil => simp [initial,Worker.initial] at child
  | @snoc past m e m' _ taken ih =>
    rcases step_child cfg m e m' taken with ⟨p,rfl,spawned⟩ | ⟨quiet,same | gone⟩
    · obtain rfl : p = pid := by simpa [spawned] using child
      exact ⟨past,_,[],rfl,rfl,by simp⟩
    · exact (ih (same ▸ child)).snoc quiet
    · simp [gone] at child

/-- Whenever `supervise_one` is suspended, a published pid is that of the child spawned
last, not yet reaped, under phase `running`; and a start time comes with a pid. -/
theorem published_pid_live (cfg : Config) (now : Nat) (past : List (Taken World Event)) (s : World)
    (run : Run (step cfg) (initial now) past s) (suspended : s.worker.point.suspended = true)
    (entry : FleetEntry) (published : s.worker.entry = some entry) :
    (∀ pid, entry.snapshot.pid = some pid → entry.snapshot.phase = .running ∧ SpawnedLast past pid ∧
      pid ∈ s.worker.children) ∧
    (entry.snapshot.starttime.isSome = true → entry.snapshot.pid.isSome = true) := by
  have shown := run.always (initial_shown now) (step_shown cfg)
  refine ⟨?_,shown.started entry published⟩
  intro pid some
  have fresh : s.worker.point.lags = false := by
    cases point : s.worker.point <;> simp_all [Point.suspended,Point.lags]
  obtain ⟨shows,child⟩ := shown.current entry pid published some fresh
  have unreaped : s.worker.point.hasChild = true := by
    cases point : s.worker.point <;> simp_all [Point.suspended,Point.showsChild,Point.hasChild]
  exact ⟨shown.running entry published (by simp [some]),run_spawnedLast cfg run child,
    shown.unreaped pid unreaped child⟩

/-- The second child is up, after the first one has crashed. -/
theorem published_pid_live_respawned : ∃ past s entry, Run (step (api .permanent)) (initial 0) past s ∧
    s.worker.entry = some entry ∧ entry.snapshot.pid = some 102 ∧
    entry.snapshot.phase = .running ∧ SpawnedLast past 102 ∧ 102 ∈ s.worker.children := by
  obtain ⟨past,s,run,suspended,published⟩ := exists_run (step (api .permanent)) (initial 0)
    [.act .register,.act .checkDrain,.act (.spawned 101),.act (.publish 0 (some 7)),.act (.childExit false),
      .act (.publish 0 none),.act .limit,.act .checkDrain,.act (.spawned 102),.act (.publish 1 (some 8))]
    (fun _ s => s.worker.point.suspended = true ∧
      s.worker.entry.any (fun e => e.snapshot.pid = some 102) = true) (by decide +kernel)
  obtain ⟨entry,here,pid⟩ := (Option.any_eq_true ..).mp published
  have pid := of_decide_eq_true pid
  exact ⟨past,s,entry,run,here,pid,(published_pid_live _ 0 past s run suspended entry here).1 102 pid⟩

def World.phase (s : World) : Option WorkerPhase := s.worker.entry.map fun e => e.snapshot.phase

def StoppedForGood (past : List (Taken World Event)) : Prop :=
  ∀ before t after, past = before ++ t :: after → t.post.phase = some .stopped →
    ∀ u ∈ after, u.post.phase = some .stopped

def Event.failsToSpawn : Event → Bool
  | .act (.spawnFailed _) => true
  | _ => false

def publishesRunning (t : Taken World Event) : Bool :=
  match t.event, t.pre.worker.point with
  | .act (.publish _ _), .publishRunning => true
  | _, _ => false

/-- No child is published after an attempt to spawn one has failed. -/
def NoRevival (past : List (Taken World Event)) : Prop :=
  ∀ before t after, past = before ++ t :: after → t.event.failsToSpawn = true →
    ∀ u ∈ after, publishesRunning u = false

def Point.childless : Point → Bool
  | .loopHead | .spawning | .publishSpawnFailure | .publishRunning | .limiting _ | .cooling _
  | .finishing | .returned _ => true
  | _ => false

/-- `stopped` is published between two children, or at the end. -/
theorem step_stopped (cfg : Config) (s : World) (e : Event) (s' : World) (taken : step cfg s e = some s')
    (stopped : s.phase = some .stopped) (childless : s.worker.point.childless = true)
    (quiet : publishesRunning ⟨s,e,s'⟩ = false) :
    s'.phase = some .stopped ∧ s'.worker.point.childless = true := by
  rcases step_cases cfg s s' e taken with ⟨a,w,rfl,acts,rfl⟩ | outside
  · obtain ⟨entry,here,phase⟩ := Option.map_eq_some_iff.mp stopped
    cases acts
    case running wall start here => simp [publishesRunning,here] at quiet
    case stopReaped here | stopWaitError here => simp [here,Point.childless] at childless
    all_goals simp_all [World.phase,Point.childless,FleetEntry.finish]
  · refine ⟨?_,by rw [outside.point]; exact childless⟩
    rw [World.phase,outside.worker]
    exact stopped

theorem run_stopped (cfg : Config) (run : Run (step cfg) m later s) (stopped : m.phase = some .stopped)
    (childless : m.worker.point.childless = true) (quiet : ∀ u ∈ later, publishesRunning u = false) :
    (s.phase = some .stopped ∧ s.worker.point.childless = true) ∧
      ∀ u ∈ later, u.post.phase = some .stopped := by
  induction run with
  | nil => exact ⟨⟨stopped,childless⟩,by simp⟩
  | @snoc later m e m' _ taken ih =>
    obtain ⟨⟨before,between⟩,all⟩ := ih fun u member => quiet u (List.mem_append_left _ member)
    have next := step_stopped cfg m e m' taken before between (quiet _ (by simp))
    exact ⟨next,List.forall_mem_append.mpr ⟨all,List.forall_mem_singleton.mpr next.1⟩⟩

structure StopCause (past : List (Taken World Event)) (s : World) : Prop where
  failing : s.worker.point = .publishSpawnFailure → ∃ t ∈ past, t.event.failsToSpawn = true
  stopped : s.phase = some .stopped → s.worker.point.childless = true ∧
    ((∃ t ∈ past, t.event.failsToSpawn = true) ∨ ∃ info, s.worker.point = .returned info)

theorem step_stopCause (cfg : Config) (s : World) (e : Event) (s' : World) (cause : StopCause past s)
    (taken : step cfg s e = some s') : StopCause (past ++ [⟨s,e,s'⟩]) s' := by
  have grown : (∃ t ∈ past, t.event.failsToSpawn = true) →
      ∃ t ∈ past ++ [(⟨s,e,s'⟩ : Taken World Event)], t.event.failsToSpawn = true := by
    rintro ⟨t,member,fails⟩
    exact ⟨t,List.mem_append_left _ member,fails⟩
  rcases step_cases cfg s s' e taken with ⟨a,w,rfl,acts,rfl⟩ | outside
  · cases acts
    case register here =>
      refine ⟨by simp,fun stopped => ?_⟩
      by_cases sink : cfg.sink = true
      · simp [World.phase,sink,FleetEntry.register] at stopped
      · have before := cause.stopped (by simpa [World.phase,sink] using stopped)
        simp [here,Point.childless] at before
    case spawnFailed error here =>
      refine ⟨fun _ => ⟨_,List.mem_append_right _ (List.mem_singleton_self _),rfl⟩,fun stopped => ?_⟩
      exact ⟨rfl,.inl ⟨_,List.mem_append_right _ (List.mem_singleton_self _),rfl⟩⟩
    case spawnRetried here retry => exact ⟨by simp,fun _ => ⟨rfl,.inl (grown (cause.failing here))⟩⟩
    case spawnGivenUp here never => exact ⟨by simp,fun _ => ⟨rfl,.inl (grown (cause.failing here))⟩⟩
    case finished here => exact ⟨by simp,fun _ => ⟨rfl,.inr ⟨_,rfl⟩⟩⟩
    case running here =>
      exact ⟨by simp,fun stopped => by simp [World.phase,FleetEntry.running] at stopped⟩
    case endPublished here | restartPublished here =>
      exact ⟨by simp,fun stopped => by simp [World.phase,FleetEntry.restarting] at stopped⟩
    case drainPublished here =>
      exact ⟨by simp,fun stopped => by simp [World.phase,FleetEntry.draining] at stopped⟩
    case stopReaped why _ _ here | stopWaitError why _ _ here =>
      refine ⟨by cases why <;> simp [Worker.stopped],fun stopped => ?_⟩
      have before := cause.stopped (by cases why <;> exact stopped)
      simp [here,Point.childless] at before
    all_goals
      refine ⟨by simp_all,fun stopped => ?_⟩
      obtain ⟨childless,source⟩ := cause.stopped stopped
      exact ⟨by simp_all [Point.childless],.inl (grown (source.resolve_right (by simp_all)))⟩
  · refine ⟨fun here => grown (cause.failing (outside.point ▸ here)),fun stopped => ?_⟩
    rw [World.phase,outside.worker] at stopped
    obtain ⟨childless,source⟩ := cause.stopped stopped
    rw [outside.point]
    exact ⟨childless,source.imp grown id⟩

theorem run_stopCause (cfg : Config) (run : Run (step cfg) (initial now) past s) : StopCause past s := by
  induction run with
  | nil => exact ⟨by simp [initial,Worker.initial],by simp [initial,Worker.initial,World.phase]⟩
  | snoc _ taken ih => exact step_stopCause cfg _ _ _ ih taken

theorem returned_quiet (cfg : Config) (run : Run (step cfg) m later s)
    (returned : m.worker.point = .returned info) :
    s.worker.point = .returned info ∧ ∀ u ∈ later, publishesRunning u = false := by
  induction run with
  | nil => exact ⟨returned,by simp⟩
  | @snoc later m e m' _ taken ih =>
    obtain ⟨here,quiet⟩ := ih
    have stays : m'.worker.point = .returned info := by
      rcases step_cases cfg m m' e taken with ⟨a,w,rfl,acts,rfl⟩ | outside
      · cases acts <;> simp_all
      · rw [outside.point,here]
    have silent : publishesRunning ⟨m,e,m'⟩ = false := by
      cases e <;> simp [publishesRunning,here]
    exact ⟨stays,List.forall_mem_append.mpr ⟨quiet,List.forall_mem_singleton.mpr silent⟩⟩

/-- A failed spawn is published before anything else the worker does. -/
theorem run_failing (cfg : Config) (run : Run (step cfg) m later s)
    (failing : m.worker.point = .publishSpawnFailure) (registered : m.worker.entry.isSome = true) :
    (s.worker.point = .publishSpawnFailure ∧ s.worker.entry.isSome = true) ∨
      ∃ u ∈ later, u.post.phase = some .stopped := by
  induction run with
  | nil => exact .inl ⟨failing,registered⟩
  | @snoc later m e m' _ taken ih =>
    rcases ih with ⟨here,registered⟩ | ⟨u,member,stopped⟩
    · obtain ⟨entry,known⟩ := Option.isSome_iff_exists.mp registered
      rcases step_cases cfg m m' e taken with ⟨a,w,rfl,acts,rfl⟩ | outside
      · right
        refine ⟨_,List.mem_append_right _ (List.mem_singleton_self _),?_⟩
        cases acts <;> simp_all [World.phase,FleetEntry.finish]
      · left
        rw [outside.point,outside.worker]
        exact ⟨here,registered⟩
    · exact .inr ⟨u,List.mem_append_left _ member,stopped⟩

theorem publishesRunning_phase (cfg : Config) (u : Taken World Event)
    (taken : step cfg u.pre u.event = some u.post) (running : publishesRunning u = true) :
    u.post.phase ≠ some .stopped := by
  obtain ⟨s,e,s'⟩ := u
  rcases step_cases cfg s s' e taken with ⟨a,w,rfl,acts,rfl⟩ | outside
  · cases acts <;> simp_all [publishesRunning,World.phase,FleetEntry.running]
  · have foreign := outside.foreign
    cases e <;> simp_all [publishesRunning]

/-- With a sink, a published `stopped` is final in a run if and only if no child is
published after a failed attempt to spawn one. -/
theorem stopped_terminal_iff (cfg : Config) (sink : cfg.sink = true) (now : Nat)
    (past : List (Taken World Event)) (s : World) (run : Run (step cfg) (initial now) past s) :
    StoppedForGood past ↔ NoRevival past := by
  constructor
  · intro final before t after cut fails u member
    subst cut
    obtain ⟨front,taken,rest⟩ := run.split
    obtain ⟨middle,later,rfl⟩ := List.append_of_mem member
    obtain ⟨toU,takenU,_⟩ := rest.split
    have published := run_published cfg (front.snoc taken)
    have failing : t.post.worker.point = .publishSpawnFailure := by
      rcases step_cases cfg _ _ _ taken with ⟨a,w,act,acts,eq⟩ | outside
      · rw [eq]
        cases acts <;> simp_all [Event.failsToSpawn]
      · have foreign := outside.foreign
        cases event : t.event <;> simp_all [Event.failsToSpawn]
    have registered := published.registered sink (by simp [failing])
    by_contra revived
    have running : publishesRunning u = true := by simpa using revived
    rcases run_failing cfg toU failing registered with ⟨still,_⟩ | ⟨v,between,stopped⟩
    · obtain ⟨m,e,m'⟩ := u
      cases e <;> simp_all [publishesRunning]
    · obtain ⟨first,second,rfl⟩ := List.append_of_mem between
      refine publishesRunning_phase cfg u takenU running ?_
      exact final (before ++ t :: first) v (second ++ u :: later) (by simp) stopped u (by simp)
  · intro dead before t after cut stopped
    subst cut
    obtain ⟨front,taken,rest⟩ := run.split
    obtain ⟨childless,source⟩ := (run_stopCause cfg (front.snoc taken)).stopped stopped
    have quiet : ∀ u ∈ after, publishesRunning u = false := by
      rcases source with ⟨v,earlier,fails⟩ | ⟨info,returned⟩
      · obtain ⟨first,second,eq⟩ := List.append_of_mem earlier
        intro u member
        apply dead first v (second ++ after) ?_ fails u (by simp [member])
        rw [List.append_cons,show before ++ [t] = first ++ v :: second from eq]
        simp
      · exact (returned_quiet cfg rest returned).2
    exact (run_stopped cfg rest stopped childless quiet).2

theorem stopped_terminal_temporary : ∃ past s, Run (step (api .temporary)) (initial 0) past s ∧
    s.phase = some .stopped ∧ StoppedForGood past := by
  obtain ⟨past,s,run,stopped,quiet⟩ := exists_run (step (api .temporary)) (initial 0)
    [.act .register,.act .checkDrain,.act (.spawnFailed "No such file or directory (os error 2)"),
      .act (.publish 0 none),.act (.publish 0 none)]
    (fun past s => s.phase = some .stopped ∧ ∀ u ∈ past, publishesRunning u = false) (by decide +kernel)
  refine ⟨past,s,run,stopped,(stopped_terminal_iff (api .temporary) rfl 0 past s run).mpr ?_⟩
  rintro before t after rfl fails u member
  exact quiet u (by simp [member])

/-- A permanent worker whose first spawn fails comes back from `stopped`. -/
theorem stopped_then_running : ¬ ∀ cfg : Config, cfg.sink = true → ∀ now past s,
    Run (step cfg) (initial now) past s → StoppedForGood past := by
  intro final
  obtain ⟨before,t,after,s,run,_,stopped,u,member,running⟩ := exists_run_cut (step (api .permanent))
    (initial 0) [.act .register,.act .checkDrain,
      .act (.spawnFailed "Resource temporarily unavailable (os error 11)")] (.act (.publish 0 none))
    [.act .limit,.act .checkDrain,.act (.spawned 101),.act (.publish 0 none)]
    (fun _ t after _ => t.post.phase = some .stopped ∧
      ∃ u ∈ after, u.post.phase = some .running) (by decide +kernel)
  have still := final (api .permanent) rfl 0 _ s run before t after rfl stopped u member
  simp [running] at still

end Malkuth.Supervise
