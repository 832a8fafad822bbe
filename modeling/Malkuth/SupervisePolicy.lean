import Malkuth.Supervise

/-! When `supervise_one` stops for good and when it spawns again. A tripped rate limit
ends the loop after its cooldown, and the arm for a failed `wait` never asks
`should_restart`; the results below name exactly these two ways out of the policy. -/
namespace Malkuth.Supervise

open Malkuth.Fleet Malkuth.Lifecycle Transition

/-- The loop of `supervise_one` has been left. -/
def Broken (s : World) : Prop :=
  s.worker.point = .finishing ∨ ∃ info, s.worker.point = .returned info

/-- Neither the run's drain bit is set nor the worker's drain signal fired. -/
def Undrained (e : Event) : Prop := e ≠ .storeDraining ∧ e ≠ .notifyDrain

instance (e : Event) : Decidable (Undrained e) :=
  inferInstanceAs (Decidable (e ≠ .storeDraining ∧ e ≠ .notifyDrain))

def HasRoom (cfg : Config) (s : World) (e : Event) : Prop :=
  e = .act .limit → tripped cfg (SlidingWindow.push cfg.window s.now s.worker.restartTimes) = false

instance (cfg : Config) (s : World) (e : Event) : Decidable (HasRoom cfg s e) :=
  inferInstanceAs (Decidable (e = .act .limit →
    tripped cfg (SlidingWindow.push cfg.window s.now s.worker.restartTimes) = false))

/-- Points from which the loop goes on, unless a drain or the limiter ends it. -/
def Point.InLoop : Point → Prop
  | .cooling _ | .publishDraining _ | .stopping .drain _ _ | .finishing | .returned _ => False
  | _ => True

structure Alive (s : World) : Prop where
  bit : s.drain.draining = false
  signal : s.worker.drainSignal.tokens = 0
  point : s.worker.point.InLoop

theorem shouldRestart_permanent (clean : Bool) : shouldRestart .permanent clean = true := rfl

theorem acts_alive (cfg : Config) (s : World) (a : Action) (w : Worker)
    (policy : cfg.spec.restartPolicy = .permanent) (room : HasRoom cfg s (.act a)) (alive : Alive s)
    (acts : Acts cfg s.now s.drain s.worker a w) : Alive { s with worker := w } := by
  have bit := alive.bit
  have signal := alive.signal
  have point := alive.point
  have dropped := Notify.tokens_drop () s.worker.drainSignal
  refine ⟨bit,?_,?_⟩
  · cases acts
    case drainSignalBranch signal' here wired received =>
      have spent := Notify.tokens_receive () _ _ received
      omega
    case park => simp only; split <;> simp [signal]
    case stopReaped why _ _ _ | stopWaitError why _ _ _ => cases why <;> simpa [Worker.stopped] using signal
    all_goals first
      | simpa using signal
      | (simp only [Worker.restart,Worker.leave,Worker.unselect,Worker.reap]; omega)
  · cases acts
    case draining here set => simp [bit] at set
    case cooldownDrained here set => simp [bit] at set
    case cooldownOver here late => simp [here,Point.InLoop] at point
    case drainBranch here set => simp [bit] at set
    case drainSignalBranch signal' here wired received =>
      have spent := Notify.tokens_receive () _ _ received
      omega
    case spawnGivenUp here never => simp [policy,shouldRestart_permanent] at never
    case exitLeft here never => simp [policy,shouldRestart_permanent] at never
    case tripped here full => simp [room rfl] at full
    case stopReaped why _ _ here | stopWaitError why _ _ here => cases why <;> simp_all [Point.InLoop,Worker.stopped]
    case stopTimeout why _ here late => cases why <;> simp_all [Point.InLoop]
    all_goals simp_all [Point.InLoop]

theorem step_alive (cfg : Config) (policy : cfg.spec.restartPolicy = .permanent) (s : World) (e : Event)
    (s' : World) (alive : Alive s) (meets : Undrained e ∧ HasRoom cfg s e)
    (taken : step cfg s e = some s') : Alive s' := by
  rcases step_cases cfg s s' e taken with ⟨a,w,rfl,acts,rfl⟩ | outside
  · exact acts_alive cfg s a w policy meets.2 alive acts
  · have silent := meets.1
    refine ⟨?_,?_,?_⟩
    · have still := outside.draining
      simpa [silent.1,alive.bit] using still
    · simpa [outside.drainSignal,silent.2] using alive.signal
    · simpa [outside.point] using alive.point

/-- A Permanent worker that is not drained stays in its loop in every run in which
every call of `rate_limited` still has room in its window. -/
theorem permanent_never_ends (cfg : Config) (now : Nat) (past : List (Taken World Event)) (s : World)
    (policy : cfg.spec.restartPolicy = .permanent) (run : Run (step cfg) (initial now) past s)
    (undrained : ∀ t ∈ past, Undrained t.event)
    (room : ∀ t ∈ past, HasRoom cfg t.pre t.event) : ¬ Broken s := by
  have start : Alive (initial now) := ⟨rfl,rfl,trivial⟩
  have alive := run.invariant start (step_alive cfg policy)
    (fun t member => ⟨undrained t member,room t member⟩)
  rintro (finishing | ⟨info,returned⟩)
  · simpa [finishing,Point.InLoop] using alive.point
  · simpa [returned,Point.InLoop] using alive.point

def crash (pid : Nat) : List Event :=
  [.act .checkDrain,.act (.spawned pid),.act (.publish 0 none),.act (.childExit false),
    .act (.publish 0 none),.act .limit]

theorem permanent_never_ends_crashing : ∃ past s, Run (step (api .permanent)) (initial 0) past s ∧
    past.length = 13 ∧ (∀ t ∈ past, HasRoom (api .permanent) t.pre t.event) ∧ ¬ Broken s := by
  obtain ⟨past,s,run,long,undrained,room⟩ := exists_run (step (api .permanent)) (initial 0)
    (List.flatten [[.act .register],crash 101,crash 102])
    (fun past _ => past.length = 13 ∧ (∀ t ∈ past, Undrained t.event) ∧
      ∀ t ∈ past, HasRoom (api .permanent) t.pre t.event) (by decide +kernel)
  exact ⟨past,s,run,long,room,permanent_never_ends _ 0 past s rfl run undrained room⟩

/-- Six crashes at once trip the limit; after the cooldown the loop is left. -/
theorem permanent_ends_after_cooldown : ¬ ∀ (cfg : Config) now past s,
    cfg.spec.restartPolicy = .permanent → Run (step cfg) (initial now) past s →
    (∀ t ∈ past, Undrained t.event) → ¬ Broken s := by
  intro forever
  obtain ⟨past,s,run,undrained,left⟩ := exists_run (step (api .permanent)) (initial 0)
    (List.flatten [[.act .register],crash 101,crash 102,crash 103,crash 104,crash 105,crash 106,
      [.tick (secs 30),.act .cooldownOver]])
    (fun past s => (∀ t ∈ past, Undrained t.event) ∧ s.worker.point = .finishing) (by decide +kernel)
  exact forever _ 0 past s rfl run undrained (.inl left)

def Event.attemptsSpawn : Event → Bool
  | .act (.spawned _) | .act (.spawnFailed _) => true
  | _ => false

/-- An end of the child that no operator restart and no drain caused, and whether
it counts as clean. -/
def Event.ends : Event → Option Bool
  | .act (.childExit clean) => some clean
  | .act (.waitError _) | .act (.spawnFailed _) => some false
  | _ => none

def Event.operatorRestart : Event → Bool
  | .act .restartSignalBranch => true
  | _ => false

def Event.waitFails : Event → Bool
  | .act (.waitError _) => true
  | _ => false

/-- A child's own end is followed by another spawn only as the policy allows. -/
def FollowsPolicy (policy : RestartPolicy) (past : List (Taken World Event)) : Prop :=
  (∀ before t after clean, past = before ++ t :: after → t.event.ends = some clean →
    (∃ u ∈ after, u.event.attemptsSpawn = true) → shouldRestart policy clean = true) ∧
  (policy = .temporary → past.countP (fun t => t.event.attemptsSpawn) ≤
    1 + past.countP (fun t => t.event.operatorRestart))

def Doomed (cfg : Config) (s : World) : Prop :=
  Broken s ∨
    s.worker.point = .publishSpawnFailure ∧ shouldRestart cfg.spec.restartPolicy false = false

theorem step_doomed (cfg : Config) (s : World) (e : Event) (s' : World) (doomed : Doomed cfg s)
    (taken : step cfg s e = some s') : Doomed cfg s' ∧ e.attemptsSpawn = false := by
  rcases step_cases cfg s s' e taken with ⟨a,w,rfl,acts,rfl⟩ | outside
  · rcases doomed with (finishing | ⟨info,returned⟩) | ⟨failed,never⟩
    · cases acts <;> simp_all [Doomed,Broken,Event.attemptsSpawn]
    · cases acts <;> simp_all
    · cases acts <;> simp_all [Doomed,Broken,Event.attemptsSpawn]
  · refine ⟨by simpa [Doomed,Broken,outside.point] using doomed,?_⟩
    have foreign := outside.foreign
    cases e <;> simp_all [Event.attemptsSpawn]

theorem shouldRestart_unclean (policy : RestartPolicy) (never : shouldRestart policy false = false) :
    policy = .temporary := by
  cases policy <;> simp_all [shouldRestart]

/-- The end of a child that the policy does not restart dooms the worker. -/
theorem end_doomed (cfg : Config) (s : World) (e : Event) (s' : World) (clean : Bool)
    (taken : step cfg s e = some s') (ended : e.ends = some clean)
    (asked : cfg.spec.restartPolicy = .temporary → e.waitFails = false)
    (never : shouldRestart cfg.spec.restartPolicy clean = false) : Doomed cfg s' := by
  rcases step_cases cfg s s' e taken with ⟨a,w,rfl,acts,rfl⟩ | outside
  · cases acts
    case spawnFailed here =>
      obtain rfl : false = clean := by simpa [Event.ends] using ended
      exact .inr ⟨rfl,never⟩
    case exitRestarted clean' here retry =>
      obtain rfl : clean' = clean := by simpa [Event.ends] using ended
      simp [retry] at never
    case exitLeft here _ => exact .inl (.inl rfl)
    case waitError here =>
      obtain rfl : false = clean := by simpa [Event.ends] using ended
      simpa [Event.waitFails] using asked (shouldRestart_unclean _ never)
    all_goals simp [Event.ends] at ended
  · have foreign := outside.foreign
    cases e <;> simp_all [Event.ends]

/-- Spawns a Temporary worker may still make without another operator restart. -/
def Point.spawnsLeft : Point → Nat
  | .entering | .loopHead | .spawning | .publishRestarting .operator | .stopping .restart _ _ => 1
  | _ => 0

def Point.Retrying : Point → Prop
  | .publishRestarting .ended | .limiting _ | .cooling _ => True
  | _ => False

theorem step_temporary (cfg : Config) (s : World) (e : Event) (s' : World)
    (policy : cfg.spec.restartPolicy = .temporary) (asked : e.waitFails = false)
    (calm : ¬ s.worker.point.Retrying) (taken : step cfg s e = some s') :
    ¬ s'.worker.point.Retrying ∧
    e.attemptsSpawn.toNat + s'.worker.point.spawnsLeft ≤
      e.operatorRestart.toNat + s.worker.point.spawnsLeft := by
  rcases step_cases cfg s s' e taken with ⟨a,w,rfl,acts,rfl⟩ | outside
  · cases acts
    case exitRestarted here retry => simp [policy,shouldRestart] at retry
    case spawnRetried here retry => simp [policy,shouldRestart] at retry
    case waitError here => simp [Event.waitFails] at asked
    case stopReaped why _ _ here | stopWaitError why _ _ here =>
      cases why <;> simp_all [Point.Retrying,Point.spawnsLeft,Worker.stopped,Event.attemptsSpawn,
        Event.operatorRestart]
    case stopTimeout why _ here late =>
      cases why <;> simp_all [Point.Retrying,Point.spawnsLeft,Event.attemptsSpawn,Event.operatorRestart]
    all_goals simp_all [Point.Retrying,Point.spawnsLeft,Event.attemptsSpawn,Event.operatorRestart]
  · have foreign := outside.foreign
    rw [outside.point]
    refine ⟨calm,?_⟩
    cases e <;> simp_all [Event.attemptsSpawn,Event.operatorRestart]

theorem temporary_count (cfg : Config) (policy : cfg.spec.restartPolicy = .temporary)
    (run : Run (step cfg) (initial now) past s) (asked : ∀ t ∈ past, t.event.waitFails = false) :
    ¬ s.worker.point.Retrying ∧
    past.countP (fun t => t.event.attemptsSpawn) + s.worker.point.spawnsLeft ≤
      1 + past.countP (fun t => t.event.operatorRestart) := by
  induction run with
  | nil => exact ⟨by simp [initial,Worker.initial,Point.Retrying],by simp [initial,Worker.initial,Point.spawnsLeft]⟩
  | @snoc past s e s' _ taken ih =>
    obtain ⟨calm,count⟩ := ih fun t member => asked t (List.mem_append_left _ member)
    have now_ := asked _ (List.mem_append_right past (List.mem_singleton_self _))
    obtain ⟨calm',gain⟩ := step_temporary cfg s e s' policy now_ calm taken
    refine ⟨calm',?_⟩
    simp only [List.countP_append,List.countP_singleton]
    cases attempts : e.attemptsSpawn <;> cases restarts : e.operatorRestart <;>
      simp only [attempts,restarts,Bool.toNat_true,Bool.toNat_false] at gain ⊢ <;> simp <;> omega

/-- The policy law in every run in which no `wait` on a Temporary worker's child fails. -/
theorem follows_policy (cfg : Config) (now : Nat) (past : List (Taken World Event)) (s : World)
    (run : Run (step cfg) (initial now) past s)
    (asked : ∀ t ∈ past, cfg.spec.restartPolicy = .temporary → t.event.waitFails = false) :
    FollowsPolicy cfg.spec.restartPolicy past := by
  constructor
  · rintro before t after clean rfl ended ⟨u,later,attempt⟩
    obtain ⟨_,taken,rest⟩ := run.split
    by_contra never
    have doomed := end_doomed cfg t.pre t.event t.post clean taken ended
      (asked t (by simp)) (by simpa using never)
    have still := (rest.always_taken doomed (fun s e s' d h => (step_doomed cfg s e s' d h).1) later).1
    have silent := (step_doomed cfg u.pre u.event u.post still (rest.enabled later)).2
    simp [attempt] at silent
  · intro policy
    have count := (temporary_count cfg policy run fun t member => asked t member policy).2
    omega

/-- A Temporary worker restarted once by its operator: two spawns, then its own end. -/
theorem follows_policy_temporary : ∃ past s, Run (step (api .temporary)) (initial 0) past s ∧
    past.countP (fun t => t.event.attemptsSpawn) = 2 ∧ FollowsPolicy .temporary past := by
  obtain ⟨past,s,run,spawns,asked⟩ := exists_run (step (api .temporary)) (initial 0)
    [.act .register,.act .checkDrain,.act (.spawned 101),.act (.publish 0 none),.notifyRestart,
      .act .restartSignalBranch,.act (.publish 0 none),.act .stopReaped,.act .checkDrain,
      .act (.spawned 102),.act (.publish 0 none),.act (.childExit false),.act (.publish 0 none)]
    (fun past _ => past.countP (fun t => t.event.attemptsSpawn) = 2 ∧
      ∀ t ∈ past, (api .temporary).spec.restartPolicy = .temporary → t.event.waitFails = false)
    (by decide +kernel)
  exact ⟨past,s,run,spawns,follows_policy _ 0 past s run asked⟩

/-- A Temporary worker whose `wait` fails is spawned again without any operator restart. -/
theorem wait_error_respawns_temporary : ¬ ∀ (cfg : Config) now past s,
    Run (step cfg) (initial now) past s → FollowsPolicy cfg.spec.restartPolicy past := by
  intro law
  obtain ⟨past,s,run,spawns,restarts⟩ := exists_run (step (api .temporary)) (initial 0)
    [.act .register,.act .checkDrain,.act (.spawned 101),.act (.publish 0 none),
      .act (.waitError "No child processes"),.act (.publish 0 none),.act .limit,.act .checkDrain,
      .act (.spawned 102)]
    (fun past _ => past.countP (fun t => t.event.attemptsSpawn) = 2 ∧
      past.countP (fun t => t.event.operatorRestart) = 0) (by decide +kernel)
  have bound := (law (api .temporary) 0 past s run).2 rfl
  omega

end Malkuth.Supervise
