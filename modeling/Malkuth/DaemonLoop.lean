import Malkuth.DaemonReload

/-! What makes the daemon go round its loop, and what may end it there. The next config is
read after the workers of the last one are gone, by the code that reads the first one; and
`Supervisor::run` returns when all workers have ended, whatever ended them. -/
namespace Malkuth.Daemon

open Malkuth.Lifecycle Malkuth.Supervise Transition

def reread (t : Taken State Event) : Option ReadResult :=
  match t.event with
  | .read result => if t.pre.iteration = 0 then none else some result
  | _ => none

/-- A reload neither ends the daemon nor, for want of a usable config, its workers. -/
def Survives (t : Taken State Event) : Prop :=
  ∀ result, reread t = some result →
    (∀ why, t.post.point ≠ .exited why) ∧ (usable result = false → t.post.finished = false)

theorem intoWorkerSpecs_eq_nil (cfg : DaemonConfig) : cfg.intoWorkerSpecs = [] ↔ usable (.ok cfg) = false := by
  simp [DaemonConfig.intoWorkerSpecs,usable]

theorem step_reading (steps : Steps s e s') (final : s.point = .reading → s.finished = true)
    (reading : s'.point = .reading) : s'.finished = true := by
  cases steps with
  | again _ finished => exact finished
  | act here => simp [here] at reading
  | unreadable | empty | shutdown | started => simp [State.startIteration] at reading
  | tick | hangup | exit | park | reloadBranch | exitBranch | storeKind | storeDraining => exact final reading

/-- When the config is read, no worker is left. -/
theorem run_reading (run : Run step (initial now) past s) (reading : s.point = .reading) : s.finished = true :=
  run.always (P := fun s => s.point = .reading → s.finished = true) (fun _ => rfl)
    (fun s e s' final taken => step_reading (step_steps s s' e taken).2 final) reading

/-- A read ends the daemon if what it returned is not usable. -/
theorem read_exits (steps : Steps s (.read result) s') :
    s.point = .reading ∧ (usable result = true → s'.point = .running) ∧
    (usable result = false → ∃ why, s'.point = .exited why) := by
  cases steps with
  | unreadable here => exact ⟨here,by simp [usable],fun _ => ⟨_,rfl⟩⟩
  | empty here none_ =>
    rw [intoWorkerSpecs_eq_nil] at none_
    exact ⟨here,by simp [none_],fun _ => ⟨_,rfl⟩⟩
  | started here some_ =>
    have good := mt (intoWorkerSpecs_eq_nil _).mpr some_
    exact ⟨here,fun _ => rfl,fun bad => absurd bad good⟩

theorem reread_some (some_ : reread t = some result) : t.event = .read result := by
  unfold reread at some_
  split at some_
  next event => split at some_ <;> simp_all
  next => contradiction

/-- The daemon survives every reload of a run if and only if every config after the first is
usable; where one is not, all workers are gone before it is read, and the daemon exits. -/
theorem reload_survives_iff (now : Nat) (past : List (Taken State Event)) (s : State)
    (run : Run step (initial now) past s) :
    ((∀ t ∈ past, Survives t) ↔ ∀ t ∈ past, ∀ result, reread t = some result → usable result = true) ∧
    ∀ t ∈ past, ∀ result, reread t = some result → usable result = false →
      t.pre.finished = true ∧ ∃ why, t.post.point = .exited why := by
  have reads : ∀ t ∈ past, ∀ result, reread t = some result → t.pre.finished = true ∧
      (usable result = true → t.post.point = .running) ∧
      (usable result = false → ∃ why, t.post.point = .exited why) := by
    intro t member result again
    obtain ⟨before,front,taken,_⟩ := run.upTo member
    obtain ⟨reading,good,bad⟩ := read_exits (reread_some again ▸ (step_steps _ _ _ taken).2)
    exact ⟨run_reading front reading,good,bad⟩
  refine ⟨⟨fun survives t member result again => ?_,fun good t member result again => ?_⟩,
    fun t member result again bad => ⟨(reads t member result again).1,(reads t member result again).2.2 bad⟩⟩
  · by_contra unusable
    obtain ⟨why,exited⟩ := (reads t member result again).2.2 (by simpa using unusable)
    exact (survives t member result again).1 why exited
  · have usable_ := good t member result again
    refine ⟨fun why => ?_,by simp [usable_]⟩
    simp [(reads t member result again).2.1 usable_]

theorem reload_survives_usable : ∃ past s, Run step (initial 0) past s ∧ s.iteration = 2 ∧
    s.point = .running ∧ ∀ t ∈ past, Survives t := by
  obtain ⟨past,s,run,second,running,good⟩ := exists_run step (initial 0)
    (reloads 1 101 ++ [.read (.ok (service .transient))])
    (fun past s => s.iteration = 2 ∧ s.point = .running ∧
      ∀ t ∈ past, (reread t).all (fun result => usable result) = true) (by decide +kernel)
  refine ⟨past,s,run,second,running,(reload_survives_iff 0 past s run).1.mpr ?_⟩
  intro t member result again
  simpa [again] using good t member

/-- A config that does not parse any more takes the daemon down at its reload. -/
theorem reload_exits : ¬ ∀ now past s, Run step (initial now) past s → ∀ t ∈ past, Survives t := by
  intro survives
  obtain ⟨past,s,run,t,member,again,exited⟩ := exists_run step (initial 0)
    (reloads 1 101 ++ [.read (.error "invalid TOML in malkuth.toml")])
    (fun past _ => ∃ t ∈ past, reread t = some (.error "invalid TOML in malkuth.toml") ∧
      t.post.point = .exited (.configRead "invalid TOML in malkuth.toml")) (by decide +kernel)
  exact (survives 0 past s run t member _ again).1 _ exited

def hangups (past : List (Taken State Event)) : Nat := past.countP fun t => t.event = .hangup

def Event.received : Event → Bool
  | .reloadBranch _ => true
  | _ => false

def receptions (past : List (Taken State Event)) : Nat := past.countP fun t => t.event.received

@[simp] theorem hangups_snoc (past : List (Taken State Event)) (t : Taken State Event) :
    hangups (past ++ [t]) = hangups past + if t.event = .hangup then 1 else 0 := by
  simp [hangups,List.countP_singleton]

@[simp] theorem receptions_snoc (past : List (Taken State Event)) (t : Taken State Event) :
    receptions (past ++ [t]) = receptions past + if t.event.received then 1 else 0 := by
  simp [receptions,List.countP_singleton]

/-- No SIGHUP is received twice. -/
theorem step_tokens (steps : Steps s e s') (paid : s.reload.tokens + receptions past ≤ hangups past) :
    s'.reload.tokens + receptions (past ++ [⟨s,e,s'⟩]) ≤ hangups (past ++ [⟨s,e,s'⟩]) := by
  rw [receptions_snoc,hangups_snoc]
  cases steps with
  | hangup =>
    have more := s.reload.tokens_notifyOne
    simp [Event.received]
    omega
  | reloadBranch here received =>
    have spent := Notify.tokens_receive _ _ _ received
    simp [Event.received]
    omega
  | @exitBranch m =>
    have passed := Notify.tokens_drop m s.reload
    simp [Event.received]
    omega
  | _ => simpa [Event.received,State.startIteration,State.setWiring] using paid

structure Owed (past : List (Taken State Event)) (s : State) : Prop where
  tokens : s.reload.tokens + receptions past ≤ hangups past
  waiting : s.exit = false → s.wiring s.iteration = .selecting → s.iteration ≤ receptions past + 1
  fired : s.exit = false → s.wiring s.iteration ≠ .selecting → s.iteration ≤ receptions past
  reading : s.point = .reading → s.iteration ≤ hangups past
  bound : s.iteration ≤ hangups past + 1

theorem Owed.kept (owed : Owed past s) (tokens : s'.reload.tokens + receptions past' ≤ hangups past')
    (iteration : s'.iteration = s.iteration) (exit : s'.exit = false → s.exit = false)
    (point : s'.point = .reading → s.point = .reading)
    (select : s'.wiring s.iteration = .selecting ↔ s.wiring s.iteration = .selecting)
    (same : receptions past' = receptions past) (more : hangups past ≤ hangups past') : Owed past' s' where
  tokens := tokens
  waiting stays here := by
    rw [iteration,select] at here
    rw [iteration,same]
    exact owed.waiting (exit stays) here
  fired stays gone := by
    rw [iteration,Ne,select] at gone
    rw [iteration,same]
    exact owed.fired (exit stays) gone
  reading here := by
    rw [iteration]
    exact Nat.le_trans (owed.reading (point here)) more
  bound := by
    rw [iteration]
    exact Nat.le_trans owed.bound (Nat.add_le_add_right more 1)

theorem step_owed (steps : Steps s e s') (wired : Wired s) (retired : Retired s)
    (drains : endsAlone ⟨s,e,s'⟩ = false) (owed : Owed past s) : Owed (past ++ [⟨s,e,s'⟩]) s' := by
  have tokens := step_tokens steps owed.tokens
  cases steps with
  | @reloadBranch m _ here received =>
    -- an earlier task has left its `select!`, so this is the one of the running iteration
    have begun := (wired m).begun_of (by simp [here])
    have last : ¬ m < s.iteration := fun earlier => retired m (.inl earlier) here
    obtain rfl : m = s.iteration := by omega
    refine ⟨tokens,fun _ again => ?_,fun stays _ => ?_,by simpa using owed.reading,by simpa using owed.bound⟩
    · simp [State.setWiring] at again
    · simpa [Event.received] using owed.waiting stays here
  | again here finished stays =>
    have bit : (s.drain s.iteration).draining = true := by simpa [endsAlone,stays] using drains
    have left : s.wiring s.iteration ≠ .selecting := by simp [(wired s.iteration).drained bit]
    have paid := owed.fired stays left
    have covered := owed.tokens
    exact ⟨tokens,by simpa [Event.received] using owed.waiting,by simpa [Event.received] using owed.fired,
      fun _ => by simp; omega,by simpa using owed.bound⟩
  | started here some_ =>
    have left := retired s.iteration (.inr ⟨rfl,here⟩)
    refine ⟨tokens,fun stays _ => ?_,fun _ gone => ?_,fun running => ?_,?_⟩
    · simpa [Event.received,State.startIteration] using owed.fired stays left
    · simp [State.startIteration] at gone
    · simp [State.startIteration] at running
    · simpa [State.startIteration] using owed.reading here
  | exitBranch here exits =>
    exact ⟨tokens,fun stays => by simp [exits] at stays,fun stays => by simp [exits] at stays,
      by simpa using owed.reading,by simpa using owed.bound⟩
  | @storeKind m here | @storeDraining m here =>
    refine owed.kept tokens rfl id id ?_ (by simp [Event.received]) (by simp)
    by_cases same : s.iteration = m
    · simp [State.setWiring,same,here]
    · simp [State.setWiring,same]
  | unreadable | empty | shutdown =>
    exact owed.kept tokens rfl id (by simp) Iff.rfl (by simp [Event.received]) (by simp)
  | exit => exact owed.kept tokens rfl (by simp) id Iff.rfl (by simp [Event.received]) (by simp)
  | tick | hangup | park | act =>
    exact owed.kept tokens rfl id id Iff.rfl (by simp [Event.received]) (by simp)

theorem run_owed (run : Run step (initial now) past s) (drains : ∀ t ∈ past, endsAlone t = false) :
    Owed past s := by
  induction run with
  | nil => constructor <;> simp [initial,receptions,hangups]
  | @snoc past s e s' before taken ih =>
    rw [List.forall_mem_append,List.forall_mem_singleton] at drains
    exact step_owed (step_steps s s' e taken).2 (run_wired before) (run_retired before drains.1) drains.2
      (ih drains.1)

/-- The worker has ended: its policy does not restart it, its budget is spent, or it was
drained. -/
def Ended (s : State) (k : Nat) : Prop := ∃ cfg w, s.workers[k]? = some (cfg,w) ∧ w.point.Over

theorem acts_over (acts : Acts cfg now drain w a w') (final : w.point.Over) :
    w'.point.Over ∧ ∀ pid, a ≠ .spawned pid := by
  cases acts with
  | cooldownOver | cooldownDrained => exact ⟨trivial,by simp⟩
  | finished => exact ⟨trivial,by simp⟩
  | _ => simp_all [Point.Over]

/-- A worker that has ended stays ended until the next iteration. -/
theorem step_ended (steps : Steps s e s') (ended : Ended s k) :
    s.iteration < s'.iteration ∨ (s'.iteration = s.iteration ∧ Ended s' k) := by
  cases steps with
  | started => exact .inl (Nat.lt_succ_self _)
  | @act i _ _ _ _ here found acts =>
    obtain ⟨cfg,w,known,final⟩ := ended
    refine .inr ⟨rfl,?_⟩
    by_cases same : i = k
    · subst same
      obtain ⟨rfl,rfl⟩ := Prod.mk.inj (Option.some.inj (found.symm.trans known))
      have inside := (List.getElem?_eq_some_iff.mp found).1
      exact ⟨_,_,List.getElem?_set_self inside,(acts_over acts final).1⟩
    · exact ⟨cfg,w,by simpa [List.getElem?_set_ne same] using known,final⟩
  | _ => exact .inr ⟨rfl,ended⟩

theorem step_iteration (steps : Steps s e s') : s.iteration ≤ s'.iteration := by
  cases steps with
  | started => exact Nat.le_succ _
  | _ => exact Nat.le_refl _

theorem run_ended (run : Run step m later s) (ended : Ended m k) :
    m.iteration < s.iteration ∨ (s.iteration = m.iteration ∧ Ended s k) := by
  induction run with
  | nil => exact .inr ⟨rfl,ended⟩
  | @snoc _ s e s' _ taken ih =>
    have steps := (step_steps s s' e taken).2
    rcases ih with later | ⟨same,still⟩
    · exact .inl (Nat.lt_of_lt_of_le later (step_iteration steps))
    · rw [← same]
      exact step_ended steps still

theorem spawned_not_ended (steps : Steps s (.act k (.spawned pid)) s') : ¬ Ended s k := by
  rintro ⟨cfg,w,known,final⟩
  cases steps with
  | act here found acts =>
    obtain ⟨rfl,rfl⟩ := Prod.mk.inj (Option.some.inj (found.symm.trans known))
    exact (acts_over acts final).2 pid rfl

/-- The end of a child after which its policy wants no other. -/
theorem exit_ended (steps : Steps s (.act k (.childExit clean)) s') (known : s.workers[k]? = some (cfg,w))
    (never : shouldRestart cfg.spec.restartPolicy clean = false) : Ended s' k := by
  cases steps with
  | act here found acts =>
    obtain ⟨rfl,rfl⟩ := Prod.mk.inj (Option.some.inj (found.symm.trans known))
    have inside := (List.getElem?_eq_some_iff.mp found).1
    cases acts with
    | exitRestarted _ retry => simp [never] at retry
    | exitLeft => exact ⟨_,_,List.getElem?_set_self inside,trivial⟩

/-- In every run in which no iteration ends without its drain: every iteration after the
first has a SIGHUP of its own before it; a worker whose policy does not restart it has ended;
and a worker that has ended is spawned again in a later iteration only. -/
theorem iterations_by_sighup (now : Nat) (past : List (Taken State Event)) (s : State)
    (run : Run step (initial now) past s) (drains : ∀ t ∈ past, endsAlone t = false) :
    s.iteration ≤ 1 + hangups past ∧
    (∀ t ∈ past, ∀ k clean cfg w, t.event = .act k (.childExit clean) → t.pre.workers[k]? = some (cfg,w) →
      shouldRestart cfg.spec.restartPolicy clean = false → Ended t.post k) ∧
    ∀ before t between u after k pid, past = before ++ t :: (between ++ u :: after) → Ended t.post k →
      u.event = .act k (.spawned pid) →
      t.post.iteration < u.pre.iteration ∧ u.pre.iteration ≤ 1 + hangups (before ++ t :: between) := by
  refine ⟨Nat.add_comm .. ▸ (run_owed run drains).bound,?_,?_⟩
  · intro t member k clean cfg w event known never
    exact exit_ended (event ▸ (step_steps _ _ _ (run.enabled member)).2) known never
  · intro before t between u after k pid cut ended spawns
    subst cut
    have whole : before ++ t :: (between ++ u :: after) = (before ++ t :: between) ++ u :: after := by simp
    rw [whole] at run drains
    obtain ⟨front,taken,_⟩ := run.split
    obtain ⟨_,_,middle⟩ := front.split
    constructor
    · refine (run_ended middle ended).resolve_right fun still => ?_
      exact spawned_not_ended (spawns ▸ (step_steps _ _ _ taken).2) still.2
    · have owed := run_owed front fun v earlier => drains v (List.mem_append_left _ earlier)
      exact Nat.add_comm .. ▸ owed.bound

/-- A service that may end, beside one that may not. -/
def mixed (policy : Fleet.RestartPolicy) : DaemonConfig :=
  ⟨60,5,30,[⟨"migrate","job",policy⟩,⟨"chest","backend",.permanent⟩]⟩

def up (k pid : Nat) : List Event :=
  [.act k .register,.act k .checkDrain,.act k (.spawned pid),.act k (.publish 0 none)]

/-- A transient worker exits cleanly and is back after a SIGHUP. -/
theorem iterations_by_sighup_transient : ∃ past s, Run step (initial 0) past s ∧ s.iteration = 2 ∧
    hangups past = 1 ∧ ¬ Ended s 0 ∧ s.iteration ≤ 1 + hangups past := by
  obtain ⟨past,s,run,second,once,drains,back⟩ := exists_run step (initial 0)
    (List.flatten [[.read (.ok (mixed .transient)),.park 1],up 0 101,up 1 102,
      [.act 0 (.childExit true),.act 0 (.publish 0 none),.hangup,.reloadBranch 1,.storeKind 1,.storeDraining 1,
        .act 1 .drainBranch,.act 1 (.publish 0 none),.act 1 .stopReaped,.act 1 (.publish 0 none),.returned,
        .read (.ok (mixed .transient))],up 0 103])
    (fun past s => s.iteration = 2 ∧ hangups past = 1 ∧ (∀ t ∈ past, endsAlone t = false) ∧
      (s.workers[0]?).all (fun w => w.2.point = .selecting) = true) (by decide +kernel)
  refine ⟨past,s,run,second,once,?_,(iterations_by_sighup 0 past s run drains).1⟩
  rintro ⟨cfg,w,known,final⟩
  have selecting : w.point = .selecting := by simpa [known] using back
  simp [selecting,Point.Over] at final

/-- The only worker is temporary: when it exits, the daemon spawns it again, unasked. -/
theorem iteration_without_sighup : ¬ ∀ now past s, Run step (initial now) past s →
    s.iteration ≤ 1 + hangups past := by
  intro asked
  obtain ⟨past,s,run,more⟩ := exists_run step (initial 0)
    (fades 1 101 ++ .read (.ok (service .temporary)) :: up 0 102)
    (fun past s => 1 + hangups past < s.iteration ∧ past.countP (fun t => t.event = .act 0 (.spawned 102)) = 1)
    (by decide +kernel)
  exact absurd (asked 0 past s run) (Nat.not_le_of_lt more.1)

end Malkuth.Daemon
