import Malkuth.Pipeline

/-! What becomes of a remote change. The poller compares a poll with the poll before it,
whether or not anything was made of that one; so a change lives on only as a trigger, and
is forgotten with the last trigger that carries it. -/
namespace Malkuth.Pipeline

open Transition

/-- The commits of the successful polls, in order; the first one primes the baseline. -/
def polls (past : List (Taken Machine Event)) : List String :=
  past.filterMap fun t => match t.event with
    | .probe (.ok sha) => some sha
    | _ => none

/-- A pipeline run for this commit that ends without a failure. -/
def Completes (sha : String) (t : Taken Machine Event) : Prop :=
  ∃ job after, t.event = .finish after ∧ t.pre.consumer.point = .finishing job none ∧ job.trigger = .remote sha

/-- The last poll found this commit, the first one did not, and no run for it has succeeded. -/
def Due (sha : String) (past : List (Taken Machine Event)) : Prop :=
  (polls past).getLast? = some sha ∧ (polls past).head? ≠ some sha ∧ ∀ t ∈ past, ¬ Completes sha t

def Point.trigger : Point → Option Trigger
  | .guarding trigger => some trigger
  | .staging job _ _ | .installing job | .finishing job _ => some job.trigger
  | .receiving | .restarting => none

/-- A trigger in the channel, or on its way into it. -/
def Waiting (sha : String) (s : Machine) : Prop :=
  .remote sha ∈ s.queue ∨ s.poller.point = .sending sha

def Pending (sha : String) (s : Machine) : Prop :=
  Waiting sha s ∨ s.consumer.point.trigger = some (.remote sha)

def Poller.awake (p : Poller) : Poller where
  baseline := match p.point with
    | .sending sha | .updating sha => some sha
    | _ => p.baseline
  point := .probing

/-- The next poll that returns this commit emits a trigger. -/
def Emits (sha : String) (s : Machine) : Prop := (s.poller.awake.probe (.ok sha)).point = .sending sha

def Remembered (past : List (Taken Machine Event)) (s : Machine) : Prop :=
  ∀ sha, Due sha past → Pending sha s ∨ Emits sha s

def Drops (cfg : Config) (sha : String) (t : Taken Machine Event) : Prop :=
  (∃ r, t.event = .guard r ∧ t.pre.consumer.point = .guarding (.remote sha) ∧
    t.pre.consumer.skips cfg t.pre.now r = true) ∨
  ∃ job why after, t.event = .finish after ∧ t.pre.consumer.point = .finishing job (some why) ∧
    job.trigger = .remote sha

/-- The only trigger for a commit that is due is dropped. -/
def Forgets (cfg : Config) (before : List (Taken Machine Event)) (t : Taken Machine Event) : Prop :=
  ∃ sha, Drops cfg sha t ∧ Due sha before ∧ ¬ Waiting sha t.pre

theorem polls_probe (past : List (Taken Machine Event)) (s s' : Machine) (sha : String) :
    polls (past ++ [⟨s,.probe (.ok sha),s'⟩]) = polls past ++ [sha] := by
  simp [polls]

theorem polls_quiet (past : List (Taken Machine Event)) (quiet : ∀ sha, t.event ≠ .probe (.ok sha)) :
    polls (past ++ [t]) = polls past := by
  obtain ⟨s,e,s'⟩ := t
  cases e with
  | probe result =>
    cases result with
    | error => simp [polls]
    | ok sha => exact absurd rfl (quiet sha)
  | _ => simp [polls]

@[simp] theorem awake_probe (p : Poller) (sha : String) : (p.probe (.ok sha)).awake.baseline = some sha := by
  unfold Poller.probe
  cases p.baseline with
  | none => rfl
  | some prev =>
    simp only
    split <;> rfl

/-- The poller always compares with the poll before, whatever the loop made of that one. -/
theorem run_awake (run : Run (step cfg) (initial now) past s) :
    (polls past).getLast? = s.poller.awake.baseline := by
  induction run with
  | nil => rfl
  | @snoc past s e s' _ taken ih =>
    have steps := step_steps cfg s s' e taken
    cases steps with
    | @probed result here =>
      cases result with
      | ok sha => simp [polls_probe]
      | error =>
        rw [polls_quiet past (by simp),ih]
        simp [Poller.probe,Poller.awake,here]
    | sent here | updated here | woke here =>
      rw [polls_quiet past (by simp),ih]
      simp [Poller.awake,here]
    | _ =>
      rw [polls_quiet past (by simp)]
      exact ih

/-- So a poll that finds the commit of the last one again emits nothing. -/
theorem due_not_emits (run : Run (step cfg) (initial now) past s) (due : Due sha past) : ¬ Emits sha s := by
  have baseline : s.poller.awake.baseline = some sha := (run_awake run).symm.trans due.1
  simp [Emits,Poller.probe,baseline]

/-- A trigger in the channel stays there, or is taken up by the loop. -/
theorem step_waiting (steps : Steps cfg s e s') (waiting : Waiting sha s) : Pending sha s' := by
  cases steps with
  | probed here =>
    refine .inl (.inl (waiting.resolve_right ?_))
    simp [here]
  | @sent other here _ =>
    rcases waiting with queued | sending
    · exact .inl (.inl (List.mem_append_left _ queued))
    · obtain rfl : other = sha := by simpa [here] using sending
      exact .inl (.inl (List.mem_append_right _ (List.mem_singleton_self _)))
  | updated here | woke here =>
    refine .inl (.inl (waiting.resolve_right ?_))
    simp [here]
  | files => exact .inl (waiting.imp_left (List.mem_append_left _))
  | received _ queued =>
    rcases waiting with member | sending
    · rw [queued] at member
      rcases List.mem_cons.mp member with same | later
      · exact .inr (congrArg some same.symm)
      · exact .inl (.inl later)
    · exact .inl (.inr sending)
  | _ => exact .inl waiting

@[simp] theorem run_trigger (cfg : Config) (job : Job) (stages : List BuildStage) :
    (Point.run cfg job stages).trigger = some job.trigger := by
  cases stages with
  | nil => simp only [Point.run]; split <;> rfl
  | cons => rfl

/-- The loop keeps its trigger until it drops it or its run succeeds. -/
theorem step_running (steps : Steps cfg s e s') (running : s.consumer.point.trigger = some (.remote sha)) :
    s'.consumer.point.trigger = some (.remote sha) ∨ Drops cfg sha ⟨s,e,s'⟩ ∨ Completes sha ⟨s,e,s'⟩ := by
  cases steps with
  | received here | restarted here => simp [here,Point.trigger] at running
  | skipped here skips =>
    obtain rfl := Option.some.inj (by simpa [here,Point.trigger] using running)
    exact .inr (.inl (.inl ⟨_,rfl,here,skips⟩))
  | started here | staged here =>
    left
    rw [here] at running
    exact (run_trigger ..).trans running
  | stageFailed here | installed here | installFailed here =>
    left
    rw [here] at running
    exact running
  | @finished job why _ here =>
    have mine : job.trigger = .remote sha := by simpa [here,Point.trigger] using running
    cases why with
    | none => exact .inr (.inr ⟨job,_,rfl,here,mine⟩)
    | some why => exact .inr (.inl (.inr ⟨job,why,_,rfl,here,mine⟩))
  | _ => exact .inl running

/-- A commit becomes due when it is sent; before that it was due already. -/
theorem due_before (run : Run (step cfg) (initial now) past s) (steps : Steps cfg s e s')
    (due : Due sha (past ++ [⟨s,e,s'⟩])) : Due sha past ∨ s'.poller.point = .sending sha := by
  obtain ⟨last,first,incomplete⟩ := due
  have earlier : ∀ t ∈ past, ¬ Completes sha t := fun t member => incomplete t (List.mem_append_left _ member)
  by_cases poll : ∃ found, e = .probe (.ok found)
  · obtain ⟨found,rfl⟩ := poll
    rw [polls_probe] at last first
    obtain rfl : found = sha := by simpa using last
    cases steps with
    | probed here =>
      have awake := run_awake run
      cases baseline : s.poller.baseline with
      | none =>
        -- the first poll primes the baseline
        have empty : polls past = [] := by simpa [Poller.awake,here,baseline] using awake
        simp [empty] at first
      | some prev =>
        by_cases moved : prev ≠ found
        · right
          simp [Poller.probe,baseline,moved]
        · left
          obtain rfl : prev = found := by simpa using moved
          have again : (polls past).getLast? = some prev := by simpa [Poller.awake,here,baseline] using awake
          refine ⟨again,?_,earlier⟩
          cases list : polls past with
          | nil => simp [list] at again
          | cons => simpa [list] using first
  · rw [polls_quiet past (fun found same => poll ⟨found,same⟩)] at last first
    exact .inl ⟨last,first,earlier⟩

theorem run_remembered (run : Run (step cfg) (initial now) past s)
    (kept : ∀ before t after, past = before ++ t :: after → ¬ Forgets cfg before t) : Remembered past s := by
  induction run with
  | nil =>
    intro sha due
    simp [Due,polls] at due
  | @snoc past s e s' run taken ih =>
    intro sha due
    have steps := step_steps cfg s s' e taken
    have before := ih fun before t after same => kept before t (after ++ [⟨s,e,s'⟩]) (by simp [same])
    left
    rcases due_before run steps due with due' | sending
    · rcases (before sha due').resolve_right (due_not_emits run due') with waiting | running
      · exact step_waiting steps waiting
      · rcases step_running steps running with running' | drops | completes
        · exact .inr running'
        · -- another trigger for the commit must be there
          have waiting : Waiting sha s := by
            by_contra gone
            exact kept past ⟨s,e,s'⟩ [] rfl ⟨sha,drops,due',gone⟩
          exact step_waiting steps waiting
        · exact absurd completes (due.2.2 _ (List.mem_append_right _ (List.mem_singleton_self _)))
    · exact .inl (.inr sending)

theorem Drops.running (drops : Drops cfg sha t) : t.pre.consumer.point.trigger = some (.remote sha) := by
  rcases drops with ⟨_,_,here,_⟩ | ⟨_,_,_,_,here,mine⟩
  · simp [here,Point.trigger]
  · simp [here,Point.trigger,mine]

/-- A drop leaves the channel and the poller alone, and the loop without a trigger. -/
theorem drops_idle (drops : Drops cfg sha ⟨s,e,s'⟩) (steps : Steps cfg s e s') :
    (Waiting sha s' ↔ Waiting sha s) ∧ s'.consumer.point.trigger = none := by
  rcases drops with ⟨r,rfl,here,skips⟩ | ⟨job,why,after,rfl,here,mine⟩
  · cases steps with
    | skipped => exact ⟨.rfl,rfl⟩
    | started _ passes => simp [skips] at passes
  · cases steps with
    | finished here' =>
      obtain ⟨rfl,rfl⟩ := Point.finishing.inj (here'.symm.trans here)
      refine ⟨.rfl,?_⟩
      simp only [Consumer.finish]
      split <;> rfl

theorem drops_due (drops : Drops cfg sha t) (due : Due sha past) : Due sha (past ++ [t]) := by
  have quiet : polls (past ++ [t]) = polls past := by
    apply polls_quiet
    intro found
    rcases drops with ⟨_,event,_⟩ | ⟨_,_,_,event,_⟩ <;> simp [event]
  have incomplete : ¬ Completes sha t := by
    rintro ⟨job,after,event,here,_⟩
    rcases drops with ⟨_,event',_⟩ | ⟨_,_,_,_,here',_⟩
    · simp [event] at event'
    · simp [here] at here'
  have never : ∀ u ∈ past ++ [t], ¬ Completes sha u :=
    List.forall_mem_append.mpr ⟨due.2.2,List.forall_mem_singleton.mpr incomplete⟩
  exact ⟨quiet ▸ due.1,quiet ▸ due.2.1,never⟩

theorem not_remembered (run : Run (step cfg) (initial now) before t.pre)
    (taken : step cfg t.pre t.event = some t.post) (forgets : Forgets cfg before t) :
    ¬ Remembered (before ++ [t]) t.post := by
  obtain ⟨sha,drops,due,gone⟩ := forgets
  obtain ⟨waiting,idle⟩ := drops_idle drops (step_steps cfg _ _ _ taken)
  have due' := drops_due drops due
  intro remembered
  rcases remembered sha due' with (there | running) | emits
  · exact gone (waiting.mp there)
  · simp [idle] at running
  · exact due_not_emits (run.snoc taken) due' emits

/-- A remote change is remembered in every state of a run, if and only if no step of the run
drops the only trigger of a change that is due. -/
theorem remembered_iff (cfg : Config) (now : Nat) (past : List (Taken Machine Event)) (s : Machine)
    (run : Run (step cfg) (initial now) past s) :
    (∀ before t after, past = before ++ t :: after → Remembered (before ++ [t]) t.post) ↔
      ∀ before t after, past = before ++ t :: after → ¬ Forgets cfg before t := by
  constructor
  · rintro remembered before t after rfl forgets
    obtain ⟨front,taken,_⟩ := run.split
    exact not_remembered front taken forgets (remembered before t after rfl)
  · rintro kept before t after rfl
    obtain ⟨front,taken,_⟩ := run.split
    refine run_remembered (front.snoc taken) ?_
    intro before' u after' same
    exact kept before' u (after' ++ after) (by rw [List.append_cons,same]; simp)

def building : Config where
  stages := [⟨none,"cargo build"⟩]
  install := none
  watch := []
  watchRemote := some "https://host/org/repo.git#master"
  pauseFile := some "pause"
  buildLock := none
  binaryPath := none
  podCount := 1

def moved : List Event := [.probe (.ok "a"),.wake,.probe (.ok "b"),.send,.update,.recv]

/-- Nothing is paused: the trigger is run, and nothing is forgotten. -/
theorem remembered_building : ∃ before t, Run (step building) (initial 0) (before ++ [t]) t.post ∧
    polls (before ++ [t]) = ["a","b"] ∧ t.post.consumer.point.trigger = some (.remote "b") ∧
    Remembered (before ++ [t]) t.post := by
  obtain ⟨before,t,after,s,run,_,kept,polled,running⟩ := exists_run_cut (step building) (initial 0) moved
    (.guard ⟨false,.disabled,id,∅⟩) []
    (fun before t after _ => (∀ u ∈ before ++ t :: after, u.pre.consumer.point.trigger ≠ none →
      u.post.consumer.point.trigger ≠ none) ∧ polls (before ++ [t]) = ["a","b"] ∧
      t.post.consumer.point.trigger = some (.remote "b")) (by decide +kernel)
  have remembered := (remembered_iff building 0 _ s run).mpr (by
    intro before' u after' same forgets
    obtain ⟨sha,drops,_⟩ := forgets
    have member : u ∈ before ++ t :: after := by simp [same]
    have idle := (drops_idle drops (step_steps building _ _ _ (run.enabled member))).2
    exact kept u member (by simp [drops.running]) idle)
  obtain ⟨front,taken,_⟩ := run.split
  exact ⟨before,t,front.snoc taken,polled,running,remembered before t after rfl⟩

/-- The pause file is there when the trigger comes to the guards: no later poll of the same
commit brings it back. -/
theorem paused_forgets : ¬ ∀ (cfg : Config) (now : Nat) (past : List (Taken Machine Event)) (s : Machine),
    Run (step cfg) (initial now) past s →
      ∀ before t after, past = before ++ t :: after → Remembered (before ++ [t]) t.post := by
  intro always
  obtain ⟨before,t,after,s,run,event,here,skips,polled,idle,gone⟩ := exists_run_cut (step building) (initial 0)
    moved (.guard ⟨true,.disabled,id,∅⟩) []
    (fun before t _ _ => t.pre.consumer.point = .guarding (.remote "b") ∧
      t.pre.consumer.skips building t.pre.now ⟨true,.disabled,id,∅⟩ = true ∧ polls before = ["a","b"] ∧
      (∀ u ∈ before, u.pre.consumer.point.trigger = none) ∧
      ¬ (.remote "b" ∈ t.pre.queue ∨ t.pre.poller.point = .sending "b")) (by decide +kernel)
  obtain ⟨front,taken,_⟩ := run.split
  have due : Due "b" before := by
    refine ⟨by simp [polled],by simp [polled],?_⟩
    rintro u member ⟨job,_,_,finishing,_⟩
    have none_ := idle u member
    simp [finishing,Point.trigger] at none_
  exact not_remembered front taken ⟨"b",.inl ⟨_,event,here,skips⟩,due,gone⟩ (always building 0 _ s run before t after rfl)

end Malkuth.Pipeline
