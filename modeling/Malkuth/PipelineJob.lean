import Malkuth.RollingRestart

/-! What becomes of one trigger that passes the guards: the commands it executes, where it
stops, and whether it restarts a pod. -/
namespace Malkuth.Pipeline

open Transition

inductive Command where
  | stage (stage : BuildStage)
  | install (cmd : String)
  deriving DecidableEq, Repr

def todo (cfg : Config) (stages : List BuildStage) : List Command :=
  stages.map .stage ++ (cfg.install.map .install).toList

def plan (cfg : Config) : List Command := todo cfg cfg.stages

/-- The command that runs at a point of the loop. -/
def Point.command (cfg : Config) : Point → Option Command
  | .staging _ stage _ => some (.stage stage)
  | .installing _ => cfg.install.map .install
  | _ => none

/-- The command a step has seen the end of, and whether it succeeded. -/
def ended (cfg : Config) (t : Taken Machine Event) : Option (Command × Bool) :=
  match t.event with
  | .ran result => (t.pre.consumer.point.command cfg).map (·,result.isOk)
  | _ => none

def executed (cfg : Config) (past : List (Taken Machine Event)) : List (Command × Bool) := past.filterMap (ended cfg)

/-- Commands are executed in order, up to and including the first that fails. -/
inductive FailStop : List α → List (α × Bool) → Prop where
  | done : FailStop [] []
  | failed : FailStop (c :: rest) [(c,false)]
  | succeeded : FailStop rest ran → FailStop (c :: rest) ((c,true) :: ran)

def stagesOf (ran : List (Command × Bool)) : List (BuildStage × Bool) :=
  ran.filterMap fun c => match c.1 with
    | .stage stage => some (stage,c.2)
    | .install _ => none

def installsOf (ran : List (Command × Bool)) : List String :=
  ran.filterMap fun c => match c.1 with
    | .stage _ => none
    | .install cmd => some cmd

theorem stagesOf_stage : stagesOf ((.stage stage,ok) :: ran) = (stage,ok) :: stagesOf ran := by
  simp [stagesOf]

theorem installsOf_stage : installsOf ((.stage stage,ok) :: ran) = installsOf ran := by
  simp [installsOf]

/-- The commands so far have succeeded, and these are left. -/
def Succeeded (cfg : Config) (left : List Command) (ran : List (Command × Bool)) : Prop :=
  ∃ done, plan cfg = done ++ left ∧ ran = done.map (·,true)

theorem failStop_append (failStop : FailStop left ran) (done : List Command) :
    FailStop (done ++ left) (done.map (·,true) ++ ran) := by
  induction done with
  | nil => exact failStop
  | cons c done ih => exact .succeeded ih

theorem Succeeded.failStop (succeeded : Succeeded cfg left ran) (rest : FailStop left last) :
    FailStop (plan cfg) (ran ++ last) := by
  obtain ⟨done,whole,rfl⟩ := succeeded
  rw [whole]
  exact failStop_append rest done

theorem Succeeded.next (succeeded : Succeeded cfg (c :: left) ran) : Succeeded cfg left (ran ++ [(c,true)]) := by
  obtain ⟨done,whole,rfl⟩ := succeeded
  exact ⟨done ++ [c],by simpa using whole,by simp⟩

theorem Succeeded.all_ok (succeeded : Succeeded cfg left ran) : ran.all (·.2) = true := by
  obtain ⟨done,_,rfl⟩ := succeeded
  simp

/-- The decision, from what was executed and from the watched files afterwards. -/
def restarts (cfg : Config) (job : Job) (ran : List (Command × Bool)) (after : Mtimes) : Bool :=
  job.binaryChanged ||
    ran.all (·.2) && (mtimesChanged job.before after || cfg.stages.isEmpty && cfg.install.isNone)

def Handling (cfg : Config) (job : Job) (past : List (Taken Machine Event)) : Point → Prop
  | .receiving => ∃ after, (∃ u ∈ past, u.event = .finish after) ∧ FailStop (plan cfg) (executed cfg past) ∧
      (requests past ≠ [] ↔ restarts cfg job (executed cfg past) after = true)
  | .guarding _ => False
  | .staging own stage rest => own = job ∧ Succeeded cfg (todo cfg (stage :: rest)) (executed cfg past)
  | .installing own => own = job ∧ Succeeded cfg (todo cfg []) (executed cfg past) ∧ cfg.install.isSome = true
  | .finishing own why => own = job ∧ FailStop (plan cfg) (executed cfg past) ∧
      why.isNone = (executed cfg past).all (·.2)
  | .restarting => ∃ after, (∃ u ∈ past, u.event = .finish after) ∧ FailStop (plan cfg) (executed cfg past) ∧
      restarts cfg job (executed cfg past) after = true

theorem handling_run (cfg : Config) (job : Job) (past : List (Taken Machine Event)) (rest : List BuildStage)
    (succeeded : Succeeded cfg (todo cfg rest) (executed cfg past)) :
    Handling cfg job past (.run cfg job rest) := by
  cases rest with
  | cons stage rest => exact ⟨rfl,succeeded⟩
  | nil =>
    cases install : cfg.install with
    | some cmd => simpa [Point.run,install,Handling] using succeeded
    | none =>
      have nothing : FailStop (todo cfg []) [] := by simpa [todo,install] using FailStop.done
      have whole := succeeded.failStop nothing
      rw [List.append_nil] at whole
      simpa [Point.run,install,Handling,whole] using succeeded.all_ok

theorem executed_snoc (cfg : Config) : executed cfg (past ++ [t]) = executed cfg past ++ (ended cfg t).toList := by
  cases last : ended cfg t <;> simp [executed,last]

/-- A step by which the loop neither ends a command nor restarts a pod leaves what the
trigger has come to as it is, the point apart. -/
theorem handling_kept (cfg : Config) (job : Job) (point : Point) (handling : Handling cfg job past point)
    (quiet : ended cfg t = none) (other : ∀ pod, t.event ≠ .restartOne pod) :
    Handling cfg job (past ++ [t]) point := by
  have same : executed cfg (past ++ [t]) = executed cfg past := by rw [executed_snoc,quiet]; simp
  have asked : requests (past ++ [t]) = requests past := requests_snoc_other other
  have finished (after : Mtimes) (known : ∃ u ∈ past, u.event = .finish after) :
      ∃ u ∈ past ++ [t], u.event = .finish after := by
    obtain ⟨u,member,is⟩ := known
    exact ⟨u,List.mem_append_left _ member,is⟩
  cases point with
  | receiving =>
    obtain ⟨after,known,failStop,decision⟩ := handling
    exact ⟨after,finished after known,by rw [same]; exact failStop,by rw [same,asked]; exact decision⟩
  | restarting =>
    obtain ⟨after,known,failStop,decision⟩ := handling
    exact ⟨after,finished after known,by rw [same]; exact failStop,by rw [same]; exact decision⟩
  | guarding => exact handling
  | staging | installing | finishing =>
    simp only [Handling,same]
    exact handling

/-- The end of a command. -/
theorem handling_ran (cfg : Config) (job : Job) (s s' : Machine) (result : Except StageFailure Unit)
    (handling : Handling cfg job past s.consumer.point) (steps : Steps cfg s (.ran result) s') :
    Handling cfg job (past ++ [⟨s,.ran result,s'⟩]) s'.consumer.point := by
  have ran (command : Command) (is : s.consumer.point.command cfg = some command) :
      executed cfg (past ++ [⟨s,.ran result,s'⟩]) = executed cfg past ++ [(command,result.isOk)] := by
    rw [executed_snoc]
    simp [ended,is]
  cases steps with
  | @staged own stage rest here =>
    rw [here] at handling
    obtain ⟨rfl,succeeded⟩ := handling
    apply handling_run
    rw [ran (.stage stage) (by rw [here]; rfl)]
    exact succeeded.next
  | @stageFailed own stage rest e here =>
    rw [here] at handling
    obtain ⟨rfl,succeeded⟩ := handling
    refine ⟨rfl,?_,?_⟩
    · rw [ran (.stage stage) (by rw [here]; rfl)]
      exact succeeded.failStop .failed
    · rw [ran (.stage stage) (by rw [here]; rfl)]
      simp [Except.isOk,Except.toBool]
  | @installed own here =>
    rw [here] at handling
    obtain ⟨rfl,succeeded,configured⟩ := handling
    obtain ⟨cmd,install⟩ := Option.isSome_iff_exists.mp configured
    have last : todo cfg [] = [.install cmd] := by simp [todo,install]
    rw [last] at succeeded
    refine ⟨rfl,?_,?_⟩
    · rw [ran (.install cmd) (by rw [here]; simp [Point.command,install])]
      exact succeeded.failStop (.succeeded .done)
    · rw [ran (.install cmd) (by rw [here]; simp [Point.command,install])]
      exact succeeded.next.all_ok.symm
  | @installFailed own e here =>
    rw [here] at handling
    obtain ⟨rfl,succeeded,configured⟩ := handling
    obtain ⟨cmd,install⟩ := Option.isSome_iff_exists.mp configured
    have last : todo cfg [] = [.install cmd] := by simp [todo,install]
    rw [last] at succeeded
    refine ⟨rfl,?_,?_⟩
    · rw [ran (.install cmd) (by rw [here]; simp [Point.command,install])]
      exact succeeded.failStop .failed
    · rw [ran (.install cmd) (by rw [here]; simp [Point.command,install])]
      simp [Except.isOk,Except.toBool]

/-- The end of the pipeline: the decision is taken as `restarts` has it. -/
theorem handling_finish (cfg : Config) (job : Job) (s s' : Machine) (after : Mtimes)
    (handling : Handling cfg job past s.consumer.point) (silent : requests past = [])
    (steps : Steps cfg s (.finish after) s') :
    Handling cfg job (past ++ [⟨s,.finish after,s'⟩]) s'.consumer.point := by
  have same : executed cfg (past ++ [⟨s,.finish after,s'⟩]) = executed cfg past := by
    rw [executed_snoc]
    simp [ended]
  have asked : requests (past ++ [⟨s,.finish after,s'⟩]) = [] := by
    rw [requests_snoc_other (by simp),silent]
  have known : ∃ u ∈ past ++ [⟨s,.finish after,s'⟩], u.event = .finish after :=
    ⟨_,List.mem_append_right _ (List.mem_singleton_self _),rfl⟩
  cases steps with
  | @finished own why _ here =>
    rw [here] at handling
    obtain ⟨rfl,failStop,outcome⟩ := handling
    have decided : (s.consumer.finish cfg s.now own why after).point =
        if restarts cfg own (executed cfg past) after then .restarting else .receiving := by
      rw [restarts,← outcome]
      cases why with
      | some why => simp [Consumer.finish]
      | none =>
        cases changed : mtimesChanged own.before after <;> cases binary : own.binaryChanged <;>
          cases stages : cfg.stages <;> cases install : cfg.install <;>
          simp [Consumer.finish,changed,binary,stages,install]
    change Handling cfg own _ (s.consumer.finish cfg s.now own why after).point
    rw [decided]
    split
    next yes => exact ⟨after,known,by rw [same]; exact failStop,by rw [same]; exact yes⟩
    next no => exact ⟨after,known,by rw [same]; exact failStop,by rw [same]; simp [asked,no]⟩

/-- What the loop has done with a trigger, the requests included: `pod` has the turn. -/
structure Handled (cfg : Config) (job : Job) (pod : Nat) (past : List (Taken Machine Event)) (s : Machine) : Prop where
  handling : Handling cfg job past s.consumer.point
  asked : (requests past = [] ∧ s.consumer.turn cfg = pod) ∨
    (requests past = [pod] ∧ s.consumer.point = .receiving)

def loops : Event → Bool
  | .recv | .guard _ | .ran _ | .finish _ | .restartOne _ => true
  | _ => false

theorem beside_kept (steps : Steps cfg s e s') (beside : loops e = false) : s'.consumer = s.consumer := by
  cases steps <;> first | rfl | simp [loops] at beside

theorem handled_restarted (cfg : Config) (job : Job) (pod : Nat) (s s' : Machine)
    (handling : Handling cfg job past .restarting) (turn : requests past = [] ∧ s.consumer.turn cfg = pod)
    (back : s'.consumer.point = .receiving) :
    Handled cfg job pod (past ++ [⟨s,.restartOne (s.consumer.turn cfg),s'⟩]) s' := by
  obtain ⟨after,⟨u,member,finish⟩,failStop,decision⟩ := handling
  obtain ⟨silent,rfl⟩ := turn
  have same : executed cfg (past ++ [⟨s,.restartOne (s.consumer.turn cfg),s'⟩]) = executed cfg past := by
    rw [executed_snoc]
    simp [ended]
  have one : requests (past ++ [⟨s,.restartOne (s.consumer.turn cfg),s'⟩]) = [s.consumer.turn cfg] := by
    rw [requests_snoc_restartOne,silent]
    rfl
  refine ⟨?_,.inr ⟨one,back⟩⟩
  rw [back]
  refine ⟨after,⟨u,List.mem_append_left _ member,finish⟩,?_,?_⟩
  · rw [same]
    exact failStop
  · rw [same,one]
    simpa using decision

theorem handled_step (cfg : Config) (job : Job) (pod : Nat) (s s' : Machine) (e : Event)
    (handled : Handled cfg job pod past s) (same : e ≠ .recv) (steps : Steps cfg s e s') :
    Handled cfg job pod (past ++ [⟨s,e,s'⟩]) s' := by
  obtain ⟨handling,asked⟩ := handled
  have turn (other : ∀ pod, e ≠ .restartOne pod) (away : s.consumer.point ≠ .receiving)
      (kept : s'.consumer.turn cfg = s.consumer.turn cfg) :
      requests (past ++ [⟨s,e,s'⟩]) = [] ∧ s'.consumer.turn cfg = pod := by
    rcases asked with ⟨silent,turn⟩ | ⟨_,back⟩
    · exact ⟨by rw [requests_snoc_other other,silent],by rw [kept,turn]⟩
    · exact absurd back away
  cases loop : loops e with
  | false =>
    have kept := beside_kept steps loop
    have other : ∀ pod, e ≠ .restartOne pod := by rintro pod rfl; simp [loops] at loop
    have quiet : ended cfg ⟨s,e,s'⟩ = none := by cases e <;> first | rfl | simp [loops] at loop
    refine ⟨?_,?_⟩
    · rw [kept]
      exact handling_kept cfg job _ handling quiet other
    · rw [requests_snoc_other other,kept]
      exact asked
  | true =>
    cases steps with
    | tick | probed | sent | updated | woke | files => simp [loops] at loop
    | received => exact absurd rfl same
    | skipped here | started here => rw [here] at handling; exact handling.elim
    | staged here =>
      exact ⟨handling_ran cfg job s _ _ handling (.staged here),.inl (turn (by simp) (by simp [here]) rfl)⟩
    | stageFailed here =>
      exact ⟨handling_ran cfg job s _ _ handling (.stageFailed here),.inl (turn (by simp) (by simp [here]) rfl)⟩
    | installed here =>
      exact ⟨handling_ran cfg job s _ _ handling (.installed here),.inl (turn (by simp) (by simp [here]) rfl)⟩
    | installFailed here =>
      exact ⟨handling_ran cfg job s _ _ handling (.installFailed here),.inl (turn (by simp) (by simp [here]) rfl)⟩
    | @finished own why after here =>
      have away : s.consumer.point ≠ .receiving := by simp [here]
      have silent := (asked.resolve_right fun back => away back.2).1
      refine ⟨handling_finish cfg job s _ after handling silent (.finished here),.inl (turn (by simp) away ?_)⟩
      cases why <;> rfl
    | restarted here =>
      rw [here] at handling
      exact handled_restarted cfg job pod s _ handling (asked.resolve_right fun back => by simp [here] at back) rfl

theorem handled_run (cfg : Config) (job : Job) (start : Machine) (run : Run (step cfg) start later s)
    (started : start.consumer.point = .run cfg job cfg.stages) (same : ∀ u ∈ later, u.event ≠ .recv) :
    Handled cfg job (start.consumer.turn cfg) later s := by
  induction run with
  | nil =>
    refine ⟨?_,.inl ⟨rfl,rfl⟩⟩
    rw [started]
    exact handling_run cfg job [] cfg.stages ⟨[],rfl,rfl⟩
  | @snoc later s e s' _ taken ih =>
    rw [List.forall_mem_append,List.forall_mem_singleton] at same
    exact handled_step cfg job _ s s' e (ih same.1) same.2 (step_steps cfg s s' e taken)

/-- The steps the loop has still to take before it waits for the next trigger, at most. -/
def Point.left (cfg : Config) : Point → Nat
  | .receiving => 0
  | .guarding _ => (plan cfg).length + 3
  | .staging _ _ rest => (todo cfg rest).length + 3
  | .installing _ => 3
  | .finishing _ _ => 2
  | .restarting => 1

theorem left_run (cfg : Config) (job : Job) (stages : List BuildStage) :
    (Point.run cfg job stages).left cfg ≤ (todo cfg stages).length + 2 := by
  cases stages with
  | cons stage rest => simp [Point.run,Point.left,todo]
  | nil => cases install : cfg.install <;> simp [Point.run,Point.left,todo,install]

theorem left_step (steps : Steps cfg s e s') (same : e ≠ .recv) (loop : loops e = true) :
    s'.consumer.point.left cfg < s.consumer.point.left cfg := by
  cases steps with
  | tick | probed | sent | updated | woke | files => simp [loops] at loop
  | received => exact absurd rfl same
  | skipped here => simp [here,Machine.goto,Point.left]
  | @started trigger r here =>
    rw [here]
    exact Nat.lt_succ_of_le (left_run cfg (r.job cfg trigger) cfg.stages)
  | @staged job stage rest here =>
    rw [here]
    exact Nat.lt_succ_of_le (left_run cfg job rest)
  | stageFailed here => simp [here,Machine.goto,Point.left]
  | installed here | installFailed here => simp [here,Machine.goto,Point.left]
  | @finished job why after here =>
    rw [here]
    cases why <;> simp only [Consumer.finish] <;> repeat' split
    all_goals simp [Point.left]
  | restarted here => simp [here,Point.left]

theorem left_runs (cfg : Config) (run : Run (step cfg) start later s) (same : ∀ u ∈ later, u.event ≠ .recv) :
    (later.filter fun u => loops u.event).length + s.consumer.point.left cfg ≤ start.consumer.point.left cfg := by
  induction run with
  | nil => simp
  | @snoc later s e s' _ taken ih =>
    rw [List.forall_mem_append,List.forall_mem_singleton] at same
    have before := ih same.1
    have steps := step_steps cfg s s' e taken
    rw [List.filter_append,List.length_append]
    cases loop : loops e with
    | true =>
      have fewer := left_step steps same.2 loop
      simp only [List.filter_singleton,loop,cond_true,List.length_singleton]
      omega
    | false =>
      rw [beside_kept steps loop]
      simpa [loop] using before

/-- While it has a trigger the loop has a step to take. -/
theorem loop_enabled (cfg : Config) (s : Machine) (busy : s.consumer.point ≠ .receiving) :
    ∃ e, loops e = true ∧ e ≠ .recv ∧ (step cfg s e).isSome = true := by
  cases here : s.consumer.point with
  | receiving => exact absurd here busy
  | guarding trigger => exact ⟨.guard ⟨false,.disabled,id,∅⟩,rfl,by simp,by simp [step,here]⟩
  | staging job stage rest => exact ⟨.ran (.ok ()),rfl,by simp,by simp [step,here]⟩
  | installing job => exact ⟨.ran (.ok ()),rfl,by simp,by simp [step,here]⟩
  | finishing job why => exact ⟨.finish ∅,rfl,by simp,by simp [step,here]⟩
  | restarting => exact ⟨.restartOne (s.consumer.turn cfg),rfl,by simp,by simp [step,here,Consumer.turn]⟩

/-- The stages are executed up to and including the first that fails, and the install hook
if they all succeed. -/
theorem failStop_todo (cfg : Config) (stages : List BuildStage) (failStop : FailStop (todo cfg stages) ran) :
    FailStop stages (stagesOf ran) ∧
    installsOf ran = if (stagesOf ran).all (·.2) then cfg.install.toList else [] := by
  induction stages generalizing ran with
  | nil =>
    cases install : cfg.install with
    | none =>
      simp only [todo,install] at failStop
      cases failStop
      exact ⟨.done,rfl⟩
    | some cmd =>
      simp only [todo,install] at failStop
      cases failStop with
      | failed => exact ⟨.done,rfl⟩
      | succeeded rest =>
        cases rest
        exact ⟨.done,rfl⟩
  | cons stage stages ih =>
    change FailStop (.stage stage :: todo cfg stages) ran at failStop
    cases failStop with
    | failed =>
      rw [stagesOf_stage,installsOf_stage]
      exact ⟨.failed,rfl⟩
    | succeeded rest =>
      obtain ⟨stopped,installed⟩ := ih rest
      rw [stagesOf_stage,installsOf_stage]
      refine ⟨.succeeded stopped,?_⟩
      rw [List.all_cons,Bool.true_and]
      exact installed

theorem steps_passed (steps : Steps cfg s (.guard r) s') (here : s.consumer.point = .guarding trigger)
    (passes : s.consumer.skips cfg s.now r = false) : s' = s.goto (.run cfg (r.job cfg trigger) cfg.stages) := by
  cases steps with
  | skipped _ skips => simp [passes] at skips
  | started there => rw [Point.guarding.inj (here.symm.trans there)]

/-- A trigger that passes the guards, as long as no other is received. The loop takes a
bounded number of steps, and when it waits again it has executed the stages up to and
including the first that failed, the install hook if there is one and every stage
succeeded, and has restarted the pod whose turn it is, once, as the decision says. -/
theorem trigger_handled (cfg : Config) (now : Nat) (before : List (Taken Machine Event))
    (t : Taken Machine Event) (later : List (Taken Machine Event)) (s : Machine)
    (run : Run (step cfg) (initial now) (before ++ t :: later) s) (trigger : Trigger) (r : Readings)
    (here : t.pre.consumer.point = .guarding trigger) (guarded : t.event = .guard r)
    (passes : t.pre.consumer.skips cfg t.pre.now r = false) (same : ∀ u ∈ later, u.event ≠ .recv) :
    let ran := executed cfg later
    (requests later).length ≤ 1 ∧
    (later.filter fun u => loops u.event).length ≤ (plan cfg).length + 2 ∧
    (s.consumer.point ≠ .receiving → ∃ e, loops e = true ∧ e ≠ .recv ∧ (step cfg s e).isSome = true) ∧
    (s.consumer.point = .receiving →
      FailStop (plan cfg) ran ∧ FailStop cfg.stages (stagesOf ran) ∧
      installsOf ran = (if (stagesOf ran).all (·.2) then cfg.install.toList else []) ∧
      ∃ after, (∃ u ∈ later, u.event = .finish after) ∧
        requests later = if binaryChanged cfg r.normalizePath trigger ||
          ran.all (·.2) && (mtimesChanged r.before after || cfg.stages.isEmpty && cfg.install.isNone)
          then [t.pre.consumer.turn cfg] else []) := by
  obtain ⟨_,taken,rest⟩ := run.split
  rw [guarded] at taken
  have post := steps_passed (step_steps cfg _ _ _ taken) here passes
  have handled := handled_run cfg (r.job cfg trigger) t.post rest (by rw [post]; rfl) same
  have turn : t.post.consumer.turn cfg = t.pre.consumer.turn cfg := by rw [post]; rfl
  rw [turn] at handled
  refine ⟨?_,?_,loop_enabled cfg s,?_⟩
  · rcases handled.asked with ⟨silent,_⟩ | ⟨one,_⟩
    · simp [silent]
    · simp [one]
  · have bound := left_runs cfg rest same
    have first : t.post.consumer.point.left cfg ≤ (plan cfg).length + 2 := by rw [post]; exact left_run cfg _ _
    omega
  · intro back
    have handling := handled.handling
    rw [back] at handling
    obtain ⟨after,known,failStop,decision⟩ := handling
    obtain ⟨stages,install⟩ := failStop_todo cfg cfg.stages failStop
    refine ⟨failStop,stages,install,after,known,?_⟩
    change requests later = if restarts cfg (r.job cfg trigger) (executed cfg later) after then _ else _
    rcases handled.asked with ⟨silent,_⟩ | ⟨one,_⟩
    · have no : ¬ restarts cfg (r.job cfg trigger) (executed cfg later) after = true := fun yes => decision.mpr yes silent
      rw [if_neg no,silent]
    · have yes := decision.mp (by simp [one])
      rw [if_pos yes,one]

def hooked : Config :=
  { deploy 2 with stages := [⟨none,"vite build"⟩,⟨some "test","vitest run"⟩], install := some "cp -r dist /srv" }

/-- The tests fail after a change of a file that is not the binary: nothing is installed, and
nothing restarts. -/
theorem trigger_handled_failed : ∃ before t later s,
    Run (step hooked) (initial 0) (before ++ t :: later) s ∧ s.consumer.point = .receiving ∧
    FailStop hooked.stages (stagesOf (executed hooked later)) ∧
    stagesOf (executed hooked later) = [(⟨none,"vite build"⟩,true),(⟨some "test","vitest run"⟩,false)] ∧
    installsOf (executed hooked later) = [] ∧ requests later = [] := by
  obtain ⟨before,t,later,s,run,guarded,here,passes,same,back,ran⟩ := exists_run_cut (step hooked) (initial 0)
    [.files ["src/main.ts"],.recv] (.guard (readings 1)) [.ran (.ok ()),.ran (.error (.exit "1")),.finish ∅]
    (fun _ t later s => t.pre.consumer.point = .guarding (.files ["src/main.ts"]) ∧
      t.pre.consumer.skips hooked t.pre.now (readings 1) = false ∧
      (later.all fun u => match u.event with | .recv => false | _ => true) = true ∧
      s.consumer.point = .receiving ∧
      executed hooked later = [(.stage ⟨none,"vite build"⟩,true),(.stage ⟨some "test","vitest run"⟩,false)])
    (by decide +kernel)
  have others : ∀ u ∈ later, u.event ≠ .recv := by
    intro u member is
    simpa [is] using List.all_eq_true.mp same u member
  obtain ⟨_,_,_,ends⟩ := trigger_handled hooked 0 before t later s run _ _ here guarded passes others
  obtain ⟨_,stages,_,after,_,asked⟩ := ends back
  refine ⟨before,t,later,s,run,back,stages,by rw [ran]; rfl,by rw [ran]; rfl,?_⟩
  rw [ran] at asked
  simpa [binaryChanged,hooked,deploy] using asked

end Malkuth.Pipeline
