import Malkuth.Server

/-! From `notify_one` to the restart. Between the two there are the permit of the worker's
`Notify`, the four branches `supervise_one` races, and everything else the worker may
be doing when the permit arrives. -/
namespace Malkuth.Mcp.Server

open Malkuth.Fleet Malkuth.Lifecycle Malkuth.Supervise Transition

def fires (run worker : String) (t : Taken Server Event) : Bool :=
  match t.event with
  | .supervise r w .restartSignalBranch => r == run && w == worker
  | _ => false

def notifies (run worker : String) (t : Taken Server Event) : Bool :=
  match t.event with
  | .advance call _ =>
    match t.pre.calls call with
    | .restart args .notify => args.runId == run && args.workerId == worker
    | _ => false
  | _ => false

def spawns (run worker : String) (t : Taken Server Event) : Bool :=
  match t.event with
  | .supervise r w (.spawned _) => r == run && w == worker
  | _ => false

/-- A permit is stored, or the supervisor has consumed it and is on its way to stop this
child and spawn the next. -/
def Applying (w : Worker) : Prop := w.restartSignal.Stored ∨ w.point.Operator

/-- The restart branch fires at most once for each notification; and a child that was
spawned before a notification is being restarted. -/
def Delivered (run worker : String) (past : List (Taken Server Event)) (s : Server) : Prop :=
  past.countP (fires run worker) ≤ past.countP (notifies run worker) ∧
  ∀ before t after, past = before ++ t :: after → notifies run worker t = true →
    (∀ u ∈ after, spawns run worker u = false) →
    ((s.runs run).workers worker).child.isSome = true → Applying ((s.runs run).workers worker)

/-- The restart branch takes one permit; no other step of the worker loses or makes one. -/
theorem acts_tokens {now : Nat} (acts : Acts cfg now drain w a w') :
    (if a = .restartSignalBranch then 1 else 0) + w'.restartSignal.tokens ≤ w.restartSignal.tokens := by
  cases acts
  case restartSignalBranch signal here wired received =>
    have taken := Notify.tokens_receive _ _ _ received
    have dropped := Notify.tokens_drop () signal
    simp only [Worker.restart,Worker.unselect,if_true]
    omega
  case park here =>
    simp only [reduceCtorEq,if_false]
    split <;> simp
  case stopReaped why _ _ here | stopWaitError why _ _ here => cases why <;> simp [Worker.stopped]
  all_goals simp [Notify.tokens_drop]

/-- Every step but a spawn keeps a restart on its way: another branch of `select!` leaves
the permit stored, and the restart's own path ends without a child. -/
theorem acts_applying {now : Nat} (acts : Acts cfg now drain w a w') (calm : ∀ pid, a ≠ .spawned pid)
    (before : Applying w ∨ w.child = none) : Applying w' ∨ w'.child = none := by
  have returned := Notify.stored_drop () w.restartSignal
  cases acts
  case spawned pid here fresh => exact absurd rfl (calm pid)
  case restartSignalBranch => exact .inl (.inr trivial)
  case park here =>
    have kept : ((if cfg.spec.restartSignal then w.restartSignal.park () else w.restartSignal)).Stored ↔
        w.restartSignal.Stored := by
      split <;> simp [Notify.Stored]
    simpa [Applying,kept] using before
  case stopReaped why _ _ here | stopWaitError why _ _ here =>
    cases why <;> simp_all [Applying,Worker.stopped,Point.Operator]
  case stopTimeout why _ here late => cases why <;> simp_all [Applying,Point.Operator]
  -- off the restart's path: the signal is untouched, or its dropped future returns the permit
  all_goals
    rename_i here
    simp_all [Applying,Point.Operator]
    try tauto

/-- Changing another worker, of this run or not, is no concern of this one. -/
theorem setWorker_elsewhere (s : Server) (w : Worker) (elsewhere : ¬ (r = run ∧ other = worker)) :
    ((s.setRun r ((s.runs r).setWorker other w)).runs run).workers worker = (s.runs run).workers worker := by
  by_cases sameRun : run = r
  · subst sameRun
    have different : worker ≠ other := fun same => elsewhere ⟨rfl,same.symm⟩
    simp [RunHandle.setWorker,different]
  · simp [sameRun]

/-- Neither is a change of a run that keeps its workers. -/
theorem setRun_keeps_worker (s : Server) (r run worker : String) (h : RunHandle)
    (kept : h.workers = (s.runs r).workers) :
    ((s.setRun r h).runs run).workers worker = (s.runs run).workers worker := by
  by_cases sameRun : run = r
  · subst sameRun
    simp [kept]
  · simp [sameRun]

/-- What a step does to one worker: it is the worker's own step, or a notification for
it, or it leaves signal and child alone, or it drops the supervision of the run. -/
theorem step_worker (specs : Specs) (s : Server) (e : Event) (s' : Server) (run worker : String)
    (taken : step specs s e = some s') :
    (∃ cfg a, e = .supervise run worker a ∧
      Acts cfg s.now (s.runs run).drain ((s.runs run).workers worker) a ((s'.runs run).workers worker)) ∨
    (notifies run worker ⟨s,e,s'⟩ = true ∧ (s'.runs run).workers worker =
      { (s.runs run).workers worker with
        restartSignal := ((s.runs run).workers worker).restartSignal.notifyOne }) ∨
    ((∀ a, e ≠ .supervise run worker a) ∧ notifies run worker ⟨s,e,s'⟩ = false ∧
      ((s'.runs run).workers worker = (s.runs run).workers worker ∨
        (s'.runs run).workers worker = ((s.runs run).workers worker).update .stop ∨
        (s'.runs run).workers worker = { ((s.runs run).workers worker).unselect with child := none })) := by
  cases step_moves specs s s' e taken with
  | @supervised r spec other cfg a w found known live acted =>
    by_cases own : r = run ∧ other = worker
    · obtain ⟨rfl,rfl⟩ := own
      exact .inl ⟨cfg,a,rfl,by simpa [RunHandle.setWorker] using act_acts cfg _ _ _ _ a acted⟩
    · refine .inr (.inr ⟨?_,rfl,.inl (setWorker_elsewhere s w own)⟩)
      rintro b same
      injection same with sameRun sameWorker
      exact own ⟨sameRun,sameWorker⟩
  | @timedOut r spec h found dropped =>
    obtain rfl := RunHandle.timeout_eq_some _ dropped
    refine .inr (.inr ⟨by simp,rfl,?_⟩)
    by_cases sameRun : run = r
    · subst sameRun
      exact .inr (.inr (by simp))
    · exact .inl (by simp [sameRun])
  | @concluded r spec h found done =>
    obtain ⟨_,_,_,same | stopped⟩ := RunHandle.conclude_eq_some _ done
    · exact .inr (.inr ⟨by simp,rfl,.inl (setRun_keeps_worker s r run worker h same)⟩)
    · refine .inr (.inr ⟨by simp,rfl,?_⟩)
      by_cases sameRun : run = r
      · subst sameRun
        exact .inr (.inl (by simp [stopped]))
      · exact .inl (by simp [sameRun])
  | ticked | approved | restartBegun | drainBegun => exact .inr (.inr ⟨by simp,rfl,.inl rfl⟩)
  | @restart call args point r m point' here moves =>
    cases moves with
    | notified =>
      by_cases own : args.runId = run ∧ args.workerId = worker
      · obtain ⟨rfl,rfl⟩ := own
        exact .inr (.inl ⟨by simp [notifies,here],by simp [RunHandle.setWorker]⟩)
      · exact .inr (.inr ⟨by simp,by simpa [notifies,here] using own,
          .inl (setWorker_elsewhere s _ own)⟩)
    | accepted | blocked =>
      refine .inr (.inr ⟨by simp,by simp [notifies,here],.inl ?_⟩)
      rw [setCall_runs]
      apply setRun_keeps_worker
      rfl
    | refused reason before =>
      refine .inr (.inr ⟨by simp,?_,.inl rfl⟩)
      cases point <;> simp_all [notifies,RestartPoint.mayRefuse]
    | found | gated | approved | snapshot | spent | unspent =>
      exact .inr (.inr ⟨by simp,by simp [notifies,here],.inl rfl⟩)
  | drain here moves =>
    refine .inr (.inr ⟨by simp,by simp [notifies,here],.inl ?_⟩)
    cases moves with
    | read | spent | unspent => rfl
    | kindStored | drainStored =>
      rw [setCall_runs]
      apply setRun_keeps_worker
      rfl

/-- Dropping the supervision returns a permit that was handed out, and ends the child. -/
theorem unselect_tokens (w : Worker) : w.unselect.restartSignal.tokens ≤ w.restartSignal.tokens :=
  Notify.tokens_drop () w.restartSignal

theorem fires_iff (run worker : String) (t : Taken Server Event) :
    fires run worker t = true ↔ t.event = .supervise run worker .restartSignalBranch := by
  unfold fires
  split <;> simp_all

/-- Permits not yet received and restarts already begun, against notifications. -/
theorem run_tokens (specs : Specs) (run worker : String) (exec : Run (step specs) (initial start) past s) :
    past.countP (fires run worker) + ((s.runs run).workers worker).restartSignal.tokens ≤
      past.countP (notifies run worker) := by
  induction exec with
  | nil => simp [initial,RunHandle.new,Worker.initial]
  | @snoc past m e m' _ taken ih =>
    simp only [List.countP_append,List.countP_singleton]
    rcases step_worker specs m e m' run worker taken with
      ⟨cfg,a,rfl,acts⟩ | ⟨notified,w'⟩ | ⟨foreign,silent,kept⟩
    · have one := acts_tokens acts
      have fired : fires run worker ⟨m,.supervise run worker a,m'⟩ = true ↔ a = .restartSignalBranch := by
        simp [fires_iff]
      simp only [fired,notifies]
      split at one <;> simp_all <;> omega
    · have issued := Notify.tokens_notifyOne ((m.runs run).workers worker).restartSignal
      have idle : fires run worker ⟨m,e,m'⟩ = false := by
        cases e <;> simp_all [fires,notifies]
      simp only [notified,idle,w',if_true]
      simp
      omega
    · have idle : ¬ fires run worker ⟨m,e,m'⟩ = true := by
        rw [fires_iff]
        exact foreign _
      have fewer : ((m'.runs run).workers worker).restartSignal.tokens ≤
          ((m.runs run).workers worker).restartSignal.tokens := by
        rcases kept with same | stopped | dropped
        · exact Nat.le_of_eq (by rw [same])
        · rw [stopped]; exact Nat.le_refl _
        · rw [dropped]; exact unselect_tokens _
      simp only [silent,idle]
      simp
      omega

theorem step_applying (specs : Specs) (s : Server) (e : Event) (s' : Server) (run worker : String)
    (taken : step specs s e = some s') (calm : spawns run worker ⟨s,e,s'⟩ = false)
    (before : Applying ((s.runs run).workers worker) ∨ ((s.runs run).workers worker).child = none) :
    Applying ((s'.runs run).workers worker) ∨ ((s'.runs run).workers worker).child = none := by
  rcases step_worker specs s e s' run worker taken with
    ⟨cfg,a,rfl,acts⟩ | ⟨_,notified⟩ | ⟨_,_,same | stopped | dropped⟩
  · refine acts_applying acts ?_ before
    rintro pid rfl
    simp [spawns] at calm
  · rw [notified]
    exact .inl (.inl (Notify.stored_notifyOne _))
  · rw [same]; exact before
  · rw [stopped]; exact before
  · rw [dropped]; exact .inr rfl

theorem run_applying (specs : Specs) (run worker : String) (exec : Run (step specs) m after s)
    (calm : ∀ u ∈ after, spawns run worker u = false) (before : Applying ((m.runs run).workers worker)) :
    Applying ((s.runs run).workers worker) ∨ ((s.runs run).workers worker).child = none := by
  induction exec with
  | nil => exact .inl before
  | @snoc past m e m' _ taken ih =>
    exact step_applying specs m e m' run worker taken (calm _ (by simp))
      (ih fun u member => calm u (by simp [member]))

/-- An accepted restart is neither lost nor applied twice. -/
theorem restart_delivered (specs : Specs) (now : Nat) (past : List (Taken Server Event)) (s : Server)
    (run worker : String) (exec : Run (step specs) (initial now) past s) :
    Delivered run worker past s := by
  constructor
  · have bound := run_tokens specs run worker exec
    omega
  · rintro before t after rfl notified calm alive
    obtain ⟨_,taken,rest⟩ := exec.split
    have stored : Applying ((t.post.runs run).workers worker) := by
      rcases step_worker specs t.pre t.event t.post run worker taken with
        ⟨cfg,a,own,_⟩ | ⟨_,w'⟩ | ⟨_,silent,_⟩
      · simp [notifies,own] at notified
      · rw [w']; exact .inl (Notify.stored_notifyOne _)
      · simp [silent] at notified
    rcases run_applying specs run worker rest calm stored with applying | none
    · exact applying
    · simp [none] at alive

/-- A call that notifies while the child runs, and the restart that follows. -/
theorem restart_delivered_once : ∃ past s, Run (step twins) (initial 0) past s ∧
    past.countP (fires "run-1" "api") = 1 ∧ past.countP (notifies "run-1" "api") = 1 ∧
    Delivered "run-1" "api" past s := by
  obtain ⟨past,s,exec,fired,notified⟩ := exists_run (step twins) (initial 0)
    (List.flatten [[.supervise "run-1" "api" .register,.supervise "run-1" "api" .checkDrain,
      .supervise "run-1" "api" (.spawned 101),.supervise "run-1" "api" (.publish 0 none),
      .supervise "run-1" "api" .park,.approve ⟨"p1","api",none⟩ (.at 0),
      .restart 0 ⟨"run-1","api",some "p1"⟩],advances 0 7,
      [.supervise "run-1" "api" .restartSignalBranch]])
    (fun past _ => past.countP (fires "run-1" "api") = 1 ∧
      past.countP (notifies "run-1" "api") = 1) (by decide +kernel)
  exact ⟨past,s,exec,fired,notified,restart_delivered twins 0 past s "run-1" "api" exec⟩

end Malkuth.Mcp.Server
