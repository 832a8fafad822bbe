import Malkuth.Server
import Malkuth.SuperviseBudget
import Malkuth.SuperviseDrain

/-! A worker inside the server. As long as its run is supervised, what the server does to
one worker is a run of `supervise_one` among its signals, its drain and the clock, so
whatever holds of such runs holds of every worker of every run. -/
namespace Malkuth.Mcp.Server

open Malkuth.Fleet Malkuth.Lifecycle Malkuth.Supervise Transition

def view (run worker : String) (s : Server) : World :=
  ⟨s.now,(s.runs run).drain,(s.runs run).workers worker⟩

def callLabel (run worker : String) : Call → Option Supervise.Event
  | .restart args .notify =>
    if args.runId = run ∧ args.workerId = worker then some .notifyRestart else none
  | .drain args (.storeKind kind _) => if args.runId = run then some (.storeKind kind) else none
  | .drain args (.storeDraining _ _) => if args.runId = run then some .storeDraining else none
  | _ => none

def label (run worker : String) (t : Taken Server Event) : Option Supervise.Event :=
  match t.event with
  | .supervise r w a => if r = run ∧ w = worker then some (.act a) else none
  | .tick ns => some (.tick ns)
  | .advance call _ => callLabel run worker (t.pre.calls call)
  | _ => none

/-- A run that has left the supervision does not come back to it. -/
theorem step_live (specs : Specs) (s s' : Server) (e : Event) (run : String)
    (taken : step specs s e = some s') (live : (s'.runs run).stage = .supervising) :
    (s.runs run).stage = .supervising := by
  have elsewhere : ∀ other h, (other = run → h.stage = .supervising → (s.runs run).stage = .supervising) →
      (Function.update s.runs other h run).stage = .supervising → (s.runs run).stage = .supervising := by
    intro other h keeps now
    by_cases same : other = run
    · subst same; exact keeps rfl (by simpa using now)
    · simpa [Function.update_of_ne (Ne.symm same)] using now
  cases step_moves specs s s' e taken with
  | supervised => exact elsewhere _ _ (by rintro rfl same; exact same) live
  | timedOut _ dropped =>
    obtain rfl := RunHandle.timeout_eq_some _ dropped
    exact elsewhere _ _ (by rintro rfl same; simp at same) live
  | concluded _ done =>
    obtain ⟨left,_⟩ := RunHandle.conclude_eq_some _ done
    exact elsewhere _ _ (by rintro rfl same; exact absurd same left) live
  | ticked | approved | restartBegun | drainBegun => exact live
  | restart here moves =>
    cases moves with
    | accepted | blocked | notified => exact elsewhere _ _ (by rintro rfl same; exact same) live
    | _ => exact live
  | drain here moves =>
    cases moves with
    | kindStored | drainStored => exact elsewhere _ _ (by rintro rfl same; exact same) live
    | _ => exact live

/-- A run that is still supervised has been so all the time. -/
theorem run_live (specs : Specs) (exec : Run (step specs) m past s) (run : String)
    (live : (s.runs run).stage = .supervising) : ∀ t ∈ past, (t.post.runs run).stage = .supervising := by
  induction exec with
  | nil => simp
  | @snoc past m e m' _ taken ih =>
    have earlier := ih (step_live specs m m' e run taken live)
    exact List.forall_mem_append.mpr ⟨earlier,List.forall_mem_singleton.mpr live⟩

@[simp] theorem view_setCall (s : Server) (run worker : String) (call : Nat) (c : Call) :
    view run worker (s.setCall call c) = view run worker s := rfl

theorem view_elsewhere (s : Server) (worker : String) (h : RunHandle) (other : run ≠ r) :
    view run worker (s.setRun r h) = view run worker s := by
  simp [view,other]

theorem view_setRun (s : Server) (run worker : String) (h : RunHandle) :
    view run worker (s.setRun run h) = ⟨s.now,h.drain,h.workers worker⟩ := by
  simp [view]

/-- A change of a run that keeps its drain and this worker is not seen. -/
theorem view_kept (s : Server) (run worker r : String) (h : RunHandle) (drain : h.drain = (s.runs r).drain)
    (kept : run = r → h.workers worker = (s.runs r).workers worker) :
    view run worker (s.setRun r h) = view run worker s := by
  by_cases same : run = r
  · subst same
    rw [view_setRun,drain,kept rfl,view]
  · exact view_elsewhere s worker h same

theorem setWorker_kept (h : RunHandle) (w : Worker) (elsewhere : ¬ (r = run ∧ other = worker)) :
    run = r → (h.setWorker other w).workers worker = h.workers worker := by
  rintro rfl
  have different : worker ≠ other := fun same => elsewhere ⟨rfl,same.symm⟩
  simp [RunHandle.setWorker,different]

theorem moves_follow (moves : RestartMoves spec s args r point m point') :
    Follows (Supervise.step cfg) (callLabel run worker (.restart args point))
      (view run worker s) (view run worker m) := by
  cases moves with
  | notified =>
    by_cases own : args.runId = run ∧ args.workerId = worker
    · obtain ⟨rfl,rfl⟩ := own
      simp [Follows,callLabel,view,Supervise.step,RunHandle.setWorker]
    · simp only [callLabel,own,if_false]
      exact view_kept s run worker args.runId _ rfl (setWorker_kept _ _ own)
  | accepted | blocked =>
    simp only [callLabel]
    apply view_kept
    · rfl
    · intro; rfl
  | refused reason before => cases point <;> simp_all [Follows,callLabel,RestartPoint.mayRefuse]
  | _ => rfl

theorem drains_follow (moves : DrainMoves s args r point m point') :
    Follows (Supervise.step cfg) (callLabel run worker (.drain args point))
      (view run worker s) (view run worker m) := by
  cases moves with
  | read reads => cases point <;> simp_all [Follows,callLabel,DrainPoint.onlyReads]
  | spent | unspent => rfl
  | kindStored | drainStored =>
    by_cases own : args.runId = run
    · subst own
      simp [Follows,callLabel,view,Supervise.step]
    · simp only [callLabel,own,if_false]
      exact view_elsewhere s worker _ (Ne.symm own)

/-- A step of the server is a step of the worker's supervision or is not seen by it. -/
theorem step_follows (specs : Specs) (t : Taken Server Event) (found : specs run = some spec)
    (known : spec.config worker = some cfg) (taken : step specs t.pre t.event = some t.post)
    (live : (t.post.runs run).stage = .supervising) :
    Follows (Supervise.step cfg) (label run worker t) (view run worker t.pre) (view run worker t.post) := by
  obtain ⟨s,e,s'⟩ := t
  simp only [label]
  cases step_moves specs s s' e taken with
  | @supervised r spec' other cfg' a w found' known' _ acted =>
    by_cases own : r = run ∧ other = worker
    · obtain ⟨rfl,rfl⟩ := own
      obtain rfl := Option.some.inj (found.symm.trans found')
      obtain rfl := Option.some.inj (known.symm.trans known')
      simp [Follows,view,Supervise.step,acted,RunHandle.setWorker]
    · simp only [own,if_false]
      exact view_kept s run worker r _ rfl (setWorker_kept _ _ own)
  | @timedOut r spec' h _ dropped =>
    obtain rfl := RunHandle.timeout_eq_some _ dropped
    apply view_elsewhere s worker
    rintro rfl
    simp at live
  | @concluded r spec' h _ done =>
    apply view_elsewhere s worker
    rintro rfl
    exact (RunHandle.conclude_eq_some _ done).1 (by simpa using live)
  | ticked | approved | restartBegun | drainBegun => rfl
  | restart here moves =>
    simp only [here,view_setCall]
    exact moves_follow moves
  | drain here moves =>
    simp only [here,view_setCall]
    exact drains_follow moves

/-- The supervision of a worker, as long as the server keeps it up. -/
theorem worker_run (specs : Specs) (found : specs run = some spec) (known : spec.config worker = some cfg)
    (exec : Run (step specs) m past s) (live : (s.runs run).stage = .supervising) :
    Run (Supervise.step cfg) (view run worker m) (watch (view run worker) (label run worker) past)
      (view run worker s) :=
  exec.follows fun t member => step_follows specs t found known (exec.enabled member)
    (run_live specs exec run live t member)

/-- The crash budget of a worker inside the server, whatever the calls do meanwhile. -/
theorem worker_budgeted (specs : Specs) (start : Nat) (found : specs run = some spec)
    (known : spec.config worker = some cfg) (small : cfg.maxRestarts + 1 < 2^32)
    (exec : Run (step specs) (initial start) past s) (live : (s.runs run).stage = .supervising) :
    Budgeted cfg (watch (view run worker) (label run worker) past) (view run worker s) :=
  run_budgeted cfg small (worker_run specs found known exec live)

/-- Once the drain bit of its run is set, a worker spawns at most one more child. -/
theorem worker_drained (specs : Specs) (found : specs run = some spec)
    (known : spec.config worker = some cfg) (bit : (m.runs run).drain.draining = true)
    (exec : Run (step specs) m later s) (live : (s.runs run).stage = .supervising) :
    (watch (view run worker) (label run worker) later).countP (fun t => t.event.spawns) ≤ 1 := by
  have count := (run_draining cfg (worker_run specs found known exec live) bit).2
  have most := aboutToSpawn_le (view run worker m).worker.point
  omega

end Malkuth.Mcp.Server
