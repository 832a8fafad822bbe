import Malkuth.RestartSignal
import Malkuth.DrainDeadline

/-! The end of a run as others see it. Its workers publish `stopped`, each by itself, or all at once when
the timeout has dropped them; only then is the run marked as finished. -/
namespace Malkuth.Mcp

open Malkuth.Fleet Malkuth.Lifecycle Malkuth.Supervise Transition

def Silent (shown : WorkerSnapshot) : Prop :=
  shown.phase = .stopped ∧ shown.pid = none ∧ shown.starttime = none

def StoppedEntry (w : Worker) : Prop := ∀ e ∈ w.entry, Silent e.snapshot

/-- Nothing of this run is supervised any more. -/
def Over (h : RunHandle) : Prop := h.stage = .ended ∨ h.stage = .finished

theorem isFinished_iff (h : RunHandle) : h.isFinished = true ↔ h.stage = .finished := by
  simp [RunHandle.isFinished]

theorem Silent.withUptime (wall : Int) (silent : Silent e.snapshot) : Silent (FleetEntry.withUptime wall e) := by
  unfold FleetEntry.withUptime
  split <;> exact silent

theorem stoppedEntry_stop (w : Worker) : StoppedEntry (w.update .stop) := by
  intro e member
  obtain ⟨before,_,rfl⟩ := Option.map_eq_some_iff.mp member
  exact ⟨rfl,rfl,rfl⟩

/-- What a snapshot of the fleet shows, entry by entry. -/
theorem fleetSnapshot_all {spec : RunSpec} {wall : Nat → Int} {h : RunHandle}
    (silent : ∀ cfg ∈ spec.workers, StoppedEntry (h.workers cfg.spec.id)) :
    ∀ shown ∈ h.fleetSnapshot spec wall, Silent shown := by
  intro shown member
  rw [RunHandle.fleetSnapshot,List.mem_mergeSort] at member
  obtain ⟨⟨e,k⟩,inside,rfl⟩ := List.mem_map.mp member
  obtain ⟨cfg,known,entry⟩ := List.mem_filterMap.mp (List.fst_mem_of_mem_zipIdx inside)
  exact (silent cfg known e entry).withUptime _

theorem acts_returned_stopped {now : Nat} (acts : Acts cfg now drain w a w') (returned : w'.point = .returned info) :
    StoppedEntry w' := by
  cases acts with
  | finished here =>
    intro e member
    obtain ⟨before,_,rfl⟩ := Option.map_eq_some_iff.mp member
    exact ⟨rfl,rfl,rfl⟩
  | @stopReaped why | @stopWaitError why =>
    cases why <;> simp [Worker.stopped,Worker.leave,Worker.again] at returned
  | park here => simp [here] at returned
  | _ => simp [Worker.leave,Worker.again,Worker.restart] at returned

theorem parseDrainKind_causes (raw : Option String) (ok : parseDrainKind raw = .ok kind) : kind.causesDrain = true := by
  unfold parseDrainKind at ok
  split at ok
  · obtain rfl := Except.ok.inj ok; rfl
  · split at ok
    · obtain rfl := Except.ok.inj ok; rfl
    · split at ok
      · obtain rfl := Except.ok.inj ok; rfl
      · contradiction

theorem setWorker_entry (h : RunHandle) (other : String) (w : Worker) (same : w.entry = (h.workers other).entry)
    (worker : String) : ((h.setWorker other w).workers worker).entry = (h.workers worker).entry := by
  by_cases own : worker = other
  · subst own
    simpa [RunHandle.setWorker] using same
  · simp [RunHandle.setWorker,own]

namespace Server

/-- What a step does to a run, as far as its end goes. -/
theorem step_run (specs : Specs) (s s' : Server) (e : Event) (run : String) (taken : step specs s e = some s') :
    (∃ spec, e = .conclude run ∧ specs run = some spec ∧ (s.runs run).conclude spec = some (s'.runs run)) ∨
    ((s.runs run).stage = .supervising ∧ (s'.runs run).stage = .timedOut) ∨
    (s'.runs run).stage = (s.runs run).stage ∧ ((s.runs run).stage = .supervising ∨
      ∀ worker, ((s'.runs run).workers worker).entry = ((s.runs run).workers worker).entry) := by
  have other (r : String) (h : RunHandle) (apart : r ≠ run) : ((s.setRun r h).runs run) = s.runs run := by
    simp [Ne.symm apart]
  cases step_moves specs s s' e taken with
  | @supervised r spec worker cfg a w found known live acted =>
    by_cases same : r = run
    · subst same
      exact .inr (.inr ⟨by simp [RunHandle.setWorker],.inl live⟩)
    · rw [other r _ same]
      exact .inr (.inr ⟨rfl,.inr fun _ => rfl⟩)
  | @timedOut r spec h found dropped =>
    by_cases same : r = run
    · subst same
      have live : (s.runs r).stage = .supervising := by
        unfold RunHandle.timeout at dropped
        split at dropped
        next open_ => exact open_.1
        · contradiction
      obtain rfl := RunHandle.timeout_eq_some _ dropped
      exact .inr (.inl ⟨live,by simp⟩)
    · rw [other r _ same]
      exact .inr (.inr ⟨rfl,.inr fun _ => rfl⟩)
  | @concluded r spec h found done =>
    by_cases same : r = run
    · subst same
      exact .inl ⟨spec,rfl,found,by simpa using done⟩
    · rw [other r _ same]
      exact .inr (.inr ⟨rfl,.inr fun _ => rfl⟩)
  | ticked | approved | restartBegun | drainBegun => exact .inr (.inr ⟨rfl,.inr fun _ => rfl⟩)
  | @restart call args point r m point' here moves =>
    cases moves with
    | notified =>
      refine .inr (.inr ?_)
      rw [setCall_runs]
      by_cases same : args.runId = run
      · subst same
        rw [setRun_runs,Function.update_self]
        exact ⟨rfl,.inr (setWorker_entry _ _ _ rfl)⟩
      · rw [other args.runId _ same]
        exact ⟨rfl,.inr fun _ => rfl⟩
    | accepted | blocked =>
      refine .inr (.inr ?_)
      rw [setCall_runs]
      by_cases same : args.runId = run
      · subst same
        rw [setRun_runs,Function.update_self]
        exact ⟨rfl,.inr fun _ => rfl⟩
      · rw [other args.runId _ same]
        exact ⟨rfl,.inr fun _ => rfl⟩
    | _ => exact .inr (.inr ⟨rfl,.inr fun _ => rfl⟩)
  | @drain call args point r m point' here moves =>
    cases moves with
    | read | spent | unspent => exact .inr (.inr ⟨rfl,.inr fun _ => rfl⟩)
    | kindStored | drainStored =>
      refine .inr (.inr ?_)
      rw [setCall_runs]
      by_cases same : args.runId = run
      · subst same
        rw [setRun_runs,Function.update_self]
        exact ⟨rfl,.inr fun _ => rfl⟩
      · rw [other args.runId _ same]
        exact ⟨rfl,.inr fun _ => rfl⟩

/-- What a step does to the controller of a run. -/
theorem step_controller (specs : Specs) (s s' : Server) (e : Event) (run : String) (taken : step specs s e = some s') :
    (s'.runs run).drain = (s.runs run).drain ∨ (∃ kind, (s'.runs run).drain = (s.runs run).drain.storeKind kind) ∨
    (s'.runs run).drain = (s.runs run).drain.storeDraining ∧ ((s.runs run).stage = .kindStored ∨
      ∃ call args kind already, args.runId = run ∧ s.calls call = .drain args (.storeDraining kind already)) := by
  have updated (r : String) (h : RunHandle) (m : Server) (runs : m.runs = Function.update s.runs r h)
      (own : r = run → h.drain = (s.runs run).drain ∨ (∃ kind, h.drain = (s.runs run).drain.storeKind kind) ∨
        h.drain = (s.runs run).drain.storeDraining ∧ ((s.runs run).stage = .kindStored ∨
          ∃ call args kind already, args.runId = run ∧ s.calls call = .drain args (.storeDraining kind already))) :
      (m.runs run).drain = (s.runs run).drain ∨ (∃ kind, (m.runs run).drain = (s.runs run).drain.storeKind kind) ∨
      (m.runs run).drain = (s.runs run).drain.storeDraining ∧ ((s.runs run).stage = .kindStored ∨
        ∃ call args kind already, args.runId = run ∧ s.calls call = .drain args (.storeDraining kind already)) := by
    rw [runs]
    by_cases same : r = run
    · subst same
      simpa using own rfl
    · simp [Ne.symm same]
  cases step_moves specs s s' e taken with
  | supervised => exact updated _ _ _ rfl (by rintro rfl; exact .inl rfl)
  | timedOut _ dropped =>
    obtain rfl := RunHandle.timeout_eq_some _ dropped
    exact updated _ _ _ rfl (by rintro rfl; exact .inl rfl)
  | @concluded r spec h found done =>
    refine updated r h _ rfl ?_
    rintro rfl
    unfold RunHandle.conclude at done
    split at done
    · split at done
      · obtain rfl := Option.some.inj done; exact .inl rfl
      · contradiction
    · obtain rfl := Option.some.inj done; exact .inr (.inl ⟨_,rfl⟩)
    next here => obtain rfl := Option.some.inj done; exact .inr (.inr ⟨rfl,.inl here⟩)
    · obtain rfl := Option.some.inj done; exact .inl rfl
    · obtain rfl := Option.some.inj done; exact .inl rfl
    · contradiction
  | ticked | approved | restartBegun | drainBegun => exact .inl rfl
  | restart here moves =>
    cases moves with
    | accepted | blocked | notified => exact updated _ _ _ rfl (by rintro rfl; exact .inl rfl)
    | _ => exact .inl rfl
  | drain here moves =>
    cases moves with
    | read | spent | unspent => exact .inl rfl
    | kindStored => exact updated _ _ _ rfl (by rintro rfl; exact .inr (.inl ⟨_,rfl⟩))
    | drainStored =>
      exact updated _ _ _ rfl (by rintro rfl; exact .inr (.inr ⟨rfl,.inr ⟨_,_,_,_,rfl,here⟩⟩))

/-- What holds of every run in every state: who has returned is published as stopped, and so are all workers
of a run that is over; and where the drain bit is set, a kind was stored before. -/
structure Settled (specs : Specs) (s : Server) : Prop where
  returned : ∀ run worker info, ((s.runs run).workers worker).point = .returned info →
    StoppedEntry ((s.runs run).workers worker)
  over_ : ∀ run spec, specs run = some spec → Over (s.runs run) →
    ∀ cfg ∈ spec.workers, StoppedEntry ((s.runs run).workers cfg.spec.id)
  kind : ∀ run, (s.runs run).drain.draining = true ∨ (s.runs run).stage = .kindStored → (s.runs run).drain.kind.isSome = true
  storing : ∀ call args kind already, s.calls call = .drain args (.storeDraining kind already) →
    (s.runs args.runId).drain.kind.isSome = true

theorem step_kind (specs : Specs) (s s' : Server) (e : Event) (run : String) (taken : step specs s e = some s')
    (stored : (s.runs run).drain.kind.isSome = true) : (s'.runs run).drain.kind.isSome = true := by
  rcases step_controller specs s s' e run taken with same | ⟨kind,same⟩ | ⟨same,_⟩ <;> rw [same]
  · exact stored
  · rfl
  · exact stored

theorem allReturned_point {h : RunHandle} {spec : RunSpec} (all : h.allReturned spec = true) (member : cfg ∈ spec.workers) :
    ∃ info, (h.workers cfg.spec.id).point = .returned info := by
  have here := List.all_eq_true.mp all cfg member
  split at here
  next info returned => exact ⟨info,returned⟩
  · contradiction

/-- The conclusion of a run keeps it settled. -/
theorem conclude_over {h h' : RunHandle} {spec : RunSpec} (done : h.conclude spec = some h')
    (returned : ∀ worker info, (h.workers worker).point = .returned info → StoppedEntry (h.workers worker))
    (before : Over h → ∀ cfg ∈ spec.workers, StoppedEntry (h.workers cfg.spec.id)) (after : Over h') :
    ∀ cfg ∈ spec.workers, StoppedEntry (h'.workers cfg.spec.id) := by
  unfold RunHandle.conclude at done
  split at done
  · split at done
    next all =>
      obtain rfl := Option.some.inj done
      intro cfg member
      obtain ⟨info,here⟩ := allReturned_point all member
      exact returned _ info here
    · contradiction
  · obtain rfl := Option.some.inj done; simp [Over] at after
  · obtain rfl := Option.some.inj done; simp [Over] at after
  · obtain rfl := Option.some.inj done; exact fun _ _ => stoppedEntry_stop _
  next here => obtain rfl := Option.some.inj done; exact before (.inl here)
  · contradiction

theorem conclude_kind {h h' : RunHandle} {spec : RunSpec} (done : h.conclude spec = some h')
    (stage : h'.stage = .kindStored) : h'.drain.kind.isSome = true := by
  unfold RunHandle.conclude at done
  split at done
  · split at done
    · obtain rfl := Option.some.inj done; simp at stage
    · contradiction
  · obtain rfl := Option.some.inj done; rfl
  · obtain rfl := Option.some.inj done; simp at stage
  · obtain rfl := Option.some.inj done; simp at stage
  · obtain rfl := Option.some.inj done; simp at stage
  · contradiction

theorem step_settled (specs : Specs) (s : Server) (e : Event) (s' : Server) (settled : Settled specs s)
    (taken : step specs s e = some s') : Settled specs s' where
  returned := by
    intro run worker info here
    rcases step_worker specs s e s' run worker taken with
      ⟨cfg,a,_,acts⟩ | ⟨_,notified⟩ | ⟨_,_,same | stopped | dropped⟩
    · exact acts_returned_stopped acts here
    · rw [notified] at here ⊢
      exact settled.returned run worker info here
    · rw [same] at here ⊢
      exact settled.returned run worker info here
    · rw [stopped]
      exact stoppedEntry_stop _
    · rw [dropped] at here ⊢
      exact settled.returned run worker info here
  over_ := by
    intro run spec known after
    rcases step_run specs s s' e run taken with ⟨spec',_,found,done⟩ | ⟨_,timedOut⟩ | ⟨stage,kept⟩
    · obtain rfl := Option.some.inj (known.symm.trans found)
      exact conclude_over done (settled.returned run) (settled.over_ run spec known) after
    · simp [Over,timedOut] at after
    · have before : Over (s.runs run) := by simpa [Over,stage] using after
      rcases kept with live | same
      · simp [Over,live] at before
      · intro cfg member
        unfold StoppedEntry
        rw [same]
        exact settled.over_ run spec known before cfg member
  kind := by
    rintro run (bit | stage)
    · rcases step_controller specs s s' e run taken with same | ⟨kind,same⟩ | ⟨same,stored | ⟨call,args,kind,already,rfl,at_⟩⟩ <;>
        rw [same]
      · exact settled.kind run (.inl (same ▸ bit))
      · rfl
      · exact settled.kind run (.inr stored)
      · exact settled.storing call args kind already at_
    · rcases step_run specs s s' e run taken with ⟨spec,_,_,done⟩ | ⟨_,timedOut⟩ | ⟨same,_⟩
      · exact conclude_kind done stage
      · simp [timedOut] at stage
      · exact step_kind specs s s' e run taken (settled.kind run (.inr (same ▸ stage)))
  storing := by
    intro call args kind already here
    rcases step_drains specs s s' e call taken here with ⟨_,same⟩ | ⟨_,_,start⟩ | ⟨r,point,rfl,at_,steps⟩
    · exact step_kind specs s s' e _ taken (settled.storing call args kind already (same.trans here))
    · cases start
    · obtain ⟨m,point',moved,rfl⟩ := step_drain specs s _ taken at_
      cases steps with
      | drains =>
        cases moved
        simp [DrainController.storeKind]

theorem run_settled (specs : Specs) (exec : Run (step specs) (initial start) past s) : Settled specs s := by
  refine exec.always ⟨?_,?_,?_,?_⟩ (step_settled specs)
  · intro run worker info here
    simp [initial,RunHandle.new,Worker.initial] at here
  · intro run spec _ over_
    simp [Over,initial,RunHandle.new] at over_
  · simp [initial,RunHandle.new,DrainController.new]
  · simp [initial]

theorem step_finished (specs : Specs) (s s' : Server) (e : Event) (run : String) (taken : step specs s e = some s')
    (finished : (s.runs run).isFinished = true) : (s'.runs run).isFinished = true := by
  rw [isFinished_iff] at finished ⊢
  rcases step_run specs s s' e run taken with ⟨spec,_,_,done⟩ | ⟨live,_⟩ | ⟨same,_⟩
  · simp [RunHandle.conclude,finished] at done
  · simp [live] at finished
  · exact same.trans finished

/-- What a drain call has in hand is true of its run: the bit is set before it waits, and a wait that was
not cut short ends with the run. -/
def Tells (h : RunHandle) : DrainPoint → Prop
  | .checkDraining kind | .validate kind _ _ | .storeKind kind _ | .storeDraining kind _ => kind.causesDrain = true
  | .setDeadline .. | .waiting .. => h.drain.draining = true
  | .readFleet _ _ timedOut => h.drain.draining = true ∧ (timedOut = false → h.isFinished = true)
  | .readDraining _ _ timedOut workers => h.drain.draining = true ∧
      (timedOut = false → h.isFinished = true ∧ ∀ shown ∈ workers, Silent shown)
  | .readFinished _ _ timedOut draining workers => h.drain.draining = true ∧ draining = true ∧
      (timedOut = false → h.isFinished = true ∧ ∀ shown ∈ workers, Silent shown)
  | .answered (.ok a) => h.drain.draining = true ∧ a.draining = true ∧ (a.finished = true → h.isFinished = true) ∧
      (a.timedOut = false → a.finished = true ∧ ∀ shown ∈ a.workers, Silent shown)
  | _ => True

theorem Tells.mono {h h' : RunHandle} (tells : Tells h point) (bit : h.drain.draining = true → h'.drain.draining = true)
    (finished : h.isFinished = true → h'.isFinished = true) : Tells h' point := by
  cases point with
  | checkDraining | validate | storeKind | storeDraining => exact tells
  | setDeadline | waiting => exact bit tells
  | readFleet => exact ⟨bit tells.1,fun waited => finished (tells.2 waited)⟩
  | readDraining => exact ⟨bit tells.1,fun waited => (tells.2 waited).imp_left finished⟩
  | readFinished => exact ⟨bit tells.1,tells.2.1,fun waited => (tells.2.2 waited).imp_left finished⟩
  | answered answer =>
    cases answer with
    | ok a => exact ⟨bit tells.1,tells.2.1,fun told => finished (tells.2.2.1 told),tells.2.2.2⟩
    | error => trivial
  | findRun | panicked => trivial

theorem drainAdvance_tells (settled : Settled specs s) (taken : drainAdvance (specs args.runId) s args r point = some (m,point'))
    (tells : Tells (s.runs args.runId) point) : Tells (m.runs args.runId) point' := by
  cases point with
  | findRun =>
    simp only [drainAdvance] at taken
    split at taken
    · cases taken; trivial
    · split at taken
      · cases taken; trivial
      next parsed => cases taken; exact parseDrainKind_causes _ parsed
  | checkDraining kind =>
    simp only [drainAdvance] at taken
    split at taken
    · cases taken; exact tells
    · split at taken
      · cases taken; trivial
      · cases taken; exact tells
  | validate kind p w =>
    simp only [drainAdvance] at taken
    split at taken
    · cases taken; exact tells
    · cases taken; trivial
  | storeKind kind already =>
    have causes : kind.causesDrain = true := tells
    cases taken
    rw [if_pos causes]
    exact causes
  | storeDraining kind already =>
    cases taken
    simp [Tells,DrainController.storeDraining]
  | setDeadline kind already =>
    cases taken
    split
    · exact tells
    · trivial
  | waiting kind already deadline =>
    simp only [drainAdvance] at taken
    split at taken
    next finished => cases taken; exact ⟨tells,fun _ => finished⟩
    · split at taken <;> cases taken
      · exact ⟨tells,by simp⟩
      · exact tells
  | readFleet kind already timedOut =>
    obtain ⟨spec,known,rest⟩ := Option.bind_eq_some_iff.mp taken
    cases rest
    refine ⟨tells.1,fun waited => ⟨tells.2 waited,?_⟩⟩
    exact fleetSnapshot_all (settled.over_ _ spec known (.inr ((isFinished_iff _).mp (tells.2 waited))))
  | readDraining kind already timedOut workers => cases taken; exact ⟨tells.1,tells.1,tells.2⟩
  | readFinished kind already timedOut draining workers =>
    cases taken
    exact ⟨tells.1,tells.2.1,id,tells.2.2⟩
  | answered answer => cases taken
  | panicked => cases taken

theorem run_tells (specs : Specs) (exec : Run (step specs) (initial start) past s) (here : s.calls call = .drain args point) :
    Tells (s.runs args.runId) point := by
  induction exec generalizing args point with
  | nil => simp [initial] at here
  | @snoc past m e m' before taken ih =>
    have keeps (tells : Tells (m.runs args.runId) point) : Tells (m'.runs args.runId) point :=
      tells.mono (step_bit specs m m' e args.runId taken) (step_finished specs m m' e args.runId taken)
    rcases step_drains specs m m' e call taken here with ⟨_,same⟩ | ⟨_,_,rfl⟩ | ⟨r,p,rfl,at_,_⟩
    · exact keeps (ih (same.trans here))
    · trivial
    · obtain ⟨n,next,moved,rfl⟩ := step_drain specs m _ taken at_
      simp only [setCall_calls,Function.update_self,Call.drain.injEq,true_and] at here
      subst here
      have told := drainAdvance_tells (run_settled specs before) moved (ih at_)
      simpa using told

def drainAnswer (s : Server) (call : Nat) : Option (DrainArgs × Except Failure DrainAccepted) :=
  match s.calls call with
  | .drain args (.answered answer) => some (args,answer)
  | _ => none

theorem drainAnswer_call (answered : drainAnswer s call = some (args,answer)) :
    s.calls call = .drain args (.answered answer) := by
  unfold drainAnswer at answered
  split at answered
  next here => obtain ⟨rfl,rfl⟩ := Prod.mk.inj (Option.some.inj answered); exact here
  · contradiction

/-- A drain that is answered `ok` is under way, with a kind; and unless its wait was cut short, the
run is finished, and every worker of the answer is stopped and has no process. -/
theorem drain_answers_true (specs : Specs) (exec : Run (step specs) (initial start) past s)
    (answered : drainAnswer s call = some (args,.ok a)) :
    a.draining = true ∧ (s.runs args.runId).drain.draining = true ∧ (s.runs args.runId).drain.kind.isSome = true ∧
    (a.finished = true → (s.runs args.runId).isFinished = true) ∧
    (a.timedOut = false → a.finished = true ∧ ∀ shown ∈ a.workers, Silent shown) := by
  obtain ⟨bit,draining,finished,waited⟩ := run_tells specs exec (drainAnswer_call answered)
  exact ⟨draining,bit,(run_settled specs exec).kind _ (.inl bit),finished,waited⟩

def inTime : DrainArgs × Except Failure DrainAccepted → Bool
  | (_,.ok a) => !a.timedOut
  | (_,.error _) => false

/-- The worker is stopped, the run ends, and the drain says so. -/
theorem drain_answers_true_stopped : ∃ past s args a, Run (step twins) (initial 0) past s ∧
    drainAnswer s 0 = some (args,.ok a) ∧ a.draining = true ∧ a.finished = true ∧ ∀ shown ∈ a.workers, Silent shown := by
  obtain ⟨past,s,exec,told⟩ := exists_run (step twins) (initial 0)
    (List.flatten [[.supervise "run-1" "api" .register,.supervise "run-1" "api" .checkDrain,
      .supervise "run-1" "api" (.spawned 101),.supervise "run-1" "api" (.publish 0 none),
      .approve ⟨"p1","api",none⟩ (.at 0),.drain 0 ⟨"run-1",none,none,some "p1",some "api"⟩],advances 0 6,
      [.supervise "run-1" "api" .drainBranch,.supervise "run-1" "api" (.publish 1 none),
      .supervise "run-1" "api" .stopReaped,.supervise "run-1" "api" (.publish 2 none),.conclude "run-1",
      .conclude "run-1"],advances 0 4])
    (fun _ s => (drainAnswer s 0).any inTime = true) (by decide +kernel)
  obtain ⟨⟨args,answer⟩,answered,waited⟩ := (Option.any_eq_true ..).mp told
  cases answer with
  | error => contradiction
  | ok a =>
    obtain ⟨draining,_,_,_,over_⟩ := drain_answers_true twins exec answered
    exact ⟨past,s,args,a,exec,answered,draining,over_ (by simpa [inTime] using waited)⟩

end Server

end Malkuth.Mcp
