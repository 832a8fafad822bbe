import Malkuth.Supervise
import Mathlib.Data.List.Nodup
import Mathlib.Data.List.Perm.Basic
import Mathlib.Data.Option.Basic

/-! `Supervisor::run` of `worker.rs`: one `supervise_one` for each spec under one drain controller,
and the loop that collects what they return, in the order in which they do. -/
namespace Malkuth.SupervisorRun

open Malkuth.Fleet Malkuth.Lifecycle Transition Supervise

structure Supervisor where
  specs : List WorkerSpec
  maxRestarts : Nat
  window : Nat
  cooldown : Nat
  sink : Bool
  u32 : maxRestarts < 2^32

def Supervisor.config (sup : Supervisor) (spec : WorkerSpec) : Config :=
  ⟨spec,sup.maxRestarts,sup.window,sup.cooldown,sup.sink,sup.u32⟩

/-- `collected` are the workers whose futures the loop has taken, `results` what they returned. -/
structure World where
  now : Nat
  drain : DrainController
  workers : Nat → Worker
  collected : List Nat
  results : List WorkerInfo

inductive Event where
  | act (i : Nat) (a : Action)
  | collect (i : Nat)
  | tick (ns : Nat)
  | storeKind (kind : ShutdownKind)
  | storeDraining
  | notifyRestart (i : Nat)
  | notifyDrain (i : Nat)
  deriving DecidableEq

def World.set (s : World) (i : Nat) (w : Worker) : World := { s with workers := Function.update s.workers i w }

def step (sup : Supervisor) (s : World) : Event → Option World
  | .act i a => do
    let spec ← sup.specs[i]?
    let w ← (s.workers i).act (sup.config spec) s.now s.drain a
    some (s.set i w)
  | .collect i =>
    match (s.workers i).point with
    | .returned info =>
      if i ∈ s.collected ∨ sup.specs.length ≤ i then none
      else some { s with collected := s.collected ++ [i], results := s.results ++ [info] }
    | _ => none
  | .tick ns => some { s with now := s.now + ns }
  | .storeKind kind => some { s with drain := s.drain.storeKind kind }
  | .storeDraining => some { s with drain := s.drain.storeDraining }
  | .notifyRestart i => some (s.set i { s.workers i with restartSignal := (s.workers i).restartSignal.notifyOne })
  | .notifyDrain i => some (s.set i { s.workers i with drainSignal := (s.workers i).drainSignal.notifyOne })

def initial (now : Nat) : World := ⟨now,.new,fun _ => .initial,[],[]⟩

def Event.own : Event → Bool
  | .act _ a => a ≠ .park
  | .collect _ => true
  | _ => false

def stepsLeft : Point → Nat
  | .spawning => 9
  | .publishRunning => 8
  | .selecting => 7
  | .publishRestarting .operator => 6
  | .publishRestarting .ended => 5
  | .publishDraining _ => 5
  | .publishSpawnFailure => 5
  | .stopping .restart _ killed => if killed then 4 else 5
  | .stopping .drain _ killed => if killed then 3 else 4
  | .limiting _ => 4
  | .entering => 4
  | .cooling _ => 3
  | .loopHead => 3
  | .finishing => 2
  | .returned _ => 1

theorem acts_left (acts : Acts cfg now drain w a w') (bit : drain.draining = true) :
    stepsLeft w'.point + (if a ≠ .park then 1 else 0) ≤ stepsLeft w.point := by
  cases acts with
  | register here | draining here | spawned here | spawnFailed here | spawnRetried here | spawnGivenUp here
  | running here | endPublished here | restartPublished here | drainPublished here | finished here | tripped here
  | respawned here | restarted here | cooldownOver here | cooldownDrained here | park here | exitRestarted here
  | exitLeft here | waitError here | drainBranch here | drainSignalBranch here | restartSignalBranch here =>
    simp [here,stepsLeft]
  | @stopTimeout why _ here => cases why <;> simp [here,stepsLeft]
  | proceed here clear => simp [bit] at clear
  | @stopReaped why _ killed here | @stopWaitError why _ killed here =>
    cases why <;> cases killed <;> simp [here,stepsLeft,Worker.stopped]

/-- A worker that the drain bit has reached can always go on. -/
theorem acts_enabled (cfg : Config) (now : Nat) (drain : DrainController) (w : Worker) (bit : drain.draining = true)
    (going : ∀ info, w.point ≠ .returned info) : ∃ a, a ≠ .park ∧ (w.act cfg now drain a).isSome = true := by
  cases point : w.point with
  | entering => exact ⟨.register,by simp,by simp [Worker.act,point]⟩
  | loopHead => exact ⟨.checkDrain,by simp,by simp [Worker.act,point]⟩
  | spawning => exact ⟨.spawnFailed "",by simp,by simp [Worker.act,point]⟩
  | publishSpawnFailure | publishRunning | publishDraining grace | finishing =>
    exact ⟨.publish 0 none,by simp,by simp [Worker.act,Worker.publish,point]⟩
  | publishRestarting cause => cases cause <;> exact ⟨.publish 0 none,by simp,by simp [Worker.act,Worker.publish,point]⟩
  | selecting => exact ⟨.drainBranch,by simp,by simp [Worker.act,point,bit]⟩
  | limiting site => exact ⟨.limit,by simp,by simp [Worker.act,point]⟩
  | cooling wakeAt => exact ⟨.cooldownDrained,by simp,by simp [Worker.act,point,bit]⟩
  | stopping why deadline killed => exact ⟨.stopReaped,by simp,by simp [Worker.act,point]⟩
  | returned info => exact absurd point (going info)

theorem acts_returned (acts : Acts cfg now drain w a w') (returned : w.point = .returned info) : False := by
  cases acts with
  | _ here => simp [returned] at here

/-- What a worker returns is its info as it stays. -/
theorem acts_info (acts : Acts cfg now drain w a w') (returned : w'.point = .returned info) : info = w'.info cfg := by
  cases acts with
  | finished here =>
    obtain rfl := Point.returned.inj returned
    rfl
  | stopReaped here | stopWaitError here => simp [Worker.stopped] at returned; split at returned <;> simp at returned
  | park here => simp [here] at returned
  | _ => simp at returned

def World.info (sup : Supervisor) (s : World) (i : Nat) : Option WorkerInfo :=
  sup.specs[i]?.map fun spec => (s.workers i).info (sup.config spec)

structure Sound (sup : Supervisor) (s : World) : Prop where
  once : s.collected.Nodup
  known : ∀ i ∈ s.collected, i < sup.specs.length
  returned : ∀ i ∈ s.collected, ∃ info, (s.workers i).point = .returned info
  infos : ∀ i spec info, sup.specs[i]? = some spec → (s.workers i).point = .returned info →
    info = (s.workers i).info (sup.config spec)
  results : s.results.map some = s.collected.map (s.info sup)

/-- One worker has changed; if it was collected, not in what counts. -/
theorem Sound.replace (sound : Sound sup s)
    (infos : ∀ spec info, sup.specs[i]? = some spec → w.point = .returned info → info = w.info (sup.config spec))
    (kept : i ∈ s.collected → w.point = (s.workers i).point ∧ ∀ cfg, w.info cfg = (s.workers i).info cfg) :
    Sound sup (s.set i w) where
  once := sound.once
  known := sound.known
  returned j member :=
    update_holds (fun w : Worker => ∃ info, w.point = Point.returned info) (sound.returned j member) fun same => by
      subst same
      rw [(kept member).1]
      exact sound.returned _ member
  infos j spec info found returned := by
    by_cases same : j = i
    · subst same
      simp only [World.set,Function.update_self] at returned ⊢
      exact infos spec info found returned
    · simp only [World.set,Function.update_of_ne same] at returned ⊢
      exact sound.infos j spec info found returned
  results := by
    refine sound.results.trans (List.map_congr_left fun j member => ?_)
    by_cases same : j = i
    · subst same
      cases found : sup.specs[j]? with
      | none => simp [World.info,found]
      | some spec => simp [World.info,World.set,found,(kept member).2]
    · simp [World.info,World.set,same]

theorem step_sound (sound : Sound sup s) (taken : step sup s e = some s') : Sound sup s' := by
  cases e with
  | act i a =>
    obtain ⟨spec,found,taken⟩ := Option.bind_eq_some_iff.mp taken
    obtain ⟨w,acted,same⟩ := Option.bind_eq_some_iff.mp taken
    obtain rfl := Option.some.inj same
    have acts := act_acts _ _ _ _ _ _ acted
    refine sound.replace ?_ fun member => ?_
    · intro spec' info found' returned
      obtain rfl := Option.some.inj (found.symm.trans found')
      exact acts_info acts returned
    · obtain ⟨info,finished⟩ := sound.returned i member
      exact (acts_returned acts finished).elim
  | collect i =>
    simp only [step] at taken
    split at taken
    next info returned =>
      obtain ⟨free,same⟩ := Option.ite_none_left_eq_some.mp taken
      obtain rfl := Option.some.inj same
      obtain ⟨fresh,known⟩ := not_or.mp free
      refine ⟨?_,?_,?_,sound.infos,?_⟩
      · exact sound.once.append (List.nodup_singleton i) (by simpa using fresh)
      · exact List.forall_mem_append.mpr ⟨sound.known,List.forall_mem_singleton.mpr (by omega)⟩
      · exact List.forall_mem_append.mpr ⟨sound.returned,List.forall_mem_singleton.mpr ⟨info,returned⟩⟩
      · have found := List.getElem?_eq_getElem (l := sup.specs) (i := i) (by omega)
        have same := sound.infos i _ info found returned
        rw [List.map_append,List.map_append,sound.results]
        simp [World.info,found,same]
    · contradiction
  | notifyRestart i | notifyDrain i =>
    obtain rfl := Option.some.inj taken
    exact sound.replace (fun spec info found returned => sound.infos i spec info found returned) fun _ => ⟨rfl,fun _ => rfl⟩
  | tick ns | storeKind kind | storeDraining =>
    obtain rfl := Option.some.inj taken
    exact ⟨sound.once,sound.known,sound.returned,sound.infos,sound.results⟩

theorem run_sound (run : Run (step sup) (initial now) past s) : Sound sup s :=
  run.always ⟨.nil,by simp [initial],by simp [initial],by simp [initial,Worker.initial],rfl⟩ fun _ _ _ sound taken => step_sound sound taken

theorem step_bit (taken : step sup s e = some s') (bit : s.drain.draining = true) : s'.drain.draining = true := by
  cases e with
  | act i a =>
    obtain ⟨spec,found,taken⟩ := Option.bind_eq_some_iff.mp taken
    obtain ⟨w,acted,same⟩ := Option.bind_eq_some_iff.mp taken
    exact Option.some.inj same ▸ bit
  | collect i =>
    simp only [step] at taken
    split at taken
    · obtain ⟨_,same⟩ := Option.ite_none_left_eq_some.mp taken
      exact Option.some.inj same ▸ bit
    · contradiction
  | storeDraining => exact Option.some.inj taken ▸ rfl
  | _ => exact Option.some.inj taken ▸ bit

def World.leftOf (s : World) (i : Nat) : Nat := if i ∈ s.collected then 0 else stepsLeft (s.workers i).point

def Event.of (i : Nat) : Event → Bool
  | .act j a => j = i && a ≠ .park
  | .collect j => j = i
  | _ => false

theorem stepsLeft_le (point : Point) : stepsLeft point ≤ 9 := by
  cases point with
  | publishRestarting cause => cases cause <;> simp [stepsLeft]
  | stopping why deadline killed => cases why <;> cases killed <;> simp [stepsLeft]
  | _ => simp [stepsLeft]

theorem leftOf_le (s : World) (i : Nat) : s.leftOf i ≤ 9 := by
  unfold World.leftOf
  split
  · exact Nat.zero_le _
  · exact stepsLeft_le _

theorem leftOf_set_ne (s : World) (w : Worker) (different : j ≠ i) : (s.set i w).leftOf j = s.leftOf j := by
  simp [World.leftOf,World.set,different]

theorem step_left (sound : Sound sup s) (bit : s.drain.draining = true) (taken : step sup s e = some s') (j : Nat) :
    s'.leftOf j + (if e.of j then 1 else 0) ≤ s.leftOf j := by
  cases e with
  | act i a =>
    obtain ⟨spec,found,taken⟩ := Option.bind_eq_some_iff.mp taken
    obtain ⟨w,acted,same⟩ := Option.bind_eq_some_iff.mp taken
    obtain rfl := Option.some.inj same
    have acts := act_acts _ _ _ _ _ _ acted
    by_cases own : i = j
    · subst own
      have fresh : i ∉ s.collected := by
        intro member
        obtain ⟨info,finished⟩ := sound.returned i member
        exact acts_returned acts finished
      simpa [World.leftOf,World.set,fresh,Event.of] using acts_left acts bit
    · simp [leftOf_set_ne s w (Ne.symm own),Event.of,own]
  | collect i =>
    simp only [step] at taken
    split at taken
    next info returned =>
      obtain ⟨free,same⟩ := Option.ite_none_left_eq_some.mp taken
      obtain rfl := Option.some.inj same
      obtain ⟨fresh,known⟩ := not_or.mp free
      by_cases own : i = j
      · subst own
        simp [World.leftOf,fresh,returned,stepsLeft,Event.of]
      · simp [World.leftOf,Event.of,own,Ne.symm own]
    · contradiction
  | notifyRestart i | notifyDrain i =>
    obtain rfl := Option.some.inj taken
    by_cases own : j = i
    · subst own
      simp [World.leftOf,World.set,Event.of]
    · exact Nat.le_of_eq (leftOf_set_ne s _ own)
  | tick ns | storeKind kind | storeDraining =>
    obtain rfl := Option.some.inj taken
    exact Nat.le_refl _

/-- When all workers have been collected, there is one info for each spec. -/
theorem Sound.complete (sound : Sound sup s) (all : s.collected.length = sup.specs.length) :
    s.results.Perm (sup.specs.mapIdx fun i spec => (s.workers i).info (sup.config spec)) := by
  have every : s.collected.Perm (List.range sup.specs.length) := by
    refine (List.subperm_of_subset sound.once fun i member => List.mem_range.mpr (sound.known i member)).perm_of_length_le ?_
    simp [all]
  have infos : (List.range sup.specs.length).map (s.info sup) =
      (sup.specs.mapIdx fun i spec => (s.workers i).info (sup.config spec)).map some := by
    apply List.ext_getElem
    · simp
    · intro i inside _
      simp at inside
      simp [World.info,inside]
  have perm := every.map (s.info sup)
  rw [← sound.results,infos] at perm
  exact (List.map_perm_map_iff (Option.some_injective _)).mp perm

/-- Somebody has not been collected, and that worker or the loop can go on. -/
theorem goes_on (sup : Supervisor) (s : World) (bit : s.drain.draining = true) (some_ : s.collected.length < sup.specs.length) :
    ∃ e, e.own = true ∧ (step sup s e).isSome = true := by
  have missing : ∃ i, i < sup.specs.length ∧ i ∉ s.collected := by
    by_contra none_
    have all : List.range sup.specs.length ⊆ s.collected := by
      intro i member
      by_contra fresh
      exact none_ ⟨i,List.mem_range.mp member,fresh⟩
    have many := (List.subperm_of_subset List.nodup_range all).length_le
    rw [List.length_range] at many
    omega
  obtain ⟨i,known,fresh⟩ := missing
  by_cases finished : ∃ info, (s.workers i).point = .returned info
  · obtain ⟨info,returned⟩ := finished
    exact ⟨.collect i,rfl,by simp [step,returned,fresh,known]⟩
  · have going : ∀ info, (s.workers i).point ≠ .returned info := fun info returned => finished ⟨info,returned⟩
    obtain ⟨a,busy,enabled⟩ := acts_enabled (sup.config sup.specs[i]) s.now s.drain (s.workers i) bit going
    obtain ⟨w,acted⟩ := Option.isSome_iff_exists.mp enabled
    exact ⟨.act i a,by simp [Event.own,busy],by simp [step,known,acted]⟩

/-- Every run of `Supervisor::run`, whatever its workers do: from the moment the drain bit is set,
each task takes at most nine more steps of its own, but for idle polls, and until all workers have
been collected one of them can go on; what was collected then is one info for each spec, as its
worker left it. -/
theorem supervisor_run_ends (before : Run (step sup) (initial now) past m) (bit : m.drain.draining = true)
    (after : Run (step sup) m later s) :
    (∀ i, later.countP (fun t => t.event.of i) ≤ 9) ∧
    (s.collected.length < sup.specs.length → ∃ e, e.own = true ∧ (step sup s e).isSome = true) ∧
    (s.collected.length = sup.specs.length →
      s.results.Perm (sup.specs.mapIdx fun i spec => (s.workers i).info (sup.config spec))) := by
  have counted (i : Nat) := after.countP_le (P := fun s => Sound sup s ∧ s.drain.draining = true) (fun s => s.leftOf i)
    (fun t => t.event.of i) ⟨run_sound before,bit⟩
    fun s e s' ⟨sound,bit⟩ taken => ⟨⟨step_sound sound taken,step_bit taken bit⟩,step_left sound bit taken i⟩
  obtain ⟨sound,still⟩ := (counted 0).1
  refine ⟨fun i => ?_,goes_on sup s still,sound.complete⟩
  have bound := (counted i).2
  have most := leftOf_le m i
  omega

def twoWorkers : Supervisor :=
  ⟨[⟨"api","svc",.permanent,false,false⟩,⟨"job","svc",.temporary,false,false⟩],5,secs 60,secs 30,false,(api .permanent).u32⟩

theorem supervisor_run_ends_two : ∃ past m later s, Run (step twoWorkers) (initial 0) past m ∧ m.drain.draining = true ∧
    Run (step twoWorkers) m later s ∧ (∀ i, later.countP (fun t => t.event.of i) ≤ 9) ∧
    s.results.map WorkerInfo.id = ["job","api"] ∧
    s.results.Perm (twoWorkers.specs.mapIdx fun i spec => (s.workers i).info (twoWorkers.config spec)) := by
  obtain ⟨before,t,after,s,run,drained,bit,ids,all⟩ := exists_run_cut (step twoWorkers) (initial 0)
    [.act 0 .register,.act 1 .register,.act 0 .checkDrain,.act 0 (.spawned 7),.act 0 (.publish 0 none),.storeKind .graceful]
    .storeDraining
    [.act 1 .checkDrain,.act 0 .drainBranch,.act 1 (.publish 0 none),.collect 1,.act 0 (.publish 0 none),.act 0 .stopReaped,
      .act 0 (.publish 0 none),.collect 0]
    (fun before t after s => t.post.drain.draining = true ∧ s.results.map WorkerInfo.id = ["job","api"] ∧ s.collected.length = 2)
    (by decide +kernel)
  obtain ⟨front,taken,rest⟩ := run.split
  obtain ⟨few,_,complete⟩ := supervisor_run_ends (front.snoc taken) bit rest
  exact ⟨_,_,after,s,front.snoc taken,bit,rest,few,ids,complete all⟩

end Malkuth.SupervisorRun
