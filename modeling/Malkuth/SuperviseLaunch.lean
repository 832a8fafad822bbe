import Malkuth.ControlArms
import Malkuth.RunRegistry

/-! The opening of `malkuth_supervise`: a list of workers is checked, made into the specs of a
run, and registered. What only `spawn` reads of a worker (its program, its arguments and its
environment) is left out. -/
namespace Malkuth.Mcp

open Malkuth.Fleet Malkuth.Supervise

structure WorkerSpecArg where
  id : String
  kind : String
  restartPolicy : Option String
  deriving DecidableEq, Repr

structure SuperviseArgs where
  workers : List WorkerSpecArg
  maxRestarts : Option Nat
  windowSecs : Option Nat
  cooldownSecs : Option Nat
  timeoutSecs : Option Nat
  runId : Option String
  u32 : maxRestarts.getD 0 < 2^32

def parsePolicy (name : Option String) : RestartPolicy :=
  match (name.map Text.trim).filter (· ≠ "") with
  | none => .permanent
  | some name =>
    if Text.toAsciiLowercase name = "transient" then .transient
    else if Text.toAsciiLowercase name = "temporary" then .temporary
    else .permanent

def validateLoop (seen : List String) : List String → Except String Unit
  | [] => .ok ()
  | id :: ids =>
    let trimmed := Text.trim id
    if trimmed = "" then .error "worker id must not be empty"
    else if trimmed ∈ seen then .error ("duplicate worker id: " ++ trimmed)
    else validateLoop (trimmed :: seen) ids

def validateWorkerIds (ids : List String) : Except String Unit := validateLoop [] ids

theorem validateLoop_ok (seen ids : List String) : validateLoop seen ids = .ok () ↔
    "" ∉ ids.map Text.trim ∧ (ids.map Text.trim).Nodup ∧ ∀ id ∈ ids.map Text.trim, id ∉ seen := by
  induction ids generalizing seen with
  | nil => simp [validateLoop]
  | cons id ids ih =>
    rw [validateLoop]
    split
    next empty => simp [empty]
    next solid =>
      split
      next twice => simp [twice]
      next fresh =>
        rw [ih,List.map_cons,List.nodup_cons]
        rw [List.forall_mem_cons]
        simp only [List.mem_cons,not_or]
        constructor
        · rintro ⟨full,distinct,unseen⟩
          exact ⟨⟨Ne.symm solid,full⟩,⟨fun member => (unseen _ member).1 rfl,distinct⟩,fresh,
            fun other member => (unseen other member).2⟩
        · rintro ⟨⟨_,full⟩,⟨once,distinct⟩,_,unseen⟩
          refine ⟨full,distinct,fun other member => ⟨?_,unseen other member⟩⟩
          rintro rfl
          exact once member

def defaultMaxRestarts : Nat := 5
def defaultWindow : Nat := secs 60
def defaultCooldown : Nat := secs 30

/-- A limit is taken only if both of its parts are given. -/
def SuperviseArgs.rateLimit (args : SuperviseArgs) : Nat × Nat :=
  match args.maxRestarts,args.windowSecs with
  | some max,some win => (max,secs win)
  | _,_ => (defaultMaxRestarts,defaultWindow)

theorem SuperviseArgs.rateLimit_u32 (args : SuperviseArgs) : args.rateLimit.1 < 2^32 := by
  have given := args.u32
  unfold SuperviseArgs.rateLimit
  split
  next max _ here _ => simpa [here] using given
  next => decide

def SuperviseArgs.config (args : SuperviseArgs) (w : WorkerSpecArg) : Config where
  spec := ⟨Text.trim w.id,w.kind,parsePolicy w.restartPolicy,false,true⟩
  maxRestarts := args.rateLimit.1
  window := args.rateLimit.2
  cooldown := (args.cooldownSecs.map secs).getD defaultCooldown
  sink := true
  u32 := args.rateLimit_u32

def RunSpec.ids (spec : RunSpec) : List String := spec.workers.map fun cfg => cfg.spec.id

theorem SuperviseArgs.ids_config (args : SuperviseArgs) :
    (args.workers.map args.config).map (fun cfg => cfg.spec.id) = (args.workers.map WorkerSpecArg.id).map Text.trim := by
  simp [SuperviseArgs.config,Function.comp_def]

def SuperviseArgs.launch (args : SuperviseArgs) : Except String RunSpec :=
  if args.workers = [] then .error "at least one worker is required"
  else
    match valid : validateWorkerIds (args.workers.map WorkerSpecArg.id) with
    | .error message => .error message
    | .ok () => .ok {
        workers := args.workers.map args.config
        timeoutSecs := args.timeoutSecs
        distinct := by rw [args.ids_config]; exact ((validateLoop_ok ..).mp valid).2.1
        wired := by
          intro cfg member
          obtain ⟨w,_,rfl⟩ := List.mem_map.mp member
          exact ⟨rfl,rfl,rfl⟩ }

/-- The call up to its `insert_run`: `generated` is what `next_run_id` would give. -/
def malkuthSupervise (s : Registry.State) (args : SuperviseArgs) (ref : Nat) (generated : String) :
    Except String (Registry.Handle × RunSpec) × Registry.State :=
  match args.launch with
  | .error message => (.error message,s)
  | .ok spec =>
    let handle : Registry.Handle := ⟨ref,args.runId.getD generated⟩
    match s.insertRun handle with
    | (.error message,s') => (.error message,s')
    | (.ok (),s') => (.ok (handle,spec),s')

/-- The workers of a run that was launched: at least one, each under the id that it was given,
trimmed, and no id is empty. -/
theorem SuperviseArgs.launch_ids {args : SuperviseArgs} (launched : args.launch = .ok spec) :
    spec.ids = (args.workers.map WorkerSpecArg.id).map Text.trim ∧ spec.ids ≠ [] ∧ "" ∉ spec.ids := by
  unfold SuperviseArgs.launch at launched
  split at launched
  next => cases launched
  next some_ =>
    split at launched
    next => cases launched
    next valid =>
      obtain rfl := Except.ok.inj launched
      simp only [RunSpec.ids,args.ids_config]
      refine ⟨trivial,?_,((validateLoop_ok ..).mp valid).1⟩
      simpa using some_

/-- A worker is found under its id, and under no other. -/
theorem RunSpec.config_isSome (spec : RunSpec) (worker : String) :
    (spec.config worker).isSome = true ↔ worker ∈ spec.ids := by
  simp [RunSpec.config,RunSpec.ids]

/-- Only a call that is accepted changes the registry. -/
theorem malkuthSupervise_cases (s : Registry.State) (args : SuperviseArgs) (ref : Nat) (generated : String) :
    (∃ message, malkuthSupervise s args ref generated = (.error message,s)) ∨
    ∃ spec, args.launch = .ok spec ∧ (s.insertRun ⟨ref,args.runId.getD generated⟩).1 = .ok () ∧
      malkuthSupervise s args ref generated =
        (.ok (⟨ref,args.runId.getD generated⟩,spec),(s.insertRun ⟨ref,args.runId.getD generated⟩).2) := by
  unfold malkuthSupervise
  cases launched : args.launch with
  | error message => exact .inl ⟨message,rfl⟩
  | ok spec =>
    rcases Registry.insertRun_cases s ⟨ref,args.runId.getD generated⟩ with ⟨message,refused⟩ | ⟨_,_,⟨_,ok⟩ | ⟨_,_,_,_,_,_,ok⟩⟩
    · exact .inl ⟨message,by simp [refused]⟩
    · exact .inr ⟨spec,rfl,by simp [ok]⟩
    · exact .inr ⟨spec,rfl,by simp [ok]⟩

end Malkuth.Mcp
