import Malkuth.RunEnd
import Malkuth.RunRegistry
import Mathlib.Data.List.Forall2

/-! The `status` arm among all that goes on in the server, while runs are launched and evicted. A
report of a run is read field by field, while the run goes on: its fields are of different moments,
in a fixed order. The lock on the list of runs, which a call holds meanwhile, keeps others from
the list only. -/
namespace Malkuth.Mcp.Status

open Malkuth.Fleet Malkuth.Lifecycle Transition Server
open Registry (Handle)

/-- What the rest of the server knows a handle by, and what it supervises there. Run ids may come
again, slots do not. -/
structure Slots where
  of : Handle → String
  specs : Specs

structure StatusArgs where
  runId : Option String
  deriving DecidableEq, Repr

structure RunReport where
  runId : String
  startedUnixSecs : Nat
  elapsedSecs : Nat
  finished : Bool
  finishedUnixSecs : Option Nat
  draining : Bool
  drainKind : Option String
  workerCount : Nat
  workers : List WorkerSnapshot
  deriving DecidableEq, Repr

/-- `unix_secs`: zero before the epoch. Wall-clock times are in nanoseconds. -/
def unixSecs (time : Int) : Nat := (time / 1000000000).toNat

/-- `runs_snapshot`, by the next access of `snapshot_value`: a draft is a report whose later fields
are not read yet. -/
inductive Point where
  | idle
  | fleet (todo : List Handle) (told : List RunReport)
  | finished (handle : Handle) (draft : RunReport) (todo : List Handle) (told : List RunReport)
  | finishedAt (handle : Handle) (draft : RunReport) (todo : List Handle) (told : List RunReport)
  | draining (handle : Handle) (draft : RunReport) (todo : List Handle) (told : List RunReport)
  | kind (handle : Handle) (draft : RunReport) (todo : List Handle) (told : List RunReport)
  | answered (answer : Except Failure (List RunReport))

def Point.holds : Point → Bool
  | .idle | .answered _ => false
  | _ => true

/-- The two lists of the registry, the times of each slot, and the call that holds the lock on the
runs. A slot without a start is free. -/
structure World where
  server : Server
  runs : List Handle
  usedRunIds : List String
  startedAt : String → Option Int
  finishedAt : String → Option Int
  holder : Option Nat
  calls : Nat → Point

def initial (now : Nat) : World := ⟨Server.initial now,[],[],fun _ => none,fun _ => none,none,fun _ => .idle⟩

inductive Event where
  /-- A step of the server; `wall` is what `mark_finished` reads, if it is one. -/
  | server (e : Server.Event) (wall : Int)
  /-- `malkuth_supervise` up to the end of `insert_run`. -/
  | launch (handle : Handle) (wall : Int)
  | status (call : Nat) (args : StatusArgs)
  | look (call : Nat) (r : Readings)

/-- The runs that a call is to report. -/
def asked (runs : List Handle) (args : StatusArgs) : Except Failure (List Handle) :=
  match args.runId with
  | none => .ok runs
  | some run =>
    match runs.find? fun h => h.runId == run with
    | some handle => .ok [handle]
    | none => .error (unknownRun run)

def runsSnapshot (runs : List Handle) (args : StatusArgs) : Point :=
  match asked runs args with
  | .ok handles => .fleet handles []
  | .error failure => .answered (.error failure)

def markFinished (s s' : Server) (wall : Int) (times : String → Option Int) : String → Option Int := fun run =>
  if (s'.runs run).isFinished && !(s.runs run).isFinished then some wall else times run

def slotOf : Server.Event → Option String
  | .supervise run _ _ | .timeout run | .conclude run => some run
  | .restart _ args => some args.runId
  | .drain _ args => some args.runId
  | .tick _ | .approve .. | .advance .. => none

def World.put (w : World) (call : Nat) (point : Point) : World :=
  { w with calls := Function.update w.calls call point, holder := if point.holds then some call else none }

variable (slots : Slots)

def look (w : World) (r : Readings) : Point → Option Point
  | .fleet [] told => some (.answered (.ok told))
  | .fleet (handle :: todo) told => do
    let started ← w.startedAt (slots.of handle)
    let workers := (w.server.runs (slots.of handle)).fleetSnapshot (← slots.specs (slots.of handle)) fun k => r.wall (k + 1)
    some (.finished handle ⟨handle.runId,unixSecs started,unixSecs (r.wall 0 - started),false,none,false,none,workers.length,workers⟩
      todo told)
  | .finished handle draft todo told =>
    some (.finishedAt handle { draft with finished := (w.server.runs (slots.of handle)).isFinished } todo told)
  | .finishedAt handle draft todo told =>
    some (.draining handle { draft with finishedUnixSecs := (w.finishedAt (slots.of handle)).map unixSecs } todo told)
  | .draining handle draft todo told =>
    some (.kind handle { draft with draining := (w.server.runs (slots.of handle)).drain.draining } todo told)
  | .kind handle draft todo told =>
    let kind := (w.server.runs (slots.of handle)).drain.kind.map shutdownKindName
    some (.fleet todo (told ++ [{ draft with drainKind := kind }]))
  | .idle | .answered _ => none

def World.registry (w : World) : Registry.State :=
  ⟨w.runs,w.usedRunIds,w.runs.filter fun h => (w.server.runs (slots.of h)).isFinished⟩

def step (w : World) : Event → Option World
  | .server e wall =>
    if ∀ run ∈ slotOf e, (w.startedAt run).isSome = true then
      (Server.step slots.specs w.server e).map fun s =>
        { w with server := s, finishedAt := markFinished w.server s wall w.finishedAt }
    else none
  | .launch handle wall =>
    if w.holder = none ∧ w.startedAt (slots.of handle) = none ∧ (slots.specs (slots.of handle)).isSome = true then
      match (w.registry slots).insertRun handle with
      | (.ok _,registry) => some { w with
          runs := registry.runs
          usedRunIds := registry.usedRunIds
          startedAt := Function.update w.startedAt (slots.of handle) (some wall) }
      | (.error _,_) => some w
    else none
  | .status call args =>
    match w.calls call, w.holder with
    | .idle, none => some (w.put call (runsSnapshot w.runs args))
    | _, _ => none
  | .look call r => (look slots w r (w.calls call)).map (w.put call)

abbrev History := List (Taken World Event)

/-- What was so at one of the accesses of the call, with what the clock said then. -/
def Looked (since : History) (call : Nat) (fact : Readings → World → Prop) : Prop :=
  ∃ t ∈ since, ∃ r, t.event = .look call r ∧ fact r t.pre

theorem Looked.snoc (looked : Looked since call fact) : Looked (since ++ [t]) call fact := by
  obtain ⟨u,member,here⟩ := looked
  exact ⟨u,List.mem_append_left _ member,here⟩

theorem Looked.last {t : Taken World Event} (event : t.event = .look call r) (here : fact r t.pre) :
    Looked (since ++ [t]) call fact :=
  ⟨t,by simp,r,event,here⟩

/-- The fields of a draft that are read already, and what was read last of it. -/
structure Fleet (since : History) (call : Nat) (h : Handle) (d : RunReport) : Prop where
  runId : d.runId = h.runId
  count : d.workerCount = d.workers.length
  fleet : Looked since call fun r w => ∃ started spec, w.startedAt (slots.of h) = some started ∧
    slots.specs (slots.of h) = some spec ∧ d.startedUnixSecs = unixSecs started ∧
    d.elapsedSecs = unixSecs (r.wall 0 - started) ∧
    d.workers = (w.server.runs (slots.of h)).fleetSnapshot spec fun k => r.wall (k + 1)

structure Finished (since : History) (call : Nat) (h : Handle) (d : RunReport) : Prop extends Fleet slots since call h d where
  finished : Looked since call fun _ w => d.finished = (w.server.runs (slots.of h)).isFinished

structure Stamped (since : History) (call : Nat) (h : Handle) (d : RunReport) : Prop extends Finished slots since call h d where
  time : Looked since call fun _ w => d.finishedUnixSecs = (w.finishedAt (slots.of h)).map unixSecs
  stamped : d.finished = true → d.finishedUnixSecs.isSome = true

structure Draining (since : History) (call : Nat) (h : Handle) (d : RunReport) : Prop extends Stamped slots since call h d where
  draining : Looked since call fun _ w => d.draining = (w.server.runs (slots.of h)).drain.draining

/-- Every field of a report is of an access of the call, and what is said of the end and of the drain
goes together. -/
structure Honest (since : History) (call : Nat) (h : Handle) (d : RunReport) : Prop extends Draining slots since call h d where
  kind : Looked since call fun _ w => d.drainKind = (w.server.runs (slots.of h)).drain.kind.map shutdownKindName
  named : d.draining = true → d.drainKind.isSome = true

variable {slots}

theorem Fleet.snoc (fleet : Fleet slots since call h d) : Fleet slots (since ++ [t]) call h d :=
  ⟨fleet.runId,fleet.count,fleet.fleet.snoc⟩

theorem Finished.snoc (known : Finished slots since call h d) : Finished slots (since ++ [t]) call h d :=
  ⟨known.toFleet.snoc,known.finished.snoc⟩

theorem Stamped.snoc (known : Stamped slots since call h d) : Stamped slots (since ++ [t]) call h d :=
  ⟨known.toFinished.snoc,known.time.snoc,known.stamped⟩

theorem Draining.snoc (known : Draining slots since call h d) : Draining slots (since ++ [t]) call h d :=
  ⟨known.toStamped.snoc,known.draining.snoc⟩

theorem Honest.snoc (honest : Honest slots since call h d) : Honest slots (since ++ [t]) call h d :=
  ⟨honest.toDraining.snoc,honest.kind.snoc,honest.named⟩

variable (slots)

def Next (since : History) (call : Nat) (runs : List Handle) (args : StatusArgs) (todo : List Handle) (told : List RunReport) : Prop :=
  ∃ reported, asked runs args = .ok (reported ++ todo) ∧ List.Forall₂ (Honest slots since call) reported told

def Going (since : History) (s : Server) (call : Nat) (runs : List Handle) (args : StatusArgs) : Point → Prop
  | .idle | .answered _ => False
  | .fleet todo told => Next slots since call runs args todo told
  | .finished h draft todo told => Next slots since call runs args (h :: todo) told ∧ Fleet slots since call h draft
  | .finishedAt h draft todo told => Next slots since call runs args (h :: todo) told ∧ Finished slots since call h draft ∧
      (draft.finished = true → (s.runs (slots.of h)).isFinished = true)
  | .draining h draft todo told => Next slots since call runs args (h :: todo) told ∧ Stamped slots since call h draft
  | .kind h draft todo told => Next slots since call runs args (h :: todo) told ∧ Draining slots since call h draft ∧
      (draft.draining = true → (s.runs (slots.of h)).drain.draining = true)

/-- What it has answered. -/
def Told (since : History) (call : Nat) (runs : List Handle) (args : StatusArgs) : Except Failure (List RunReport) → Prop
  | .ok reports => ∃ handles, asked runs args = .ok handles ∧ List.Forall₂ (Honest slots since call) handles reports
  | .error failure => asked runs args = .error failure

variable {slots}

theorem Next.snoc (next : Next slots since call listed args todo told) : Next slots (since ++ [t]) call listed args todo told := by
  obtain ⟨reported,is,honest⟩ := next
  exact ⟨reported,is,honest.imp fun _ _ => Honest.snoc⟩

/-- What the server does meanwhile takes nothing of it back. -/
theorem Going.mono (going : Going slots since s call listed args point)
    (finished : ∀ run, (s.runs run).isFinished = true → (s'.runs run).isFinished = true)
    (bit : ∀ run, (s.runs run).drain.draining = true → (s'.runs run).drain.draining = true) :
    Going slots (since ++ [t]) s' call listed args point := by
  cases point with
  | idle | answered => exact going
  | fleet => exact Next.snoc going
  | finished => exact ⟨going.1.snoc,going.2.snoc⟩
  | finishedAt => exact ⟨going.1.snoc,going.2.1.snoc,fun told => finished _ (going.2.2 told)⟩
  | draining => exact ⟨going.1.snoc,going.2.snoc⟩
  | kind => exact ⟨going.1.snoc,going.2.1.snoc,fun told => bit _ (going.2.2 told)⟩

variable (slots)

structure Sound (w : World) : Prop where
  settled : Settled slots.specs w.server
  stamped : ∀ run, (w.server.runs run).isFinished = true → (w.finishedAt run).isSome = true

/-- Every step, as far as the server goes: one of its own, or none. -/
theorem step_server (w w' : World) (e : Event) (taken : step slots w e = some w') :
    (∃ e' wall, Server.step slots.specs w.server e' = some w'.server ∧
      w' = { w with server := w'.server, finishedAt := markFinished w.server w'.server wall w.finishedAt }) ∨
    w'.server = w.server ∧ w'.finishedAt = w.finishedAt := by
  cases e with
  | server e wall =>
    obtain ⟨_,taken⟩ := Option.ite_none_right_eq_some.mp taken
    obtain ⟨s,moved,rfl⟩ := Option.map_eq_some_iff.mp taken
    exact .inl ⟨e,wall,moved,rfl⟩
  | launch handle wall =>
    obtain ⟨_,taken⟩ := Option.ite_none_right_eq_some.mp taken
    split at taken <;> (obtain rfl := Option.some.inj taken; exact .inr ⟨rfl,rfl⟩)
  | status call args =>
    simp only [step] at taken
    split at taken
    · obtain rfl := Option.some.inj taken; exact .inr ⟨rfl,rfl⟩
    · contradiction
  | look call r =>
    obtain ⟨point,_,rfl⟩ := Option.map_eq_some_iff.mp taken
    exact .inr ⟨rfl,rfl⟩

theorem step_sound (w : World) (e : Event) (w' : World) (sound : Sound slots w) (taken : step slots w e = some w') :
    Sound slots w' := by
  rcases step_server slots w w' e taken with ⟨e',wall,moved,same⟩ | ⟨server,times⟩
  · refine ⟨step_settled slots.specs _ e' _ sound.settled moved,fun run finished => ?_⟩
    rw [same]
    show (markFinished w.server w'.server wall w.finishedAt run).isSome = true
    unfold markFinished
    split
    · rfl
    next known => exact sound.stamped run (by simpa [finished] using known)
  · exact ⟨server ▸ sound.settled,by rw [server,times]; exact sound.stamped⟩

theorem run_sound (run : Run (step slots) (initial boot) past w) : Sound slots w := by
  refine run.always ⟨run_settled slots.specs .nil,?_⟩ (step_sound slots)
  simp [initial,Server.initial,RunHandle.new,RunHandle.isFinished]

theorem step_finished (w : World) (e : Event) (w' : World) (run : String)
    (finished : (w.server.runs run).isFinished = true) (taken : step slots w e = some w') :
    (w'.server.runs run).isFinished = true := by
  rcases step_server slots w w' e taken with ⟨e',_,moved,_⟩ | ⟨server,_⟩
  · exact Server.step_finished slots.specs _ _ e' run moved finished
  · exact server ▸ finished

theorem step_bit (w : World) (e : Event) (w' : World) (run : String)
    (bit : (w.server.runs run).drain.draining = true) (taken : step slots w e = some w') :
    (w'.server.runs run).drain.draining = true := by
  rcases step_server slots w w' e taken with ⟨e',_,moved,_⟩ | ⟨server,_⟩
  · exact Server.step_bit slots.specs _ _ e' run moved bit
  · exact server ▸ bit

variable {slots}

/-- An access of a call reads what is so before it. -/
theorem look_going {t : Taken World Event} (event : t.event = .look call r) (sound : Sound slots t.pre)
    (looked : look slots t.pre r point = some point') (going : Going slots since t.pre.server call listed args point) :
    Going slots (since ++ [t]) t.pre.server call listed args point' ∨
      ∃ reports, point' = .answered (.ok reports) ∧ Told slots (since ++ [t]) call listed args (.ok reports) := by
  replace going : Going slots (since ++ [t]) t.pre.server call listed args point := going.mono (fun _ => id) fun _ => id
  cases point with
  | idle => cases looked
  | answered => cases looked
  | fleet todo told =>
    cases todo with
    | nil =>
      obtain rfl := Option.some.inj looked
      obtain ⟨reported,is,honest⟩ := going
      exact .inr ⟨told,rfl,reported,by simpa using is,honest⟩
    | cons handle todo =>
      obtain ⟨started,began,rest⟩ := Option.bind_eq_some_iff.mp looked
      obtain ⟨spec,known,rest⟩ := Option.bind_eq_some_iff.mp rest
      obtain rfl := Option.some.inj rest
      exact .inl ⟨going,rfl,rfl,.last event ⟨started,spec,began,known,rfl,rfl,rfl⟩⟩
  | finished h draft todo told =>
    obtain rfl := Option.some.inj looked
    have known := going.2
    exact .inl ⟨going.1,⟨⟨known.runId,known.count,known.fleet⟩,.last event rfl⟩,id⟩
  | finishedAt h draft todo told =>
    obtain rfl := Option.some.inj looked
    have known := going.2.1
    refine .inl ⟨going.1,⟨⟨known.runId,known.count,known.fleet⟩,known.finished⟩,.last event rfl,fun finished => ?_⟩
    simpa using sound.stamped _ (going.2.2 finished)
  | draining h draft todo told =>
    obtain rfl := Option.some.inj looked
    have known := going.2
    exact .inl ⟨going.1,⟨⟨⟨⟨known.runId,known.count,known.fleet⟩,known.finished⟩,known.time,known.stamped⟩,.last event rfl⟩,id⟩
  | kind h draft todo told =>
    obtain rfl := Option.some.inj looked
    obtain ⟨⟨reported,is,honest⟩,known,bit⟩ := going
    refine .inl ⟨reported ++ [h],by simpa using is,List.rel_append honest (.cons ?_ .nil)⟩
    refine ⟨⟨⟨⟨⟨known.runId,known.count,known.fleet⟩,known.finished⟩,known.time,known.stamped⟩,known.draining⟩,.last event rfl,
      fun draining => ?_⟩
    simpa using sound.settled.kind _ (.inl (bit draining))

variable (slots)

inductive Stands (past : History) (w : World) (call : Nat) : Prop where
  | idle (here : w.calls call = .idle)
  | reading (args : StatusArgs) (before : History) (t : Taken World Event) (during : History)
      (shape : past = before ++ t :: during) (began : t.event = .status call args) (holds : w.holder = some call)
      (kept : ∀ u ∈ during, u.pre.runs = t.pre.runs) (now : w.runs = t.pre.runs)
      (going : Going slots (t :: during) w.server call t.pre.runs args (w.calls call))
  | answered (args : StatusArgs) (before : History) (t : Taken World Event) (during after : History)
      (shape : past = before ++ t :: (during ++ after)) (began : t.event = .status call args) (here : w.calls call = .answered answer)
      (kept : ∀ u ∈ during, u.pre.runs = t.pre.runs) (told : Told slots (t :: during) call t.pre.runs args answer)

variable {slots}

/-- A step that is none of this call, nor takes the lock from it. -/
theorem Stands.kept (stands : Stands slots past w call) (same : w'.calls call = w.calls call)
    (held : w.holder = some call → w'.holder = some call ∧ w'.runs = w.runs)
    (finished : ∀ run, (w.server.runs run).isFinished = true → (w'.server.runs run).isFinished = true)
    (bit : ∀ run, (w.server.runs run).drain.draining = true → (w'.server.runs run).drain.draining = true) :
    Stands slots (past ++ [⟨w,e,w'⟩]) w' call := by
  cases stands with
  | idle here => exact .idle (same.trans here)
  | reading args before t during shape began holds kept now going =>
    obtain ⟨holds',runs⟩ := held holds
    refine .reading args before t (during ++ [⟨w,e,w'⟩]) (by simp [shape]) began holds' ?_ (runs.trans now) (same ▸ going.mono finished bit)
    exact List.forall_mem_append.mpr ⟨kept,List.forall_mem_singleton.mpr now⟩
  | answered args before t during after shape began here kept told =>
    exact .answered args before t during (after ++ [⟨w,e,w'⟩]) (by simp [shape]) began (same.trans here) kept told

theorem Stands.holder (stands : Stands slots past w call) (going : (w.calls call).holds = true) : w.holder = some call := by
  cases stands with
  | idle here | answered _ _ _ _ _ _ _ here => simp [here,Point.holds] at going
  | reading _ _ _ _ _ _ holds => exact holds

theorem look_holds (looked : look slots w r point = some point') : point.holds = true := by
  cases point <;> first | rfl | cases looked

theorem Going.holds (going : Going slots since s call listed args point) : point.holds = true := by
  cases point <;> first | rfl | cases going

theorem step_stands (sound : Sound slots w) (stands : ∀ call, Stands slots past w call)
    (taken : step slots w e = some w') (call : Nat) : Stands slots (past ++ [⟨w,e,w'⟩]) w' call := by
  have finished (run : String) (before : (w.server.runs run).isFinished = true) := step_finished slots w e w' run before taken
  have bit (run : String) (before : (w.server.runs run).drain.draining = true) := step_bit slots w e w' run before taken
  cases e with
  | server e wall =>
    obtain ⟨_,taken⟩ := Option.ite_none_right_eq_some.mp taken
    obtain ⟨s,moved,rfl⟩ := Option.map_eq_some_iff.mp taken
    exact (stands call).kept rfl (fun holds => ⟨holds,rfl⟩) finished bit
  | launch handle wall =>
    obtain ⟨⟨free,_,_⟩,taken⟩ := Option.ite_none_right_eq_some.mp taken
    split at taken <;>
      (obtain rfl := Option.some.inj taken; exact (stands call).kept rfl (fun holds => by simp [free] at holds) finished bit)
  | status other args =>
    simp only [step] at taken
    split at taken
    next fresh free =>
      obtain rfl := Option.some.inj taken
      by_cases own : call = other
      · subst own
        cases known : asked w.runs args with
        | ok handles =>
          refine .reading args past _ [] rfl rfl ?_ (by simp) rfl ?_
          · simp [World.put,runsSnapshot,known,Point.holds]
          · simp only [World.put,Function.update_self,runsSnapshot,known]
            exact ⟨[],known,.nil⟩
        | error failure =>
          have here : (w.put call (runsSnapshot w.runs args)).calls call = .answered (.error failure) := by
            simp [World.put,runsSnapshot,known]
          exact .answered args past _ [] [] rfl rfl here (by simp) known
      · exact (stands call).kept (by simp [World.put,own]) (fun holds => by simp [free] at holds) finished bit
    · contradiction
  | look other r =>
    obtain ⟨point,looked,rfl⟩ := Option.map_eq_some_iff.mp taken
    have holder := (stands other).holder (look_holds looked)
    by_cases own : call = other
    · subst own
      let next : Taken World Event := ⟨w,.look call r,w.put call point⟩
      cases stands call with
      | idle here => simp [here,look] at looked
      | answered _ _ _ _ _ _ _ here => simp [here,look] at looked
      | reading args before t during shape began holds kept now going =>
        have kept' : ∀ u ∈ during ++ [next], u.pre.runs = t.pre.runs :=
          List.forall_mem_append.mpr ⟨kept,List.forall_mem_singleton.mpr now⟩
        rcases look_going (t := next) rfl sound looked going with going | ⟨reports,rfl,told⟩
        · refine .reading args before t (during ++ [next]) (by simp [shape,next]) began ?_ kept' now ?_
          · simp [World.put,going.holds]
          · simpa [World.put] using going
        · exact .answered args before t (during ++ [next]) [] (by simp [shape,next]) began (by simp [World.put]) kept' told
    · refine (stands call).kept (by simp [World.put,own]) (fun holds => ?_) finished bit
      exact absurd (Option.some.inj (holds.symm.trans holder)) own

theorem run_stands (run : Run (step slots) (initial boot) past w) (call : Nat) : Stands slots past w call := by
  induction run generalizing call with
  | nil => exact .idle rfl
  | @snoc past m e m' before taken ih => exact step_stands (run_sound slots before) ih taken call

/-- What is seen in the course of a run is seen with all that stays so from its start. -/
theorem Looked.meets {kept : World → Prop} (looked : Looked since call fact) (run : Run (step slots) start later w)
    (within : ∀ t ∈ since, t ∈ later) (begins : kept start) (keeps : ∀ w e w', kept w → step slots w e = some w' → kept w') :
    ∃ r m, fact r m ∧ kept m := by
  obtain ⟨t,member,r,_,here⟩ := looked
  exact ⟨r,t.pre,here,(run.always_taken begins keeps (within t member)).1⟩

/-- A report of a run that is finished when the call begins. -/
theorem Honest.over (honest : Honest slots since call h d) (run : Run (step slots) start later w) (within : ∀ t ∈ since, t ∈ later)
    (sound : Sound slots start) (finished : (start.server.runs (slots.of h)).isFinished = true) :
    d.finished = true ∧ ∀ shown ∈ d.workers, Silent shown := by
  have keeps (w : World) (e : Event) (w' : World)
      (holds : Sound slots w ∧ (w.server.runs (slots.of h)).isFinished = true) (taken : step slots w e = some w') :
      Sound slots w' ∧ (w'.server.runs (slots.of h)).isFinished = true :=
    ⟨step_sound slots w e w' holds.1 taken,step_finished slots w e w' _ holds.2 taken⟩
  obtain ⟨_,m,told,_,over_⟩ := honest.finished.meets run within ⟨sound,finished⟩ keeps
  obtain ⟨_,n,⟨_,spec,_,known,_,_,shown⟩,settled,ended⟩ := honest.fleet.meets run within ⟨sound,finished⟩ keeps
  refine ⟨told.trans over_,?_⟩
  rw [shown]
  exact fleetSnapshot_all (settled.settled.over_ _ spec known (.inr ((isFinished_iff _).mp ended)))

theorem Honest.under (honest : Honest slots since call h d) (run : Run (step slots) start later w) (within : ∀ t ∈ since, t ∈ later)
    (bit : (start.server.runs (slots.of h)).drain.draining = true) : d.draining = true := by
  obtain ⟨_,m,told,under⟩ := honest.draining.meets run within bit fun w e w' => step_bit slots w e w' _
  exact told.trans under

/-- A call that is answered reports the runs it is asked for, of those that were registered at each
moment of the call, in their order. Each field of a report is what was so at an access of the call.
A report that says the run is finished has the time, and one that says it drains has the kind. What
was so before the call is told: a run that was finished is reported as finished, with no worker that
has a process, and one that was draining as draining. -/
theorem status_honest (run : Run (step slots) (initial boot) past w) (answered : w.calls call = .answered (.ok reports)) :
    ∃ args before t during after handles, past = before ++ t :: (during ++ after) ∧ t.event = .status call args ∧
      (∀ u ∈ during, u.pre.runs = t.pre.runs) ∧ asked t.pre.runs args = .ok handles ∧
      List.Forall₂ (fun h d => Honest slots (t :: during) call h d ∧
        ((t.pre.server.runs (slots.of h)).isFinished = true → d.finished = true ∧ ∀ shown ∈ d.workers, Silent shown) ∧
        ((t.pre.server.runs (slots.of h)).drain.draining = true → d.draining = true)) handles reports := by
  cases run_stands run call with
  | idle here => simp [here] at answered
  | reading _ _ _ _ _ _ _ _ _ going =>
    rw [answered] at going
    cases going
  | answered args before t during after shape began here kept told =>
    obtain rfl := Point.answered.inj (here.symm.trans answered)
    obtain ⟨handles,is,honest⟩ := told
    subst shape
    obtain ⟨reached,taken,later⟩ := run.split
    have whole : Run (step slots) t.pre (t :: (during ++ after)) w := later.cons taken
    have within : ∀ u ∈ t :: during, u ∈ t :: (during ++ after) := fun u member => by
      rcases List.mem_cons.mp member with rfl | inside <;> simp [*]
    refine ⟨args,before,t,during,after,handles,rfl,began,kept,is,honest.imp fun h d honest => ⟨honest,?_,?_⟩⟩
    · exact honest.over whole within (run_sound slots reached)
    · exact honest.under whole within

def namedSlots : Slots := ⟨Handle.runId,twins⟩

def saysOver : Point → Bool
  | .answered (.ok [d,d']) =>
    d.runId == "run-1" && d.startedUnixSecs == 7 && d.finished && d.draining && d'.runId == "run-2" && !d'.finished
  | _ => false

/-- A run is drained to its end, another is launched, and both are reported. -/
theorem status_honest_drained : ∃ past w d d' since, Run (step namedSlots) (initial 0) past w ∧
    w.calls 0 = .answered (.ok [d,d']) ∧ d.startedUnixSecs = 7 ∧ d.finishedUnixSecs.isSome = true ∧ d.drainKind.isSome = true ∧
    Looked since 0 (fun _ w => d.finishedUnixSecs = (w.finishedAt "run-1").map unixSecs) ∧
    d'.runId = "run-2" ∧ d'.finished = false ∧ Looked since 0 (fun _ w => d'.finished = (w.server.runs "run-2").isFinished) := by
  let serve (e : Server.Event) : Event := .server e 9000000000
  obtain ⟨past,w,run,over_⟩ := exists_run (step namedSlots) (initial 0)
    (List.flatten [[.launch ⟨0,"run-1"⟩ 7000000000,serve (.supervise "run-1" "api" .register),
      serve (.supervise "run-1" "api" .checkDrain),serve (.supervise "run-1" "api" (.spawned 101)),
      serve (.supervise "run-1" "api" (.publish 0 none)),
      serve (.approve ⟨"p1","api",none⟩ (.at 0)),serve (.drain 0 ⟨"run-1",none,none,some "p1",some "api"⟩)],
      (advances 0 6).map serve,[serve (.supervise "run-1" "api" .drainBranch),
      serve (.supervise "run-1" "api" (.publish 1 none)),serve (.supervise "run-1" "api" .stopReaped),
      serve (.supervise "run-1" "api" (.publish 2 none)),serve (.conclude "run-1"),serve (.conclude "run-1"),
      .launch ⟨1,"run-2"⟩ 8000000000,.status 0 ⟨none⟩],List.replicate 11 (.look 0 (.at 0))])
    (fun _ w => saysOver (w.calls 0) = true) (by decide +kernel)
  unfold saysOver at over_
  split at over_
  next d d' answered =>
    simp only [Bool.and_eq_true,beq_iff_eq,Bool.not_eq_true'] at over_
    obtain ⟨⟨⟨⟨⟨first,started⟩,finished⟩,draining⟩,second⟩,goes⟩ := over_
    obtain ⟨_,_,t,during,_,handles,_,_,_,_,honest⟩ := status_honest run answered
    cases honest with
    | @cons h d _ _ known rest =>
      cases rest with
      | @cons h' d' _ _ known' rest =>
        have slot : namedSlots.of h = "run-1" := known.1.runId.symm.trans first
        have slot' : namedSlots.of h' = "run-2" := known'.1.runId.symm.trans second
        have time := known.1.time
        have open_ := known'.1.finished
        rw [slot] at time
        rw [slot'] at open_
        exact ⟨past,w,d,d',_,run,answered,started,known.1.stamped finished,known.1.named draining,time,second,goes,open_⟩
  · contradiction

end Malkuth.Mcp.Status
