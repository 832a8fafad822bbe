import Malkuth.LogPage
import Malkuth.Server
import Malkuth.SuperviseLaunch

/-! The logs of supervised workers, from the streams of their children to the answers of the
`logs` arm. Every spawn of a worker starts a capturing task for each of its streams, all of them
fill the one ring of the worker, and a call looks at the ring twice: for its length, and for
that many lines. Each access to a ring is a step, and so is everything a task does between two
of them; children write and die, runs are launched and evicted, and calls come in any order. -/
namespace Malkuth.Mcp.Logs

open Transition Newest Worker

def logsDefaultLines : Nat := 100
def logsMaxLines : Nat := 500
def logsDefaultBytes : Nat := 8 * 1024

structure LogsArgs where
  runId : String
  workerId : Option String
  lines : Option Nat
  maxBytes : Option Nat
  deriving DecidableEq, Repr

def clamp (n low high : Nat) : Nat := if n < low then low else if high < n then high else n

def LogsArgs.lineBudget (args : LogsArgs) : Nat := clamp (args.lines.getD logsDefaultLines) 1 logsMaxLines

def LogsArgs.byteBudget (args : LogsArgs) : Nat := clamp (args.maxBytes.getD logsDefaultBytes) logsMinBytes logsMaxBytes

def unknownWorker (run worker : String) : Failure :=
  ⟨"unknown_worker","run `" ++ run ++ "` has no worker id `" ++ worker ++ "`"⟩

def workerRequired (run : String) (workers : Nat) : Failure :=
  ⟨"worker_required","run `" ++ run ++ "` has " ++ String.ofList (Text.display workers) ++ " workers — pass `worker_id`"⟩

/-- The worker whose ring is read: the one that is named, or the only one there is. -/
def target (spec : RunSpec) (args : LogsArgs) : Except Failure String :=
  match args.workerId.map Text.trim with
  | some id => if id ≠ "" then lookup id else sole
  | none => sole
where
  lookup (id : String) : Except Failure String :=
    if (spec.config id).isSome then .ok id else .error (unknownWorker args.runId id)
  sole : Except Failure String :=
    match spec.ids with
    | [id] => lookup id
    | ids => .error (workerRequired args.runId ids.length)

/-- A worker is named by an id that is not blank. -/
def LogsArgs.named (args : LogsArgs) : Option String := (args.workerId.map Text.trim).filter (· ≠ "")

/-- The arguments point at this worker of the run, by its id or because it is the only one. -/
def Names (spec : RunSpec) (args : LogsArgs) (worker : String) : Prop :=
  worker ∈ spec.ids ∧ (args.named = some worker ∨ args.named = none ∧ spec.ids = [worker])

/-- They point at none. -/
def Misses (spec : RunSpec) (args : LogsArgs) (failure : Failure) : Prop :=
  (∃ id, args.named = some id ∧ id ∉ spec.ids ∧ failure = unknownWorker args.runId id) ∨
  args.named = none ∧ spec.ids.length ≠ 1 ∧ failure = workerRequired args.runId spec.ids.length

theorem target_eq (spec : RunSpec) (args : LogsArgs) : target spec args =
    match args.named with
    | some id => target.lookup spec args id
    | none => target.sole spec args := by
  unfold target LogsArgs.named
  cases named : args.workerId.map Text.trim with
  | none => rfl
  | some id => by_cases blank : id = "" <;> simp [blank,Option.filter]

theorem lookup_eq (spec : RunSpec) (args : LogsArgs) (id : String) : target.lookup spec args id =
    if id ∈ spec.ids then .ok id else .error (unknownWorker args.runId id) := by
  simp only [target.lookup,spec.config_isSome]

/-- The answer is the worker that is pointed at, or tells what is wrong. -/
theorem target_spec (spec : RunSpec) (args : LogsArgs) :
    (∃ worker, target spec args = .ok worker ∧ Names spec args worker) ∨
      ∃ failure, target spec args = .error failure ∧ Misses spec args failure := by
  rw [target_eq]
  cases named : args.named with
  | some id =>
    dsimp only
    rw [lookup_eq]
    split
    next member => exact .inl ⟨id,rfl,member,.inl named⟩
    next missing => exact .inr ⟨_,rfl,.inl ⟨id,named,missing,rfl⟩⟩
  | none =>
    dsimp only
    unfold target.sole
    split
    next id only =>
      have member : id ∈ spec.ids := by simp [only]
      rw [lookup_eq,if_pos member]
      exact .inl ⟨id,rfl,member,.inr ⟨named,only⟩⟩
    next several =>
      refine .inr ⟨_,rfl,.inr ⟨named,fun one => ?_,rfl⟩⟩
      obtain ⟨id,only⟩ := List.length_eq_one_iff.mp one
      exact several id only

structure LogsAnswer where
  runId : String
  workerId : String
  totalLinesInRing : Nat
  page : LogPage
  deriving DecidableEq

abbrev Place := Nat × String

/-- `inside` has the rest of a chunk before it, `flushing` too, after the newline whose line is
to be flushed. -/
inductive Point where
  | reading
  | inside (rest : List UInt8)
  | flushing (rest : List UInt8)
  | lastFlush
  | closed
  deriving DecidableEq, Repr

structure Task where
  place : Place
  line : List UInt8
  truncated : Bool
  point : Point
  deriving DecidableEq, Repr

def Task.holding (task : Task) (ring : WorkerLogRing) : Capture := ⟨task.line,task.truncated,ring,[]⟩

def Task.resume (task : Task) (capture : Capture) (point : Point) : Task :=
  { task with line := capture.line, truncated := capture.truncated, point := point }

inductive CallPoint where
  | idle
  | findRun (args : LogsArgs)
  | readLen (args : LogsArgs) (ref : Nat) (worker : String)
  | readTail (args : LogsArgs) (ref : Nat) (worker : String) (len : Nat)
  | answered (args : LogsArgs) (answer : Except Failure LogsAnswer)

def CallPoint.answer : CallPoint → Option (LogsArgs × Except Failure LogsAnswer)
  | .answered args answer => some (args,answer)
  | _ => none

structure World where
  registry : Registry.State
  specs : Nat → Option RunSpec
  rings : Place → WorkerLogRing
  tasks : Nat → Option Task
  calls : Nat → CallPoint

def World.initial : World := ⟨Registry.initial,fun _ => none,fun _ => .new,fun _ => none,fun _ => .idle⟩

def World.setTask (w : World) (k : Nat) (task : Task) : World :=
  { w with tasks := Function.update w.tasks k (some task) }

inductive Event where
  | supervise (args : SuperviseArgs) (ref : Nat) (generated : String)
  | markFinished (handle : Registry.Handle)
  | captureStream (k : Nat) (place : Place)
  | read (k : Nat) (chunk : Chunk)
  | eof (k : Nat)
  | advance (k : Nat)
  | begin (call : Nat) (args : LogsArgs)
  | look (call : Nat)

/-- What a task does on its own: up to its next read, or to the next flush. -/
def Task.advance (task : Task) (ring : WorkerLogRing) : Option (Task × Capture) :=
  match task.point with
  | .inside rest =>
    match rest.idxOf? newline with
    | some pos =>
      let deposited := (task.holding ring).deposit (rest.take pos)
      some (task.resume deposited (.flushing (rest.drop (pos + 1))),deposited)
    | none =>
      let deposited := (task.holding ring).deposit rest
      some (task.resume deposited .reading,deposited)
  | .flushing rest =>
    let flushed := (task.holding ring).flushLine
    some (task.resume flushed (.inside rest),flushed)
  | .lastFlush =>
    let flushed := (task.holding ring).flushLine
    some (task.resume flushed .closed,flushed)
  | .reading | .closed => none

/-- A child that ends without a newline still logged a line. -/
def Task.afterEof (task : Task) : Point :=
  if task.line.isEmpty = false ∨ task.truncated = true then .lastFlush else .closed

def lookAdvance (w : World) : CallPoint → Option CallPoint
  | .findRun args =>
    match w.registry.runs.find? fun r => r.runId == args.runId with
    | none => some (.answered args (.error (Server.unknownRun args.runId)))
    | some handle =>
      (w.specs handle.ref).map fun spec =>
        match target spec args with
        | .error failure => .answered args (.error failure)
        | .ok worker => .readLen args handle.ref worker
  | .readLen args ref worker => some (.readTail args ref worker (w.rings (ref,worker)).inner.length)
  | .readTail args ref worker len =>
    let all := (w.rings (ref,worker)).tail len
    some (.answered args (.ok ⟨args.runId,worker,all.length,pageLogs all args.lineBudget args.byteBudget⟩))
  | .idle | .answered .. => none

def step (w : World) : Event → Option World
  | .supervise args ref generated =>
    if (w.specs ref).isSome then none
    else
      match malkuthSupervise w.registry args ref generated with
      | (.error _,registry) => some { w with registry := registry }
      | (.ok (_,spec),registry) =>
        some { w with registry := registry, specs := Function.update w.specs ref (some spec) }
  | .markFinished handle => some { w with registry := w.registry.markFinished handle }
  | .captureStream k place =>
    if (w.tasks k).isNone ∧ (w.specs place.1).any (fun spec => (spec.config place.2).isSome) then
      some (w.setTask k ⟨place,[],false,.reading⟩)
    else none
  | .read k chunk =>
    match w.tasks k with
    | some task =>
      if task.point = .reading then some (w.setTask k { task with point := .inside chunk.bytes }) else none
    | none => none
  | .eof k =>
    match w.tasks k with
    | some task =>
      if task.point = .reading then some (w.setTask k { task with point := task.afterEof }) else none
    | none => none
  | .advance k =>
    match w.tasks k with
    | some task =>
      (task.advance (w.rings task.place)).map fun (task',capture) =>
        { w.setTask k task' with rings := Function.update w.rings task.place capture.ring }
    | none => none
  | .begin call args =>
    match w.calls call with
    | .idle => some { w with calls := Function.update w.calls call (.findRun args) }
    | _ => none
  | .look call =>
    (lookAdvance w (w.calls call)).map fun point => { w with calls := Function.update w.calls call point }

/-! What a history says about a ring. -/

abbrev History := List (Taken World Event)

/-- What the step inserted into the ring, and for which task. -/
def put (place : Place) (t : Taken World Event) : List (Nat × Line) :=
  match t.event with
  | .advance k =>
    match t.pre.tasks k with
    | some task =>
      if task.place = place then
        ((task.advance (t.pre.rings place)).map fun p => p.2.inserted.map fun line => (k,line)).getD []
      else []
    | none => []
  | _ => []

def feed (past : History) (place : Place) : List (Nat × Line) := past.flatMap (put place)

def own (past : History) (place : Place) (k : Nat) : List Line :=
  ((feed past place).filter fun entry => entry.1 == k).map Prod.snd

/-- What the reads of a task returned. -/
def handed (past : History) (k : Nat) : List UInt8 :=
  past.flatMap fun t =>
    match t.event with
    | .read j chunk => if j = k then chunk.bytes else []
    | _ => []

def complete (stream : List UInt8) : List Line := ((Lines.split newline stream).1.map List.dropLast).filterMap render

/-! One access of a task. -/

theorem reference_eq (stream : List UInt8) : reference stream = complete stream ++
    if (Lines.split newline stream).2 = [] then [] else (render (Lines.split newline stream).2).toList := by
  rw [reference,pieces,List.filterMap_append]
  split
  · rfl
  · cases line : render (Lines.split newline stream).2 <;> simp [complete,line]

theorem complete_append_clean (seen piece : List UInt8) (clean : newline ∉ piece) :
    complete (seen ++ piece) = complete seen := by
  rw [complete,Lines.split_append_clean newline seen piece clean]
  rfl

theorem complete_append_newline (seen : List UInt8) :
    complete (seen ++ [newline]) = complete seen ++ (render (Lines.split newline seen).2).toList := by
  rw [complete,Lines.split_append_sep]
  cases line : render (Lines.split newline seen).2 <;> simp [complete,line]

/-- The lines that have ended stay lines of the stream, whatever follows them. -/
theorem complete_prefix (seen more : List UInt8) : complete seen <+: complete (seen ++ more) := by
  induction more using List.reverseRecOn with
  | nil => simp
  | append_singleton more b ih =>
    rw [← List.append_assoc]
    by_cases ends : b = newline
    · subst ends
      rw [complete_append_newline]
      exact ih.trans (List.prefix_append ..)
    · rw [complete_append_clean _ [b] (by simpa using Ne.symm ends)]
      exact ih

/-- What of its last read a task has yet to look at. -/
def Point.behind : Point → List UInt8
  | .inside rest => rest
  | .flushing rest => newline :: rest
  | _ => []

/-- A task that was handed `given` and inserted `lines`: those of the bytes it has been
through, of which its buffer holds the start of the last piece. -/
structure Standing (task : Task) (given : List UInt8) (lines : List Line) (seen : List UInt8) : Prop where
  given : given = seen ++ task.point.behind
  holds : ∀ ring, Holds (task.holding ring) (Lines.split newline seen).2
  lines : lines = complete seen
  unfinished : task.point = .lastFlush → (Lines.split newline seen).2 ≠ []

def Stands (task : Task) (given : List UInt8) (lines : List Line) : Prop :=
  if task.point = .closed then lines = reference given else ∃ seen, Standing task given lines seen

theorem holding_holds (task : Task) {capture : Capture} (holds : Holds capture piece) (ring : WorkerLogRing) :
    Holds ((task.resume capture point).holding ring) piece := ⟨holds.line,holds.truncated⟩

theorem deposit_clean {task : Task} (holds : ∀ ring, Holds (task.holding ring) (Lines.split newline seen).2)
    (clean : newline ∉ piece) (ring ring' : WorkerLogRing) :
    Holds ((task.resume ((task.holding ring).deposit piece) point).holding ring')
      (Lines.split newline (seen ++ piece)).2 := by
  rw [Lines.split_append_clean newline seen piece clean]
  exact holding_holds task ((holds ring).deposit piece) ring'

/-- Whatever a task does next, it inserts what its stream says, and the ring stays the newest
lines of those that were inserted. -/
theorem advance_stands (stands : Stands task given lines) (taken : task.advance ring = some (task',capture)) :
    Stands task' given (lines ++ capture.inserted) ∧ task'.place = task.place ∧
      ∀ all, ring.inner = all.rtake logRingCapacity →
        capture.ring.inner = (all ++ capture.inserted).rtake logRingCapacity := by
  have deposited : ∀ piece, ((task.holding ring).deposit piece).inserted = [] := fun piece => (deposit_frame ..).1
  have kept : ∀ piece, ((task.holding ring).deposit piece).ring = ring := fun piece => (deposit_frame ..).2
  have flushes : ∀ piece, Holds (task.holding ring) piece → ∀ all, ring.inner = all.rtake logRingCapacity →
      (task.holding ring).flushLine.ring.inner =
        (all ++ (task.holding ring).flushLine.inserted).rtake logRingCapacity := by
    intro piece holds all newest
    exact flush_newest (by simpa [Task.holding] using newest) holds
  cases point : task.point with
  | reading | closed => simp [Task.advance,point] at taken
  | inside rest =>
    simp only [Stands,point,reduceCtorEq,if_false] at stands
    obtain ⟨seen,standing⟩ := stands
    have given := standing.given
    simp only [Task.advance,point] at taken
    split at taken
    next pos found =>
      obtain ⟨low,same,before⟩ := List.idxOf?_eq_some_iff.mp found
      obtain ⟨rfl,rfl⟩ := Prod.mk.inj (Option.some.inj taken)
      have clean : newline ∉ rest.take pos := by
        intro member
        obtain ⟨j,bound,at_⟩ := List.mem_take_iff_getElem.mp member
        exact before j (by omega) at_
      have cut := List.take_append_drop pos rest
      rw [List.drop_eq_getElem_cons low,same] at cut
      rw [deposited,List.append_nil,kept]
      refine ⟨⟨seen ++ rest.take pos,?_,deposit_clean standing.holds clean ring,?_,by rintro ⟨⟩⟩,rfl,by simp⟩
      · rw [given,point,List.append_assoc]
        exact congrArg (seen ++ ·) cut.symm
      · rw [complete_append_clean _ _ clean]
        exact standing.lines
    next none_ =>
      obtain ⟨rfl,rfl⟩ := Prod.mk.inj (Option.some.inj taken)
      have clean : newline ∉ rest := List.idxOf?_eq_none_iff.mp none_
      rw [deposited,List.append_nil,kept]
      refine ⟨⟨seen ++ rest,?_,deposit_clean standing.holds clean ring,?_,by rintro ⟨⟩⟩,rfl,by simp⟩
      · rw [given,point]
        exact (List.append_nil _).symm
      · rw [complete_append_clean _ _ clean]
        exact standing.lines
  | flushing rest =>
    simp only [Stands,point,reduceCtorEq,if_false] at stands
    obtain ⟨seen,standing⟩ := stands
    simp only [Task.advance,point] at taken
    obtain ⟨rfl,rfl⟩ := Prod.mk.inj (Option.some.inj taken)
    obtain ⟨empty,inserted,_⟩ := (standing.holds ring).flushLine
    refine ⟨⟨seen ++ [newline],?_,?_,?_,by rintro ⟨⟩⟩,rfl,flushes _ (standing.holds ring)⟩
    · rw [standing.given,point,List.append_assoc]
      rfl
    · rw [Lines.split_append_sep]
      exact holding_holds task empty
    · rw [inserted,complete_append_newline,standing.lines]
      rfl
  | lastFlush =>
    simp only [Stands,point,reduceCtorEq,if_false] at stands
    obtain ⟨seen,standing⟩ := stands
    have whole : given = seen := by simpa [point,Point.behind] using standing.given
    simp only [Task.advance,point] at taken
    obtain ⟨rfl,rfl⟩ := Prod.mk.inj (Option.some.inj taken)
    obtain ⟨_,inserted,_⟩ := (standing.holds ring).flushLine
    refine ⟨?_,rfl,flushes _ (standing.holds ring)⟩
    change _ = reference given
    rw [whole,reference_eq,if_neg (standing.unfinished point),inserted,standing.lines]
    rfl

theorem opened_stands (place : Place) : Stands ⟨place,[],false,.reading⟩ [] [] :=
  ⟨[],rfl,fun _ => ⟨rfl,by simp [Task.holding,Lines.split]⟩,rfl,by rintro ⟨⟩⟩

theorem read_stands (stands : Stands task given lines) (reading : task.point = .reading) (bytes : List UInt8) :
    Stands { task with point := .inside bytes } (given ++ bytes) lines := by
  simp only [Stands,reading,reduceCtorEq,if_false] at stands
  obtain ⟨seen,standing⟩ := stands
  refine ⟨seen,?_,standing.holds,standing.lines,by rintro ⟨⟩⟩
  rw [standing.given,reading]
  exact congrArg (· ++ bytes) (List.append_nil seen)

theorem eof_stands (stands : Stands task given lines) (reading : task.point = .reading) :
    Stands { task with point := task.afterEof } given lines := by
  simp only [Stands,reading,reduceCtorEq,if_false] at stands
  obtain ⟨seen,standing⟩ := stands
  have whole : given = seen := by simpa [reading,Point.behind] using standing.given
  have held := standing.holds .new
  unfold Task.afterEof
  split
  next left =>
    refine ⟨seen,standing.given.trans (by rw [reading]; rfl),standing.holds,standing.lines,fun _ nothing => ?_⟩
    rw [nothing] at held
    have empty : task.line = [] := held.line
    have short : task.truncated = false := held.truncated
    simp [empty,short] at left
  next nothing =>
    change lines = reference given
    have done : (Lines.split newline seen).2 = [] := by
      by_contra some_
      apply nothing
      left
      rw [show task.line = _ from held.line]
      simpa [logLineMaxBytes] using some_
    rw [whole,reference_eq,if_pos done,List.append_nil]
    exact standing.lines

inductive Steps (w : World) : Event → World → Prop where
  | refused : malkuthSupervise w.registry args ref generated = (.error message,w.registry) →
      Steps w (.supervise args ref generated) w
  | launched : w.specs ref = none → args.launch = .ok spec →
      (w.registry.insertRun ⟨ref,args.runId.getD generated⟩).1 = .ok () →
      Steps w (.supervise args ref generated) { w with
        registry := (w.registry.insertRun ⟨ref,args.runId.getD generated⟩).2
        specs := Function.update w.specs ref (some spec) }
  | finished : Steps w (.markFinished handle) { w with registry := w.registry.markFinished handle }
  | opened : w.tasks k = none → w.specs place.1 = some spec → place.2 ∈ spec.ids →
      Steps w (.captureStream k place) (w.setTask k ⟨place,[],false,.reading⟩)
  | handed (task : Task) : w.tasks k = some task → task.point = .reading →
      Steps w (.read k chunk) (w.setTask k { task with point := .inside chunk.bytes })
  | ended (task : Task) : w.tasks k = some task → task.point = .reading →
      Steps w (.eof k) (w.setTask k { task with point := task.afterEof })
  | advanced (task task' : Task) : w.tasks k = some task → task.advance (w.rings task.place) = some (task',capture) →
      Steps w (.advance k) { w.setTask k task' with rings := Function.update w.rings task.place capture.ring }
  | begun : w.calls call = .idle → Steps w (.begin call args) { w with calls := Function.update w.calls call (.findRun args) }
  | looked : lookAdvance w (w.calls call) = some point →
      Steps w (.look call) { w with calls := Function.update w.calls call point }

theorem step_steps (w w' : World) (e : Event) (taken : step w e = some w') : Steps w e w' := by
  cases e with
  | supervise args ref generated =>
    simp only [step] at taken
    split at taken
    next => cases taken
    next fresh =>
      have unused : w.specs ref = none := by simpa using fresh
      rcases malkuthSupervise_cases w.registry args ref generated with ⟨message,refused⟩ | ⟨spec,launched,ok,accepted⟩
      · rw [refused] at taken
        obtain rfl := Option.some.inj taken
        exact .refused refused
      · rw [accepted] at taken
        obtain rfl := Option.some.inj taken
        exact .launched unused launched ok
  | markFinished handle =>
    obtain rfl := Option.some.inj taken
    exact .finished
  | captureStream k place =>
    simp only [step] at taken
    split at taken
    next new =>
      obtain ⟨spec,known,worker⟩ := (Option.any_eq_true ..).mp new.2
      obtain rfl := Option.some.inj taken
      exact .opened (by simpa using new.1) known ((spec.config_isSome _).mp worker)
    next => cases taken
  | read k chunk =>
    simp only [step] at taken
    split at taken
    next task known =>
      split at taken
      next reading => obtain rfl := Option.some.inj taken; exact .handed task known reading
      next => cases taken
    next => cases taken
  | eof k =>
    simp only [step] at taken
    split at taken
    next task known =>
      split at taken
      next reading => obtain rfl := Option.some.inj taken; exact .ended task known reading
      next => cases taken
    next => cases taken
  | advance k =>
    simp only [step] at taken
    split at taken
    next task known =>
      obtain ⟨⟨task',capture⟩,advanced,rfl⟩ := Option.map_eq_some_iff.mp taken
      exact .advanced task task' known advanced
    next => cases taken
  | «begin» call args =>
    simp only [step] at taken
    split at taken
    next idle => obtain rfl := Option.some.inj taken; exact .begun idle
    next => cases taken
  | look call =>
    obtain ⟨point,looked,rfl⟩ := Option.map_eq_some_iff.mp taken
    exact .looked looked

/-! What a call knows of the past. -/

def Begun (past : History) (call : Nat) (args : LogsArgs) : Prop := ∃ t ∈ past, t.event = .begin call args

/-- After it was begun, the call looked at a state with this history. -/
def Looked (past : History) (call : Nat) (args : LogsArgs) (P : History → World → Prop) : Prop :=
  ∃ before w w' after, past = before ++ ⟨w,.look call,w'⟩ :: after ∧ Begun before call args ∧ P before w

/-- A run of the id is registered, and the worker is the one that the arguments name there. -/
def Located (args : LogsArgs) (ref : Nat) (worker : String) (w : World) : Prop :=
  ∃ handle ∈ w.registry.runs, handle.runId = args.runId ∧ handle.ref = ref ∧
    ∃ spec, w.specs ref = some spec ∧ Names spec args worker

def Refuses (args : LogsArgs) (failure : Failure) (w : World) : Prop :=
  (∀ handle ∈ w.registry.runs, handle.runId ≠ args.runId) ∧ failure = Server.unknownRun args.runId ∨
  ∃ handle ∈ w.registry.runs, handle.runId = args.runId ∧
    ∃ spec, w.specs handle.ref = some spec ∧ Misses spec args failure

/-- The call located the ring, and then found it to hold `len` lines. -/
def Measured (past : History) (call : Nat) (args : LogsArgs) (ref : Nat) (worker : String) (len : Nat) : Prop :=
  Looked past call args fun early _ =>
    (Looked early call args fun _ w => Located args ref worker w) ∧
      len = min logRingCapacity (feed early (ref,worker)).length

/-- And then it took that many of the newest lines, which are what it answers. -/
def Shows (past : History) (call : Nat) (args : LogsArgs) (a : LogsAnswer) : Prop :=
  a.runId = args.runId ∧ ∃ ref, Looked past call args fun now _ =>
    Measured now call args ref a.workerId a.totalLinesInRing ∧
      a.page = pageLogs (((feed now (ref,a.workerId)).map Prod.snd).rtake a.totalLinesInRing)
        args.lineBudget args.byteBudget

def CallStands (past : History) (call : Nat) : CallPoint → Prop
  | .idle => True
  | .findRun args => Begun past call args
  | .readLen args ref worker => Looked past call args fun _ w => Located args ref worker w
  | .readTail args ref worker len => Measured past call args ref worker len
  | .answered args (.ok a) => Shows past call args a
  | .answered args (.error failure) => Looked past call args fun _ w => Refuses args failure w

theorem Begun.snoc (begun : Begun past call args) (t : Taken World Event) : Begun (past ++ [t]) call args := by
  obtain ⟨u,member,same⟩ := begun
  exact ⟨u,List.mem_append_left _ member,same⟩

theorem Looked.snoc (looked : Looked past call args P) (t : Taken World Event) : Looked (past ++ [t]) call args P := by
  obtain ⟨before,w,w',after,rfl,rest⟩ := looked
  exact ⟨before,w,w',after ++ [t],by simp,rest⟩

theorem Looked.begun (looked : Looked past call args P) : Begun past call args := by
  obtain ⟨before,w,w',after,rfl,⟨t,member,same⟩,_⟩ := looked
  exact ⟨t,List.mem_append_left _ member,same⟩

theorem Looked.now (begun : Begun past call args) (holds : P past w) :
    Looked (past ++ [⟨w,.look call,w'⟩]) call args P := ⟨past,w,w',[],rfl,begun,holds⟩

theorem CallStands.snoc (stands : CallStands past call point) (t : Taken World Event) :
    CallStands (past ++ [t]) call point := by
  cases point with
  | idle => trivial
  | findRun args => exact Begun.snoc stands t
  | readLen args ref worker => exact Looked.snoc stands t
  | readTail args ref worker len => exact Looked.snoc stands t
  | answered args answer =>
    cases answer with
    | error failure => exact Looked.snoc stands t
    | ok a =>
      obtain ⟨run,ref,shown⟩ := stands
      exact ⟨run,ref,shown.snoc t⟩

theorem feed_snoc (past : History) (t : Taken World Event) (place : Place) :
    feed (past ++ [t]) place = feed past place ++ put place t := by
  simp [feed]

theorem feed_length_mono (early late : History) (place : Place) :
    (feed early place).length ≤ (feed (early ++ late) place).length := by
  simp [feed]

theorem own_snoc (past : History) (t : Taken World Event) (place : Place) (k : Nat) :
    own (past ++ [t]) place k = own past place k ++ ((put place t).filter fun entry => entry.1 == k).map Prod.snd := by
  rw [own,feed_snoc,List.filter_append,List.map_append]
  rfl

theorem put_advance {task task' : Task} (known : w.tasks k = some task)
    (advanced : task.advance (w.rings task.place) = some (task',capture)) (place : Place) (w' : World) :
    put place ⟨w,.advance k,w'⟩ =
      if task.place = place then capture.inserted.map fun line => (k,line) else [] := by
  simp only [put,known]
  split
  next here =>
    subst here
    rw [advanced]
    rfl
  next => rfl

structure Books (past : History) (w : World) : Prop where
  rings : ∀ place, (w.rings place).inner = ((feed past place).map Prod.snd).rtake logRingCapacity
  tasks : ∀ k task, w.tasks k = some task → Stands task (handed past k) (own past task.place k)
  unopened : ∀ k, w.tasks k = none → handed past k = []
  fed : ∀ place, ∀ entry ∈ feed past place, ∃ task, w.tasks entry.1 = some task ∧ task.place = place
  registered : ∀ handle ∈ w.registry.runs, (w.specs handle.ref).isSome = true
  calls : ∀ call, CallStands past call (w.calls call)

theorem Books.initial : Books [] .initial where
  rings _ := by simp [World.initial,WorkerLogRing.new,feed,List.rtake]
  tasks _ _ known := by cases known
  unopened _ _ := rfl
  fed _ _ member := by cases member
  registered _ member := by cases member
  calls _ := trivial

/-- A look of a call, at what the books say. -/
theorem Books.look (books : Books past w) (looked : lookAdvance w (w.calls call) = some point) (w' : World) :
    CallStands (past ++ [⟨w,.look call,w'⟩]) call point := by
  have stands := books.calls call
  cases at_ : w.calls call with
  | idle | answered => simp [lookAdvance,at_] at looked
  | findRun args =>
    rw [at_] at looked stands
    simp only [lookAdvance] at looked
    split at looked
    next none_ =>
      obtain rfl := Option.some.inj looked
      exact .now stands (.inl ⟨by simpa using none_,rfl⟩)
    next handle found =>
      have member := List.mem_of_find?_eq_some found
      have same : handle.runId = args.runId := by simpa using List.find?_some found
      obtain ⟨spec,known,rfl⟩ := Option.map_eq_some_iff.mp looked
      rcases target_spec spec args with ⟨worker,ok,names⟩ | ⟨failure,error,misses⟩
      · rw [ok]
        exact .now stands ⟨handle,member,same,rfl,spec,known,names⟩
      · rw [error]
        exact .now stands (.inr ⟨handle,member,same,spec,known,misses⟩)
  | readLen args ref worker =>
    rw [at_] at looked stands
    obtain rfl := Option.some.inj looked
    refine .now (Looked.begun stands) ⟨stands,?_⟩
    rw [books.rings,length_rtake,List.length_map]
  | readTail args ref worker len =>
    rw [at_] at looked stands
    obtain rfl := Option.some.inj looked
    obtain ⟨early,w₀,w₁,late,rfl,begun,located,rfl⟩ := id stands
    have grown := feed_length_mono early (⟨w₀,.look call,w₁⟩ :: late) (ref,worker)
    have tail : (w.rings (ref,worker)).tail (min logRingCapacity (feed early (ref,worker)).length) =
        ((feed (early ++ ⟨w₀,.look call,w₁⟩ :: late) (ref,worker)).map Prod.snd).rtake
          (min logRingCapacity (feed early (ref,worker)).length) := by
      change (w.rings (ref,worker)).inner.rtake _ = _
      rw [books.rings,rtake_rtake _ (Nat.min_le_left ..)]
    have count : ((w.rings (ref,worker)).tail (min logRingCapacity (feed early (ref,worker)).length)).length =
        min logRingCapacity (feed early (ref,worker)).length := by
      rw [tail,length_rtake,List.length_map]
      omega
    refine ⟨rfl,ref,.now (Looked.begun stands) ?_⟩
    dsimp only
    rw [count,tail]
    exact ⟨stands,rfl⟩

theorem insertRun_members (s : Registry.State) (handle : Registry.Handle) :
    ∀ r ∈ (s.insertRun handle).2.runs, r ∈ s.runs ∨ r = handle := by
  intro r member
  rcases Registry.insertRun_cases s handle with ⟨_,refused⟩ | ⟨_,_,⟨_,ok⟩ | ⟨front,old,back,_,runs,_,_,ok⟩⟩
  · rw [refused] at member
    exact .inl member
  · rw [ok] at member
    simpa [Registry.State.register] using member
  · rw [ok] at member
    rw [runs]
    simp only [Registry.State.register,List.mem_append,List.mem_cons] at member ⊢
    tauto

/-- Steps of the other tools and looks insert nothing and read nothing of a stream. -/
structure Quiet (t : Taken World Event) : Prop where
  put : ∀ place, put place t = []
  tasks : t.post.tasks = t.pre.tasks
  rings : t.post.rings = t.pre.rings
  handed : ∀ past k, handed (past ++ [t]) k = handed past k

theorem Books.quiet (books : Books past w) (quiet : Quiet ⟨w,e,w'⟩)
    (registered : ∀ handle ∈ w'.registry.runs, (w'.specs handle.ref).isSome = true)
    (calls : ∀ call, CallStands (past ++ [⟨w,e,w'⟩]) call (w'.calls call)) : Books (past ++ [⟨w,e,w'⟩]) w' := by
  have tasks : w'.tasks = w.tasks := quiet.tasks
  have rings : w'.rings = w.rings := quiet.rings
  refine ⟨?_,?_,?_,?_,registered,calls⟩
  · intro place
    rw [rings,feed_snoc,quiet.put,List.append_nil]
    exact books.rings place
  · intro k task known
    rw [tasks] at known
    rw [quiet.handed,own_snoc,quiet.put]
    simpa using books.tasks k task known
  · intro k none_
    rw [tasks] at none_
    rw [quiet.handed]
    exact books.unopened k none_
  · intro place entry member
    rw [feed_snoc,quiet.put,List.append_nil] at member
    rw [tasks]
    exact books.fed place entry member

structure Works (past : History) (k : Nat) (task : Task) (inserted : List Line) (t : Taken World Event) : Prop where
  tasks : t.post.tasks = Function.update t.pre.tasks k (some task)
  put : ∀ place, put place t = if task.place = place then inserted.map fun line => (k,line) else []
  stands : Stands task (handed (past ++ [t]) k) (own past task.place k ++ inserted)
  others : ∀ j, j ≠ k → handed (past ++ [t]) j = handed past j
  same : ∀ before, t.pre.tasks k = some before → before.place = task.place
  rest : t.post.registry = t.pre.registry ∧ t.post.specs = t.pre.specs ∧ t.post.calls = t.pre.calls

theorem Books.works (books : Books past w) (k : Nat) (task : Task) (inserted : List Line)
    (works : Works past k task inserted ⟨w,e,w'⟩)
    (rings : ∀ place, (w'.rings place).inner =
      ((feed (past ++ [⟨w,e,w'⟩]) place).map Prod.snd).rtake logRingCapacity) : Books (past ++ [⟨w,e,w'⟩]) w' := by
  have tasks : w'.tasks = Function.update w.tasks k (some task) := works.tasks
  obtain ⟨registry,specs,calls⟩ : w'.registry = w.registry ∧ w'.specs = w.specs ∧ w'.calls = w.calls := works.rest
  refine ⟨rings,?_,?_,?_,?_,?_⟩
  · intro j found known
    rw [tasks] at known
    by_cases mine : j = k
    · subst mine
      obtain rfl : task = found := by simpa using known
      have lines : own (past ++ [⟨w,e,w'⟩]) task.place j = own past task.place j ++ inserted := by
        rw [own_snoc,works.put,if_pos rfl]
        simp [List.filter_map,Function.comp_def]
      rw [lines]
      exact works.stands
    · rw [Function.update_of_ne mine] at known
      have lines : own (past ++ [⟨w,e,w'⟩]) found.place j = own past found.place j := by
        rw [own_snoc,works.put]
        split <;> simp [List.filter_map,Function.comp_def,Ne.symm mine]
      rw [lines,works.others j mine]
      exact books.tasks j found known
  · intro j none_
    rw [tasks] at none_
    have other : j ≠ k := by
      rintro rfl
      simp at none_
    rw [Function.update_of_ne other] at none_
    rw [works.others j other]
    exact books.unopened j none_
  · intro place entry member
    rw [feed_snoc,works.put,List.mem_append] at member
    rw [tasks]
    rcases member with old | new
    · obtain ⟨found,known,there⟩ := books.fed place entry old
      by_cases mine : entry.1 = k
      · rw [mine] at known ⊢
        exact ⟨task,by simp,(works.same found known).symm.trans there⟩
      · exact ⟨found,by rw [Function.update_of_ne mine]; exact known,there⟩
    · split at new
      next here =>
        obtain ⟨line,_,rfl⟩ := List.mem_map.mp new
        exact ⟨task,by simp,here⟩
      next => cases new
  · rw [registry,specs]
    exact books.registered
  · rw [calls]
    exact fun call => (books.calls call).snoc _

/-- A step of one task that inserts nothing. -/
theorem Books.moves (books : Books past w) (k : Nat) (task : Task) (works : Works past k task [] ⟨w,e,w'⟩)
    (rings : w'.rings = w.rings) : Books (past ++ [⟨w,e,w'⟩]) w' := by
  refine books.works k task [] works fun place => ?_
  have nothing : put place ⟨w,e,w'⟩ = [] := by simp [works.put]
  rw [rings,feed_snoc,nothing,List.append_nil]
  exact books.rings place

theorem Books.own_unopened (books : Books past w) (none_ : w.tasks k = none) (place : Place) : own past place k = [] := by
  rw [own,List.map_eq_nil_iff,List.filter_eq_nil_iff]
  intro entry member mine
  obtain ⟨task,known,_⟩ := books.fed place entry member
  rw [beq_iff_eq.mp mine,none_] at known
  cases known

theorem Books.snoc (books : Books past w) (taken : step w e = some w') : Books (past ++ [⟨w,e,w'⟩]) w' := by
  have keep : ∀ call, CallStands (past ++ [⟨w,e,w'⟩]) call (w.calls call) := fun call => (books.calls call).snoc _
  cases step_steps w w' e taken with
  | refused _ => exact books.quiet ⟨fun _ => rfl,rfl,rfl,by simp [handed]⟩ books.registered keep
  | @launched ref args spec generated unused _ _ =>
    refine books.quiet ⟨fun _ => rfl,rfl,rfl,by simp [handed]⟩ ?_ keep
    intro handle member
    rcases insertRun_members _ _ handle member with old | rfl
    · exact update_holds (P := fun spec => Option.isSome spec = true) (books.registered handle old) fun _ => rfl
    · simp
  | finished => exact books.quiet ⟨fun _ => rfl,rfl,rfl,by simp [handed]⟩ books.registered keep
  | @opened k place spec none_ _ _ =>
    refine books.moves k ⟨place,[],false,.reading⟩ ⟨rfl,by simp [put],?_,by simp [handed],?_,rfl,rfl,rfl⟩ rfl
    · have given : handed (past ++ [⟨w,.captureStream k place,w.setTask k ⟨place,[],false,.reading⟩⟩]) k = [] := by
        simpa [handed] using books.unopened k none_
      rw [given,books.own_unopened none_]
      exact opened_stands place
    · intro before known
      rw [none_] at known
      cases known
  | @handed k chunk task known reading =>
    refine books.moves k { task with point := .inside chunk.bytes }
      ⟨rfl,by simp [put],?_,?_,?_,rfl,rfl,rfl⟩ rfl
    · simpa [handed] using read_stands (books.tasks k task known) reading chunk.bytes
    · intro j other
      simp [handed,Ne.symm other]
    · intro before same
      obtain rfl := Option.some.inj (known.symm.trans same)
      rfl
  | @ended k task known reading =>
    refine books.moves k { task with point := task.afterEof }
      ⟨rfl,by simp [put],?_,by simp [handed],?_,rfl,rfl,rfl⟩ rfl
    · simpa [handed] using eof_stands (books.tasks k task known) reading
    · intro before same
      obtain rfl := Option.some.inj (known.symm.trans same)
      rfl
  | @advanced k capture task task' known advanced =>
    obtain ⟨stands,same,newest⟩ := advance_stands (books.tasks k task known) advanced
    have puts := put_advance known advanced
    refine books.works k task' capture.inserted ⟨rfl,?_,?_,by simp [handed],?_,rfl,rfl,rfl⟩ ?_
    · intro place
      rw [same]
      exact puts place _
    · rw [same]
      simpa [handed] using stands
    · intro before there
      obtain rfl := Option.some.inj (known.symm.trans there)
      exact same.symm
    · intro place
      rw [feed_snoc,puts,List.map_append]
      dsimp only
      by_cases here : task.place = place
      · subst here
        rw [Function.update_self,if_pos rfl]
        simpa using newest _ (books.rings task.place)
      · rw [Function.update_of_ne (Ne.symm here),if_neg here]
        simpa using books.rings place
  | @begun call args idle =>
    refine books.quiet ⟨fun _ => rfl,rfl,rfl,by simp [handed]⟩ books.registered ?_
    intro other
    apply update_holds (P := CallStands _ other) (keep other)
    rintro rfl
    exact ⟨_,List.mem_append_right _ (List.mem_singleton_self _),rfl⟩
  | @looked call point looked =>
    refine books.quiet ⟨fun _ => rfl,rfl,rfl,by simp [handed]⟩ books.registered ?_
    intro other
    apply update_holds (P := CallStands _ other) (keep other)
    rintro rfl
    exact books.look looked _

theorem run_books (run : Run step .initial past w) : Books past w := by
  induction run with
  | nil => exact .initial
  | snoc _ taken ih => exact ih.snoc taken

theorem Stands.prefix_reference (stands : Stands task given lines) : lines <+: reference given := by
  unfold Stands at stands
  split at stands
  next => exact stands ▸ List.prefix_rfl
  next =>
    obtain ⟨seen,standing⟩ := stands
    have whole := complete_prefix seen task.point.behind
    rw [standing.lines,standing.given,reference_eq]
    exact whole.trans (List.prefix_append ..)

theorem Stands.at_read (stands : Stands task given lines) (reading : task.point = .reading) : lines = complete given := by
  simp only [Stands,reading,reduceCtorEq,if_false] at stands
  obtain ⟨seen,standing⟩ := stands
  rw [standing.lines,standing.given,reading]
  exact congrArg complete (List.append_nil seen).symm

/-- A call that was begun is never stuck before its answer. -/
theorem Books.looks (books : Books past w) (call : Nat) :
    w.calls call = .idle ∨ (w.calls call).answer.isSome = true ∨ (lookAdvance w (w.calls call)).isSome = true := by
  cases at_ : w.calls call with
  | idle => exact .inl rfl
  | answered => exact .inr (.inl rfl)
  | readLen | readTail => exact .inr (.inr rfl)
  | findRun args =>
    refine .inr (.inr ?_)
    simp only [lookAdvance]
    split
    next => rfl
    next handle found =>
      rw [Option.isSome_map]
      exact books.registered handle (List.mem_of_find?_eq_some found)

/-- However the captures of a worker's streams interleave, the ring holds the newest of the lines
they inserted; each of them inserts the lines of its own stream, in their order, none twice and
none left out; and what the logs arm answers is the page of the lines that were the newest when it
took them, as many as the ring held at an earlier moment of the call, of the worker that was asked
for. -/
theorem logs_page_exact (past : History) (w : World) (run : Run step .initial past w) :
    (∀ place, (w.rings place).inner = ((feed past place).map Prod.snd).rtake logRingCapacity) ∧
    (∀ k task, w.tasks k = some task →
      (∀ place, place ≠ task.place → own past place k = []) ∧
      own past task.place k <+: reference (handed past k) ∧
      (task.point = .reading → own past task.place k = complete (handed past k)) ∧
      (task.point = .closed → own past task.place k = reference (handed past k))) ∧
    (∀ call args a, w.calls call = .answered args (.ok a) → Shows past call args a) ∧
    (∀ call args failure, w.calls call = .answered args (.error failure) →
      Looked past call args fun _ w => Refuses args failure w) ∧
    ∀ call, w.calls call = .idle ∨ (w.calls call).answer.isSome = true ∨
      (lookAdvance w (w.calls call)).isSome = true := by
  have books := run_books run
  refine ⟨books.rings,?_,?_,?_,books.looks⟩
  · intro k task known
    have stands := books.tasks k task known
    refine ⟨?_,stands.prefix_reference,stands.at_read,?_⟩
    · intro place elsewhere
      rw [own,List.map_eq_nil_iff,List.filter_eq_nil_iff]
      intro entry member mine
      obtain ⟨found,there,same⟩ := books.fed place entry member
      rw [beq_iff_eq.mp mine,known] at there
      obtain rfl := Option.some.inj there
      exact elsewhere same.symm
    · intro closed
      simpa [Stands,closed] using stands
  · intro call args a answered
    have stands := books.calls call
    rwa [answered] at stands
  · intro call args failure answered
    have stands := books.calls call
    rwa [answered] at stands

def webOnly : SuperviseArgs := ⟨[⟨" web ","svc",none⟩],none,none,none,none,some "r",by decide⟩

def webLogs : LogsArgs := ⟨"r",none,none,none⟩

/-- The call found one line in the ring, `a`; before it took one line, `c` came in. -/
theorem logs_page_exact_overtaken : ∃ past w, Run step .initial past w ∧
    (feed past (0,"web")).map Prod.snd = [['a'],['c']] ∧
    ∃ a, w.calls 0 = .answered webLogs (.ok a) ∧ a.totalLinesInRing = 1 ∧ a.page.text = ['c'] ∧ Shows past 0 webLogs a := by
  obtain ⟨past,w,run,lines,answered⟩ := exists_run step .initial
    [.supervise webOnly 0 "",.captureStream 0 (0,"web"),.captureStream 1 (0,"web"),
      .read 0 ⟨[97,10,98],by decide,by decide⟩,.read 1 ⟨[99,10],by decide,by decide⟩,
      .advance 1,.advance 0,.advance 0,.begin 0 webLogs,.look 0,.look 0,.advance 1,.look 0]
    (fun past w => (feed past (0,"web")).map Prod.snd = [['a'],['c']] ∧
      (w.calls 0).answer = some (webLogs,.ok ⟨"r","web",1,pageLogs [['c']] 100 8192⟩)) (by decide +kernel)
  have there : w.calls 0 = .answered webLogs (.ok ⟨"r","web",1,pageLogs [['c']] 100 8192⟩) := by
    cases at_ : w.calls 0 <;> simp_all [CallPoint.answer]
  obtain ⟨_,_,shows,_⟩ := logs_page_exact past w run
  exact ⟨past,w,run,lines,_,there,rfl,by decide +kernel,shows 0 webLogs _ there⟩

end Malkuth.Mcp.Logs
