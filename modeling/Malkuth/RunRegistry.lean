import Malkuth.Newest
import Malkuth.Transition

/-! The run registry of `mcp.rs`. Two lists change together under their locks: the runs that
can be addressed, and the ids that were given out last. A handle is shared: its `finished`
slot is set from outside, whether or not the registry still holds it. A poisoned lock is not
modelled: nothing under these locks panics. -/
namespace Malkuth.Mcp.Registry

open Transition Newest

def maxRuns : Nat := 8
def maxRememberedRunIds : Nat := 256

/-- An `Arc<RunHandle>`: `ref` tells two handles with one run id apart. -/
structure Handle where
  ref : Nat
  runId : String
  deriving DecidableEq, Repr

/-- `finished` holds the handles whose slot is `Some`. -/
structure State where
  runs : List Handle
  usedRunIds : List String
  finished : List Handle
  deriving DecidableEq, Repr

def initial : State := ⟨[],[],[]⟩

def State.isFinished (s : State) (handle : Handle) : Bool := decide (handle ∈ s.finished)

def State.markFinished (s : State) (handle : Handle) : State := { s with finished := handle :: s.finished }

def State.register (s : State) (runs : List Handle) (handle : Handle) : State :=
  { s with runs := runs ++ [handle], usedRunIds := pushThenDrop maxRememberedRunIds s.usedRunIds handle.runId }

def State.insertRun (s : State) (handle : Handle) : Except String Unit × State :=
  if s.runs.any (fun r => r.runId == handle.runId) then (.error "run_id already in use",s)
  else if s.usedRunIds.any (· == handle.runId) then (.error "run_id already used by an evicted run",s)
  else if maxRuns ≤ s.runs.length then
    match s.runs.findIdx? s.isFinished with
    | some pos => (.ok (),s.register (s.runs.eraseIdx pos) handle)
    | none => (.error "too many concurrent runs",s)
  else (.ok (),s.register s.runs handle)

inductive Event where
  | insertRun (handle : Handle)
  | markFinished (handle : Handle)
  deriving DecidableEq, Repr

def step (s : State) : Event → Option State
  | .insertRun handle => some (s.insertRun handle).2
  | .markFinished handle => some (s.markFinished handle)

abbrev History := List (Taken State Event)

/-- What the call answered. -/
def answer (t : Taken State Event) : Except String Unit :=
  match t.event with
  | .insertRun handle => (t.pre.insertRun handle).1
  | .markFinished _ => .ok ()

def inserted (t : Taken State Event) : Option Handle :=
  match t.event with
  | .insertRun handle => if (t.pre.insertRun handle).1 = .ok () then some handle else none
  | .markFinished _ => none

/-- The registry was full, and the step took out the oldest of its finished runs for a new one. -/
def Evicts (t : Taken State Event) (old : Handle) : Prop :=
  ∃ handle front back, inserted t = some handle ∧ t.pre.runs.length = maxRuns ∧
    t.pre.runs = front ++ old :: back ∧ t.post.runs = front ++ back ++ [handle] ∧
    (∀ r ∈ front, r ∉ t.pre.finished) ∧ old ∈ t.pre.finished

/-- Whatever `insert_run` does: refuse and change nothing, or register a handle with a new id. -/
theorem insertRun_cases (s : State) (handle : Handle) :
    (∃ message, s.insertRun handle = (.error message,s)) ∨
    ((∀ r ∈ s.runs, r.runId ≠ handle.runId) ∧ handle.runId ∉ s.usedRunIds ∧
      (s.runs.length < maxRuns ∧ s.insertRun handle = (.ok (),s.register s.runs handle) ∨
      ∃ front old back, maxRuns ≤ s.runs.length ∧ s.runs = front ++ old :: back ∧
        (∀ r ∈ front, r ∉ s.finished) ∧ old ∈ s.finished ∧
        s.insertRun handle = (.ok (),s.register (front ++ back) handle))) := by
  unfold State.insertRun
  split
  next => exact .inl ⟨_,rfl⟩
  next fresh =>
    split
    next => exact .inl ⟨_,rfl⟩
    next unused =>
      have distinct : ∀ r ∈ s.runs, r.runId ≠ handle.runId := by simpa using fresh
      have forgotten : handle.runId ∉ s.usedRunIds := by simpa using unused
      split
      next full =>
        split
        next pos found =>
          obtain ⟨low,done,none_⟩ := List.findIdx?_eq_some_iff_getElem.mp found
          refine .inr ⟨distinct,forgotten,.inr ⟨s.runs.take pos,s.runs[pos],s.runs.drop (pos + 1),full,?_,?_,?_,?_⟩⟩
          · simp
          · intro r early
            obtain ⟨i,low',rfl⟩ := List.mem_take_iff_getElem.mp early
            simpa [State.isFinished] using none_ i (by omega)
          · simpa [State.isFinished] using done
          · rw [List.eraseIdx_eq_take_drop_succ]
        next => exact .inl ⟨_,rfl⟩
      next room => exact .inr ⟨distinct,forgotten,.inl ⟨Nat.lt_of_not_le room,rfl⟩⟩

theorem step_error (enabled : step t.pre t.event = some t.post) (failed : answer t = .error message) :
    t.post = t.pre := by
  obtain ⟨pre,event,post⟩ := t
  cases event with
  | markFinished => simp [answer] at failed
  | insertRun handle =>
    obtain rfl : (pre.insertRun handle).2 = post := Option.some.inj enabled
    change (pre.insertRun handle).1 = _ at failed
    rcases insertRun_cases pre handle with ⟨_,eq⟩ | ⟨_,_,⟨_,eq⟩ | ⟨_,_,_,_,_,_,_,eq⟩⟩
    · change (pre.insertRun handle).2 = pre
      rw [eq]
    · simp [eq] at failed
    · simp [eq] at failed

inductive Effect (t : Taken State Event) : Prop where
  | unchanged (none_ : inserted t = none) (runs : t.post.runs = t.pre.runs) (used : t.post.usedRunIds = t.pre.usedRunIds)
  | registered (handle : Handle) (some_ : inserted t = some handle) (new : ∀ r ∈ t.pre.runs, r.runId ≠ handle.runId)
      (forgotten : handle.runId ∉ t.pre.usedRunIds)
      (used : t.post.usedRunIds = pushThenDrop maxRememberedRunIds t.pre.usedRunIds handle.runId)
      (runs : t.pre.runs.length < maxRuns ∧ t.post.runs = t.pre.runs ++ [handle] ∨
        ∃ front old back, maxRuns ≤ t.pre.runs.length ∧ t.pre.runs = front ++ old :: back ∧
          t.post.runs = front ++ back ++ [handle] ∧ (∀ r ∈ front, r ∉ t.pre.finished) ∧ old ∈ t.pre.finished)

theorem step_effect (enabled : step t.pre t.event = some t.post) : Effect t := by
  obtain ⟨pre,event,post⟩ := t
  cases event with
  | markFinished handle =>
    obtain rfl : pre.markFinished handle = post := Option.some.inj enabled
    exact .unchanged rfl rfl rfl
  | insertRun handle =>
    obtain rfl : (pre.insertRun handle).2 = post := Option.some.inj enabled
    rcases insertRun_cases pre handle with ⟨_,eq⟩ | ⟨new,forgotten,⟨room,eq⟩ | ⟨front,old,back,full,shape,live,done,eq⟩⟩
    · exact .unchanged (by simp [inserted,eq]) (by simp [eq]) (by simp [eq])
    · refine .registered handle (by simp [inserted,eq]) new forgotten ?_ (.inl ⟨room,?_⟩)
      · simp [eq,State.register]
      · simp [eq,State.register]
    · refine .registered handle (by simp [inserted,eq]) new forgotten ?_
        (.inr ⟨front,old,back,full,shape,?_,live,done⟩)
      · simp [eq,State.register]
      · simp [eq,State.register]

/-- The registry in the light of all runs that were ever inserted. -/
structure Books (past : History) (s : State) : Prop where
  bounded : s.runs.length ≤ maxRuns
  distinct : (s.runs.map Handle.runId).Nodup
  order : s.runs.Sublist (past.filterMap inserted)
  used : s.usedRunIds = ((past.filterMap inserted).map Handle.runId).rtake maxRememberedRunIds

theorem Books.snoc (books : Books past t.pre) (effect : Effect t) : Books (past ++ [t]) t.post := by
  cases effect with
  | unchanged none_ runs used =>
    constructor
    · rw [runs]
      exact books.bounded
    · rw [runs]
      exact books.distinct
    · simpa [none_,runs] using books.order
    · simpa [none_,used] using books.used
  | registered handle some_ new forgotten used runs =>
    have all : (past ++ [t]).filterMap inserted = past.filterMap inserted ++ [handle] := by simp [some_]
    have remembered : t.post.usedRunIds =
        (((past ++ [t]).filterMap inserted).map Handle.runId).rtake maxRememberedRunIds := by
      rw [used,books.used,pushThenDrop_rtake,all,List.map_append,List.map_singleton]
    have fresh : handle.runId ∉ t.pre.runs.map Handle.runId := by
      intro member
      obtain ⟨r,inside,same⟩ := List.mem_map.mp member
      exact new r inside same
    have small : ∀ kept : List Handle, kept.Sublist t.pre.runs → kept.length < maxRuns →
        t.post.runs = kept ++ [handle] → Books (past ++ [t]) t.post := by
      intro kept sub less eq
      constructor
      · rw [eq,List.length_append,List.length_singleton]
        omega
      · rw [eq,List.map_append,List.map_singleton,List.nodup_append]
        refine ⟨books.distinct.sublist (sub.map _),by simp,?_⟩
        intro id member own last same
        obtain rfl := List.mem_singleton.mp last
        exact fresh ((sub.map _).mem (same ▸ member))
      · rw [eq,all]
        exact (sub.trans books.order).append (List.Sublist.refl _)
      · exact remembered
    rcases runs with ⟨room,eq⟩ | ⟨front,old,back,_,shape,eq,_,_⟩
    · exact small t.pre.runs (List.Sublist.refl _) room eq
    · have sub : (front ++ back).Sublist t.pre.runs := by
        rw [shape]
        exact (List.Sublist.refl _).append (List.sublist_cons_self ..)
      refine small (front ++ back) sub ?_ eq
      have bound := books.bounded
      rw [shape,List.length_append,List.length_cons] at bound
      rw [List.length_append]
      omega

theorem run_books (run : Run step initial past s) : Books past s := by
  induction run with
  | nil => exact ⟨by decide,by simp [initial],by simp [initial],by simp [initial]⟩
  | snoc _ enabled ih => exact ih.snoc (step_effect enabled)

/-- A run leaves the registry in one way. -/
theorem Effect.evicts (effect : Effect t) (bounded : t.pre.runs.length ≤ maxRuns) (inside : r ∈ t.pre.runs)
    (gone : r ∉ t.post.runs) : Evicts t r := by
  cases effect with
  | unchanged _ runs _ => exact absurd (runs ▸ inside) gone
  | registered handle some_ _ _ _ runs =>
    rcases runs with ⟨_,eq⟩ | ⟨front,old,back,full,shape,eq,live,done⟩
    · exact absurd (by simp [eq,inside]) gone
    · have here : r = old := by
        rw [shape,List.mem_append,List.mem_cons] at inside
        rw [eq,List.mem_append,List.mem_append] at gone
        tauto
      subst here
      exact ⟨handle,front,back,some_,Nat.le_antisymm bounded full,shape,eq,live,done⟩

theorem Effect.inserted_mem (effect : Effect t) (done : inserted t = some handle) :
    handle ∈ t.post.runs ∧ handle.runId ∉ t.pre.usedRunIds ∧ ∀ r ∈ t.pre.runs, r.runId ≠ handle.runId := by
  cases effect with
  | unchanged none_ _ _ => simp [none_] at done
  | registered handle' some_ new forgotten _ runs =>
    obtain rfl : handle' = handle := Option.some.inj (some_.symm.trans done)
    refine ⟨?_,forgotten,new⟩
    rcases runs with ⟨_,eq⟩ | ⟨_,_,_,_,_,eq,_,_⟩ <;> simp [eq]

/-- An id that is not among the last ids of a list that has it was followed by that many others. -/
theorem others_between (ids later : List String) (id : String) (cap : Nat)
    (forgotten : id ∉ (ids ++ id :: later).rtake cap) : cap ≤ (later.filter (· ≠ id)).length := by
  have many : cap ≤ later.length := by
    by_contra few
    apply forgotten
    have tail : id :: later <:+ (ids ++ id :: later).rtake cap := by
      apply List.suffix_of_suffix_length_le (List.suffix_append ..) (rtake_suffix ..)
      rw [length_rtake,List.length_append,List.length_cons]
      omega
    exact tail.subset List.mem_cons_self
  rw [List.append_cons,rtake_append_of_le many] at forgotten
  calc cap = (later.rtake cap).length := by rw [length_rtake,Nat.min_eq_left many]
    _ = ((later.rtake cap).filter (· ≠ id)).length := by
      rw [List.filter_eq_self.mpr]
      intro other member
      have differs : other ≠ id := by
        rintro rfl
        exact forgotten member
      simpa using differs
    _ ≤ (later.filter (· ≠ id)).length := ((rtake_suffix ..).sublist.filter _).length_le

/-- The registry holds at most eight runs, under different ids and in the order of their
insertion; a run leaves it only as the oldest finished one of a full registry; a refused call
changes nothing; and an id is given out again only after the run that had it finished and was
evicted, and after 256 others. -/
theorem run_registry (past : History) (s : State) (run : Run step initial past s) :
    s.runs.length ≤ maxRuns ∧ (s.runs.map Handle.runId).Nodup ∧ s.runs.Sublist (past.filterMap inserted) ∧
    (∀ t ∈ past, ∀ r ∈ t.pre.runs, (r ∉ t.pre.finished → r ∈ t.post.runs) ∧ (r ∉ t.post.runs → Evicts t r)) ∧
    (∀ t ∈ past, ∀ message, answer t = .error message → t.post = t.pre) ∧
    ∀ before t between u after g h, past = before ++ t :: between ++ u :: after → inserted t = some g →
      inserted u = some h → g.runId = h.runId →
      maxRememberedRunIds ≤ ((between.filterMap inserted).filter fun other => other.runId ≠ g.runId).length ∧
      ∃ v ∈ between, Evicts v g := by
  have books := run_books run
  have leaves : ∀ t ∈ past, ∀ r ∈ t.pre.runs, r ∉ t.post.runs → Evicts t r := by
    intro t member r inside gone
    obtain ⟨_,front,enabled,_⟩ := run.upTo member
    exact (step_effect enabled).evicts (run_books front).bounded inside gone
  refine ⟨books.bounded,books.distinct,books.order,?_,?_,?_⟩
  · intro t member r inside
    refine ⟨fun live => ?_,leaves t member r inside⟩
    by_contra gone
    obtain ⟨_,_,_,_,_,_,_,_,done⟩ := leaves t member r inside gone
    exact live done
  · intro t member message failed
    exact step_error (run.enabled member) failed
  · rintro before t between u after g h rfl first second same
    have cut : Run step initial ((before ++ t :: between) ++ u :: after) s := run
    obtain ⟨reach,last,_⟩ := cut.split
    have effect := step_effect last
    obtain ⟨_,forgotten,new⟩ := effect.inserted_mem second
    obtain ⟨_,enabled,middle⟩ := reach.split
    obtain ⟨inside,_,_⟩ := (step_effect enabled).inserted_mem first
    constructor
    · -- the remembered ids are the last 256, and the id of `u` is not one of them
      rw [(run_books reach).used,← same] at forgotten
      simp only [List.filterMap_append,List.filterMap_cons,first,List.map_append,List.map_cons] at forgotten
      have others := others_between _ _ _ _ forgotten
      rwa [List.filter_map,List.length_map] at others
    · have gone : g ∉ u.pre.runs := fun member => new g member same
      obtain ⟨v,member,before_,after_⟩ := middle.gives_up (P := fun s => g ∈ s.runs) inside gone
      exact ⟨v,member,leaves v (by simp [member]) g before_ after_⟩

/-- Eight runs fill the registry and a ninth is refused; once the third is finished it makes
room for the ninth, and its id stays taken. -/
theorem run_registry_full : ∃ past s, Run step initial past s ∧ s.runs.length = maxRuns ∧
    past.map answer = List.replicate 8 (.ok ()) ++ [.error "too many concurrent runs",.ok (),.ok (),
      .error "run_id already used by an evicted run"] ∧
    (s.runs.map Handle.runId).Nodup := by
  let handle (n : Nat) : Handle := ⟨n,toString n⟩
  let events := (List.range 9).map (fun n => Event.insertRun (handle n)) ++
    [Event.markFinished (handle 2),Event.insertRun (handle 8),Event.insertRun (handle 2)]
  obtain ⟨past,s,run,full,answers⟩ := exists_run step initial events
    (fun past s => s.runs.length = maxRuns ∧ past.map answer = List.replicate 8 (Except.ok ()) ++
      [Except.error "too many concurrent runs",Except.ok (),Except.ok (),
        Except.error "run_id already used by an evicted run"]) (by decide +kernel)
  exact ⟨past,s,run,full,answers,(run_registry past s run).2.1⟩

end Malkuth.Mcp.Registry
