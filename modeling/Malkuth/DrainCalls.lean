import Malkuth.Server

/-! Drain calls on runs. A call that finds the drain bit set skips the approval gate and
still goes through `begin_drain`, which stores its own kind; a call that finds it clear
spends an approval for the worker it names, whichever run that worker belongs to. -/
namespace Malkuth.Mcp

open Malkuth.Lifecycle Malkuth.DrainAuth Transition

def Call.storesKind : Call → Bool
  | .drain _ (.storeKind _ _) => true
  | _ => false

/-- Where a call can be that began on a draining run: never at the gate, and with the
kind it was given. -/
def DrainPoint.Repeating (args : DrainArgs) : DrainPoint → Prop
  | .checkDraining kind | .storeKind kind _ => parseDrainKind args.kind = .ok kind
  | .validate .. => False
  | _ => True

/-- What is known of a drain call: it names the worker it validates, it has spent its
approval before it stores anything, or it found the bit set. -/
def DrainPoint.Gated (args : DrainArgs) (spent : Prop) (bit : Bool) : DrainPoint → Prop
  | .validate _ proposal worker => Server.drainTarget args = .ok (proposal,worker)
  | .storeKind _ false | .storeDraining _ false => spent
  | .storeKind _ true | .storeDraining _ true => bit = true
  | _ => True

/-- The worker the call names is one of the run's own. -/
def DrainArgs.namesWorker (specs : Specs) (args : DrainArgs) : Bool :=
  (specs args.runId).any fun spec => args.workerId.any fun id =>
    spec.workers.any fun cfg => cfg.spec.id == Text.trim id

namespace Server

/-- The call's own accesses leave the run's drain controller and the approvals alone. -/
def Untouching (after : List (Taken Server Event)) (call : Nat) (run : String) : Prop :=
  ∀ u ∈ after, u.event.movesCall call = true →
    (u.post.runs run).drain = (u.pre.runs run).drain ∧ u.post.registry = u.pre.registry

/-- When the call comes to store its kind, that kind is the one stored already. -/
def SameKind (after : List (Taken Server Event)) (call : Nat) (args : DrainArgs) : Prop :=
  ∀ u ∈ after, u.event.movesCall call = true → (u.pre.calls call).storesKind = true →
    (u.pre.runs args.runId).drain.kind = (parseDrainKind args.kind).toOption

theorem movesCall_eq (own : Event.movesCall call e = true) : ∃ r, e = .advance call r := by
  cases e <;> simp_all [Event.movesCall]

/-- A drain call's own access, as `drain_payload` makes it. -/
theorem step_drain (specs : Specs) (s s' : Server) (taken : step specs s (.advance call r) = some s')
    (here : s.calls call = .drain args point) :
    ∃ m point', drainAdvance (specs args.runId) s args r point = some (m,point') ∧
      s' = m.setCall call (.drain args point') := by
  simp only [step,advance,here] at taken
  obtain ⟨⟨m,point'⟩,moved,rfl⟩ := Option.map_eq_some_iff.mp taken
  exact ⟨m,point',moved,rfl⟩

/-- One access of a call on a draining run: nothing is spent, and the controller changes
exactly when another kind is stored. -/
theorem drainAdvance_repeating (spec : Option RunSpec) (s m : Server) (args : DrainArgs) (r : Readings)
    (point point' : DrainPoint) (bit : (s.runs args.runId).drain.draining = true)
    (repeating : point.Repeating args) (taken : drainAdvance spec s args r point = some (m,point')) :
    point'.Repeating args ∧ m.registry = s.registry ∧
    ((m.runs args.runId).drain = (s.runs args.runId).drain ↔
      (Call.storesKind (.drain args point) = true →
        (s.runs args.runId).drain.kind = (parseDrainKind args.kind).toOption)) := by
  cases point with
  | findRun =>
    simp only [drainAdvance] at taken
    split at taken
    · cases taken; simp [DrainPoint.Repeating,Call.storesKind]
    · split at taken
      · cases taken; simp [DrainPoint.Repeating,Call.storesKind]
      next parsed => cases taken; simpa [DrainPoint.Repeating,Call.storesKind] using parsed
  | checkDraining kind =>
    simp only [drainAdvance,bit,if_true] at taken
    cases taken
    simpa [DrainPoint.Repeating,Call.storesKind] using repeating
  | validate kind proposal worker => exact repeating.elim
  | storeKind kind already =>
    cases taken
    have parsed : parseDrainKind args.kind = .ok kind := repeating
    refine ⟨by split <;> trivial,rfl,?_⟩
    simp only [setRun_runs,Function.update_self,DrainController.storeKind,Call.storesKind,parsed,
      Except.toOption,forall_const]
    constructor
    · intro same
      rw [← same]
    · intro same
      rw [← same]
  | storeDraining kind already =>
    cases taken
    refine ⟨trivial,rfl,?_⟩
    simp [DrainController.storeDraining_eq_self _ bit,Call.storesKind]
  | setDeadline kind already =>
    cases taken
    refine ⟨?_,rfl,by simp [Call.storesKind]⟩
    split <;> trivial
  | waiting kind already deadline =>
    simp only [drainAdvance] at taken
    split at taken
    · cases taken; simp [DrainPoint.Repeating,Call.storesKind]
    · split at taken <;> cases taken <;> simp [DrainPoint.Repeating,Call.storesKind]
  | readFleet kind already timedOut =>
    obtain ⟨found,_,rest⟩ := Option.bind_eq_some_iff.mp taken
    cases rest
    simp [DrainPoint.Repeating,Call.storesKind]
  | readDraining kind already timedOut workers =>
    cases taken; simp [DrainPoint.Repeating,Call.storesKind]
  | readFinished kind already timedOut draining workers =>
    cases taken; simp [DrainPoint.Repeating,Call.storesKind]
  | answered answer => cases taken
  | panicked => cases taken

def Retries (s : Server) (call : Nat) (args : DrainArgs) : Prop :=
  (s.runs args.runId).drain.draining = true ∧
    ∃ point, s.calls call = .drain args point ∧ point.Repeating args

theorem step_retries (specs : Specs) (s s' : Server) (e : Event) (retries : Retries s call args)
    (taken : step specs s e = some s') : Retries s' call args := by
  obtain ⟨bit,point,here,repeating⟩ := retries
  refine ⟨step_bit specs s s' e args.runId taken bit,?_⟩
  cases step_callMoves specs s s' e call taken with
  | kept _ same => exact ⟨point,by rw [same,here],repeating⟩
  | restartBegun free | drainBegun free | restart free => simp [here] at free
  | @drain args' _ r m point' at_ =>
    obtain ⟨m',point'',moved,eq⟩ := step_drain specs s _ taken here
    rw [eq]
    exact ⟨point'',by simp,(drainAdvance_repeating _ s m' args r point point'' bit repeating moved).1⟩

theorem run_retries (specs : Specs) (exec : Run (step specs) m after s) (start : Retries m call args)
    (member : u ∈ after) : Retries u.pre call args :=
  (exec.always_taken start (fun s e s' => step_retries specs s s' e) member).1

theorem retry_untouching (specs : Specs) (u : Taken Server Event) (retries : Retries u.pre call args)
    (taken : step specs u.pre u.event = some u.post) (own : u.event.movesCall call = true) :
    (u.post.runs args.runId).drain = (u.pre.runs args.runId).drain ∧ u.post.registry = u.pre.registry ↔
    ((u.pre.calls call).storesKind = true →
      (u.pre.runs args.runId).drain.kind = (parseDrainKind args.kind).toOption) := by
  obtain ⟨bit,point,here,repeating⟩ := retries
  obtain ⟨r,advance⟩ := movesCall_eq own
  rw [advance] at taken
  obtain ⟨m,point',moved,eq⟩ := step_drain specs u.pre u.post taken here
  obtain ⟨_,registry,drain⟩ := drainAdvance_repeating _ u.pre m args r point point' bit repeating moved
  rw [eq,here]
  simp only [setCall_runs,setCall_registry,registry,and_true]
  exact drain

/-- A drain call on a run that is draining already does nothing to the run's controller and
to the approvals, if and only if the kind it asks for is the kind stored. -/
theorem repeated_drain_iff (specs : Specs) (now : Nat) (past : List (Taken Server Event)) (s : Server)
    (exec : Run (step specs) (initial now) past s) (before after : List (Taken Server Event))
    (t : Taken Server Event) (cut : past = before ++ t :: after) (call : Nat) (args : DrainArgs)
    (begun : t.event = .drain call args) (bit : (t.pre.runs args.runId).drain.draining = true) :
    Untouching after call args.runId ↔ SameKind after call args := by
  subst cut
  obtain ⟨_,taken,rest⟩ := exec.split
  have start : Retries t.post call args := by
    rw [begun] at taken
    obtain ⟨_,eq⟩ := begin_eq_some t.pre taken
    rw [eq]
    exact ⟨by simpa using bit,.findRun,by simp,trivial⟩
  have each : ∀ u ∈ after, u.event.movesCall call = true → _ := fun u member own =>
    retry_untouching specs u (run_retries specs rest start member) (rest.enabled member) own
  constructor
  · intro untouching u member own
    exact (each u member own).mp (untouching u member own)
  · intro same u member own
    exact (each u member own).mpr (same u member own)

instance (after : List (Taken Server Event)) (call : Nat) (args : DrainArgs) :
    Decidable (SameKind after call args) :=
  inferInstanceAs (Decidable (∀ u ∈ after, u.event.movesCall call = true →
    (u.pre.calls call).storesKind = true →
      (u.pre.runs args.runId).drain.kind = (parseDrainKind args.kind).toOption))

def gracefulDrain : List Event :=
  List.flatten [[.approve ⟨"p1","api",none⟩ (.at 0),
    .drain 0 ⟨"run-1",none,some 0,some "p1",some "api"⟩],advances 0 5]

/-- The same drain asked for again, without an approval. -/
theorem repeated_drain_graceful : ∃ before t after s, Run (step twins) (initial 0) (before ++ t :: after) s ∧
    (t.pre.runs "run-1").drain.draining = true ∧
    (after.countP fun u => u.event.movesCall 1) = 7 ∧ Untouching after 1 "run-1" := by
  obtain ⟨before,t,after,s,exec,begun,bit,count,same⟩ := exists_run_cut (step twins) (initial 0)
    gracefulDrain (.drain 1 ⟨"run-1",some "Graceful",some 0,none,none⟩) (advances 1 7)
    (fun _ t after _ => (t.pre.runs "run-1").drain.draining = true ∧
      (after.countP fun u => u.event.movesCall 1) = 7 ∧
      SameKind after 1 ⟨"run-1",some "Graceful",some 0,none,none⟩) (by decide +kernel)
  exact ⟨before,t,after,s,exec,bit,count,
    (repeated_drain_iff twins 0 _ s exec before after t rfl 1 _ begun bit).mpr same⟩

/-- Nobody approved the immediate drain that the graceful one is turned into. -/
theorem repeated_drain_escalates : ¬ ∀ specs now past s, Run (step specs) (initial now) past s →
    ∀ before t after, past = before ++ t :: after → ∀ call args, t.event = .drain call args →
      (t.pre.runs args.runId).drain.draining = true → Untouching after call args.runId := by
  intro harmless
  obtain ⟨before,t,after,s,exec,begun,bit,u,found,own,stored⟩ := exists_run_cut (step twins) (initial 0)
    gracefulDrain (.drain 1 ⟨"run-1",some "immediate",some 0,none,none⟩) (advances 1 3)
    (fun _ t after _ => (t.pre.runs "run-1").drain.draining = true ∧
      ∃ u ∈ after, u.event.movesCall 1 = true ∧
        (u.pre.runs "run-1").drain = ⟨true,some .graceful⟩ ∧
        (u.post.runs "run-1").drain = ⟨true,some .immediate⟩) (by decide +kernel)
  have kept := (harmless twins 0 _ s exec before t after rfl 1 _ begun bit u found own).1
  rw [stored.1,stored.2] at kept
  cases kept

/-- The call's step that sets the drain bit of its run. -/
def SetsBit (t : Taken Server Event) (call : Nat) (args : DrainArgs) : Prop :=
  t.event.movesCall call = true ∧ (∃ point, t.pre.calls call = .drain args point) ∧
    (t.pre.runs args.runId).drain.draining = false ∧ (t.post.runs args.runId).drain.draining = true

def Spends (t : Taken Server Event) (call : Nat) (args : DrainArgs) (proposal worker : String) : Prop :=
  ∃ kind r front e back, t.event = .advance call r ∧
    t.pre.calls call = .drain args (.validate kind proposal worker) ∧
    t.pre.registry = front ++ e :: back ∧ e.Spendable Limits.global proposal worker (r.wall 0) ∧
    t.post.registry = front ++ { e with consumedAt := some (r.wall 1) } :: back

def Spent (past : List (Taken Server Event)) (call : Nat) (args : DrainArgs) : Prop :=
  ∃ t ∈ past, ∃ proposal worker, drainTarget args = .ok (proposal,worker) ∧
    Spends t call args proposal worker

/-- Whoever sets a run's drain bit has spent an approval of one of the run's workers. -/
def TargetBound (specs : Specs) (past : List (Taken Server Event)) : Prop :=
  ∀ before t after, past = before ++ t :: after → ∀ call args, SetsBit t call args →
    ∃ u ∈ before, ∃ proposal worker spec, Spends u call args proposal worker ∧
      specs args.runId = some spec ∧ ∃ cfg ∈ spec.workers, cfg.spec.id = worker

theorem drainTarget_ok (args : DrainArgs) (ok : drainTarget args = .ok (proposal,worker)) :
    ∃ id, args.workerId = some id ∧ Text.trim id = worker := by
  unfold drainTarget at ok
  split at ok
  · contradiction
  · cases given : args.workerId with
    | none => simp [given] at ok
    | some id =>
      simp only [given,Option.map_some] at ok
      split at ok
      · exact ⟨id,rfl,by simpa using (Prod.mk.inj (Except.ok.inj ok)).2⟩
      · contradiction

theorem namesWorker_iff (specs : Specs) (args : DrainArgs) (target : drainTarget args = .ok (proposal,worker)) :
    args.namesWorker specs = true ↔
      ∃ spec, specs args.runId = some spec ∧ ∃ cfg ∈ spec.workers, cfg.spec.id = worker := by
  obtain ⟨id,given,rfl⟩ := drainTarget_ok args target
  simp [DrainArgs.namesWorker,given,Option.any_eq_true]

/-- A validated drain request has spent the newest approval of its pair. -/
theorem validate_spends (lim : Limits) (entries : List ApprovalEntry) (w p : String) (now stamp : Int)
    (ok : (validateDrainRequest lim entries w p none now stamp).1 = .ok ()) :
    ∃ front e back, entries = front ++ e :: back ∧ e.Spendable lim p w now ∧
      (validateDrainRequest lim entries w p none now stamp).2 =
        front ++ { e with consumedAt := some stamp } :: back := by
  unfold validateDrainRequest at ok ⊢
  split at ok
  · contradiction
  next named =>
    obtain ⟨front,e,back,eq,_,spendable,result⟩ := consume_ok lim entries p w now stamp ok
    exact ⟨front,e,back,eq,spendable,by simpa [named] using result⟩

/-- One access of a drain call keeps what is known of it. -/
theorem drainAdvance_gated (spec : Option RunSpec) (s m : Server) (args : DrainArgs) (r : Readings)
    (point point' : DrainPoint) (gated : point.Gated args spent (s.runs args.runId).drain.draining)
    (taken : drainAdvance spec s args r point = some (m,point'))
    (spends : ∀ kind proposal worker, point = .validate kind proposal worker →
      (validateDrainRequest Limits.global s.registry worker proposal none (r.wall 0) (r.wall 1)).1 = .ok () →
      m.registry = (validateDrainRequest Limits.global s.registry worker proposal none
        (r.wall 0) (r.wall 1)).2 → spent) :
    point'.Gated args spent (m.runs args.runId).drain.draining := by
  cases point with
  | findRun =>
    simp only [drainAdvance] at taken
    split at taken
    · cases taken; trivial
    · split at taken <;> cases taken <;> trivial
  | checkDraining kind =>
    simp only [drainAdvance] at taken
    split at taken
    next bit => cases taken; exact bit
    · split at taken
      · cases taken; trivial
      next target => cases taken; exact target
  | validate kind proposal worker =>
    simp only [drainAdvance] at taken
    split at taken
    next ok => cases taken; exact spends kind proposal worker rfl ok rfl
    · cases taken; trivial
  | storeKind kind already =>
    cases taken
    split
    · cases already with
      | false => exact gated
      | true => simpa [DrainPoint.Gated,DrainController.storeKind] using gated
    · trivial
  | storeDraining kind already => cases taken; trivial
  | setDeadline kind already => cases taken; split <;> trivial
  | waiting kind already deadline =>
    simp only [drainAdvance] at taken
    split at taken
    · cases taken; trivial
    · split at taken <;> cases taken <;> trivial
  | readFleet kind already timedOut =>
    obtain ⟨found,_,rest⟩ := Option.bind_eq_some_iff.mp taken
    cases rest
    trivial
  | readDraining kind already timedOut workers => cases taken; trivial
  | readFinished kind already timedOut draining workers => cases taken; trivial
  | answered answer => cases taken
  | panicked => cases taken

theorem Gated.mono (point : DrainPoint) (gated : point.Gated args spent bit) (more : spent → spent')
    (keeps : bit = true → bit' = true) : point.Gated args spent' bit' := by
  cases point with
  | validate => exact gated
  | storeKind kind already | storeDraining kind already =>
    cases already with
    | false => exact more gated
    | true => exact keeps gated
  | _ => trivial

theorem Spent.snoc (spent : Spent past call args) : Spent (past ++ [t]) call args := by
  obtain ⟨u,member,spends⟩ := spent
  exact ⟨u,List.mem_append_left _ member,spends⟩

theorem run_gated (specs : Specs) (exec : Run (step specs) (initial start) past s)
    (here : s.calls call = .drain args point) :
    point.Gated args (Spent past call args) (s.runs args.runId).drain.draining := by
  induction exec generalizing args point with
  | nil => simp [initial] at here
  | @snoc past m e m' _ taken ih =>
    have keeps := step_bit specs m m' e args.runId taken
    cases step_callMoves specs m m' e call taken with
    | kept _ same => exact Gated.mono point (ih (same ▸ here)) Spent.snoc keeps
    | restartBegun | restart => simp at here
    | drainBegun =>
      obtain ⟨rfl,rfl⟩ : _ = args ∧ _ = point := by simpa using here
      trivial
    | @drain args' point' r _ _ at_ =>
      obtain ⟨n,next,moved,eq⟩ := step_drain specs m _ taken at_
      rw [eq] at here ⊢
      obtain ⟨rfl,rfl⟩ : args' = args ∧ next = point := by simpa using here
      have before := Gated.mono point' (ih at_) (Spent.snoc (t := ⟨m,.advance call r,n.setCall call (.drain args' next)⟩)) id
      apply drainAdvance_gated _ m n args' r point' next before moved
      rintro kind proposal worker rfl ok registry
      obtain ⟨front,e,back,entries,spendable,result⟩ := validate_spends _ _ _ _ _ _ ok
      refine ⟨_,List.mem_append_right _ (List.mem_singleton_self _),proposal,worker,ih at_,?_⟩
      exact ⟨kind,r,front,e,back,rfl,at_,entries,spendable,registry.trans result⟩

/-- The step that sets the bit comes from a call that has spent its approval. -/
theorem setsBit_spent (specs : Specs) (exec : Run (step specs) (initial start) before t.pre)
    (taken : step specs t.pre t.event = some t.post) (sets : SetsBit t call args) :
    Spent before call args := by
  obtain ⟨own,⟨point,here⟩,clear,set⟩ := sets
  obtain ⟨r,advance⟩ := movesCall_eq own
  rw [advance] at taken
  obtain ⟨m,point',moved,eq⟩ := step_drain specs t.pre t.post taken here
  have gated := run_gated specs exec here
  rw [eq] at set
  cases drainAdvance_moves _ t.pre m args r point point' moved with
  | read | spent | unspent => simp [clear] at set
  | kindStored => simp [DrainController.storeKind,clear] at set
  | @drainStored kind already =>
    cases already with
    | false => exact gated
    | true => simp [DrainPoint.Gated,clear] at gated

theorem TargetBound.names (bound : TargetBound specs past) (exec : Run (step specs) (initial start) past s)
    (member : t ∈ past) (sets : SetsBit t call args) : args.namesWorker specs = true := by
  obtain ⟨before,after,rfl⟩ := List.append_of_mem member
  obtain ⟨u,earlier,proposal,worker,spec,spends,found,own⟩ := bound before t after rfl call args sets
  obtain ⟨kind,r,front,e,back,_,here,_⟩ := spends
  obtain ⟨first,last,rfl⟩ := List.append_of_mem earlier
  have target := run_gated specs exec.split.1.split.1 here
  exact (namesWorker_iff specs args target).mpr ⟨spec,found,own⟩

/-- Drains are bound to their targets in a history if and only if every call that sets a
drain bit names one of the workers of the run it drains. -/
theorem target_bound_iff (specs : Specs) (now : Nat) (past : List (Taken Server Event)) (s : Server)
    (exec : Run (step specs) (initial now) past s) :
    TargetBound specs past ↔
      ∀ t ∈ past, ∀ call args, SetsBit t call args → args.namesWorker specs = true := by
  constructor
  · intro bound t member call args sets
    exact bound.names exec member sets
  · intro named before t after cut call args sets
    subst cut
    obtain ⟨front,taken,_⟩ := exec.split
    obtain ⟨u,earlier,proposal,worker,target,spends⟩ := setsBit_spent specs front taken sets
    obtain ⟨spec,found,own⟩ := (namesWorker_iff specs args target).mp (named t (by simp) call args sets)
    exact ⟨u,earlier,proposal,worker,spec,spends,found,own⟩

def drainer (t : Taken Server Event) : Option DrainArgs :=
  match t.event with
  | .advance call _ =>
    match t.pre.calls call with
    | .drain args _ => some args
    | _ => none
  | _ => none

theorem SetsBit.drainer (sets : SetsBit t call args) : drainer t = some args := by
  obtain ⟨own,⟨point,here⟩,_⟩ := sets
  obtain ⟨r,advance⟩ := movesCall_eq own
  simp [Server.drainer,advance,here]

theorem target_bound_drain : ∃ past s, Run (step twins) (initial 0) past s ∧
    (s.runs "run-1").drain.draining = true ∧ TargetBound twins past := by
  obtain ⟨past,s,exec,bit,named⟩ := exists_run (step twins) (initial 0) gracefulDrain
    (fun past s => (s.runs "run-1").drain.draining = true ∧
      ∀ t ∈ past, ∀ args ∈ drainer t, args.namesWorker twins = true) (by decide +kernel)
  refine ⟨past,s,exec,bit,(target_bound_iff twins 0 past s exec).mpr ?_⟩
  intro t member call args sets
  exact named t member args sets.drainer

/-- An approval for a worker that no run has drains the first run. -/
theorem drained_by_stranger : ¬ ∀ specs now past s, Run (step specs) (initial now) past s →
    TargetBound specs past := by
  intro bound
  obtain ⟨before,t,after,s,exec,advance,here,clear,set⟩ := exists_run_cut (step twins) (initial 0)
    (List.flatten [[.approve ⟨"p1","elsewhere",none⟩ (.at 0),
      .drain 0 ⟨"run-1",none,some 0,some "p1",some "elsewhere"⟩],advances 0 4]) (.advance 0 (.at 0)) []
    (fun _ t _ _ => drainer t = some ⟨"run-1",none,some 0,some "p1",some "elsewhere"⟩ ∧
      (t.pre.runs "run-1").drain.draining = false ∧
      (t.post.runs "run-1").drain.draining = true) (by decide +kernel)
  have sets : SetsBit t 0 ⟨"run-1",none,some 0,some "p1",some "elsewhere"⟩ := by
    refine ⟨by simp [advance,Event.movesCall],?_,clear,set⟩
    simp only [Server.drainer,advance] at here
    split at here
    next args point call => exact ⟨point,by rw [call,Option.some.inj here]⟩
    · contradiction
  have named := (bound twins 0 _ s exec).names exec (by simp) sets
  exact absurd named (by decide)

end Server

end Malkuth.Mcp
