import Malkuth.LifecycleRpc

/-! What `Lifecycle.Status` says, in any interleaving of the handlers: without a probe it is a
register of the drain bit, and with one a snapshot of the probe. -/
namespace Malkuth.LifecycleRpc

open Transition Lifecycle Json JsonRpc ServeConn

variable {Error : Type} (serde : Serde Error)

section Plain

def Answers (t : Taken Server Event) (j : Nat) (req : Request) (outcome : Outcome) : Prop :=
  (t.event = .write j ∨ t.event = .writeFails j) ∧ t.pre.current j = some req ∧ t.pre.points j = .done outcome

variable {cfg : Config}

/-- A drain begins: the handler of a `Lifecycle.Drain` stores the kind, or the host does. -/
def Begins (cfg : Config) (t : Taken Server Event) : Prop :=
  (∃ i input req, t.event = .work i input ∧ t.pre.current i = some req ∧ cfg.router req.method = some .drain) ∨
    ∃ j kind, t.event = .beginDrain j kind ∧ kind.causesDrain = true

/-- Somebody is told of the drain. -/
def Tells (cfg : Config) (t : Taken Server Event) : Prop :=
  ∃ i req outcome, Answers t i req outcome ∧ (cfg.router req.method = some .drain ∨
    cfg.router req.method = some .status ∧ outcome = .ok (plainStatus true).toValue)

/-- What the answers say of the bit. -/
def Due (cfg : Config) (bit : Bool) (req : Request) (outcome : Outcome) : Prop :=
  (cfg.router req.method = some .drain → bit = true) ∧
    (cfg.router req.method = some .status → ∃ draining, outcome = .ok (plainStatus draining).toValue ∧
      (draining = true → bit = true))

theorem Due.mono (b b' : Bool) (req : Request) (outcome : Outcome) (bit : b = true → b' = true) (due : Due cfg b req outcome) :
    Due cfg b' req outcome :=
  ⟨fun routed => bit (due.1 routed),fun routed =>
    let ⟨draining,same,read⟩ := due.2 routed
    ⟨draining,same,fun here => bit (read here)⟩⟩

theorem Works.reports (works : Works cfg s j req s') (plain : cfg.probed = false) (done : s'.points j = .done outcome)
    (unread : (s.points j).reads = false) (routed : cfg.router req.method = some .status) :
    outcome = .ok (plainStatus s.ctrl.draining).toValue := by
  cases works with
  | plain => simpa using done.symm
  | stateRead _ probed => simp [plain] at probed
  | generationRead _ here | checked _ here => simp [here,Point.reads] at unread
  | kindStored other | bitStored other | reloaded other => simp [routed] at other
  | other _ noStatus => exact absurd routed noStatus

theorem Works.due (works : Works cfg s j req s') (plain : cfg.probed = false) (done : s'.points j = .done outcome)
    (unread : (s.points j).reads = false) : Due cfg s'.ctrl.draining req outcome := by
  constructor
  · intro routed
    cases works with
    | kindStored => simp at done
    | bitStored => rfl
    | reloaded other | plain other | stateRead other | generationRead other | checked other => simp [routed] at other
    | other noDrain => exact absurd routed noDrain
  · intro routed
    refine ⟨s.ctrl.draining,works.reports plain done unread routed,fun bit => ?_⟩
    cases works <;> first | exact bit | rfl

/-- Without a probe, at any time: no handler is in the middle of a probe, and what the answers
say of the bit is so. -/
structure Truthful (cfg : Config) (s : Server) (j : Nat) : Prop where
  unread : (s.points j).reads = false
  answered : Answered (Due cfg) s j

theorem Steps.truthful (steps : Steps cfg s e s') (plain : cfg.probed = false) (kept : e ≠ .clearDraining)
    (before : Truthful cfg s j) : Truthful cfg s' j where
  unread := steps.unread plain before.unread
  answered := steps.answered kept Due.mono (fun _ _ works done => works.due plain done before.unread) before.answered

theorem run_truthful (run : Run (step serde cfg) .initial whole s) (plain : cfg.probed = false)
    (kept : ∀ w ∈ whole, w.event ≠ .clearDraining) (j : Nat) : Truthful cfg s j :=
  run.invariant (P := fun s => Truthful cfg s j) (C := fun _ e => e ≠ .clearDraining)
    ⟨rfl,fun _ _ current => by simp [Server.current,Server.initial,Conn.new] at current⟩
    (fun s e s' before kept taken => (step_steps serde cfg s s' e taken).truthful plain kept before) kept

/-- The bit and what is on the way to it come from a drain that was begun. -/
def Caused (cfg : Config) (past : List (Taken Server Event)) (s : Server) : Prop :=
  (s.ctrl.draining = true ∨ (∃ i, s.points i = .kindStored) ∨ ∃ j, s.begun j = true) → ∃ w ∈ past, Begins cfg w

theorem Steps.caused (steps : Steps cfg s e s')
    (now : s'.ctrl.draining = true ∨ (∃ i, s'.points i = .kindStored) ∨ ∃ j, s'.begun j = true) :
    (s.ctrl.draining = true ∨ (∃ i, s.points i = .kindStored) ∨ ∃ j, s.begun j = true) ∨ Begins cfg ⟨s,e,s'⟩ := by
  rcases now with bit | ⟨i,stored⟩ | ⟨j,begun⟩
  · cases steps with
    | work i _ _ works =>
      cases works with
      | bitStored _ here => exact .inl (.inr (.inl ⟨i,here⟩))
      | _ => exact .inl (.inl bit)
    | settled begun => exact .inl (.inr (.inr ⟨_,begun⟩))
    | clearedBit => contradiction
    | _ => exact .inl (.inl bit)
  · rcases steps.local i with ⟨_,point⟩ | ⟨_,start⟩ | ⟨req,input,work,current,works⟩
    · exact .inl (.inr (.inl ⟨i,point ▸ stored⟩))
    · simp [start] at stored
    · cases works with
      | kindStored routed => exact .inr (.inl ⟨i,input,req,work,current,routed⟩)
      | _ => simp at stored
  · cases steps with
    | work _ _ _ works => cases works <;> exact .inl (.inr (.inr ⟨j,begun⟩))
    | begun free =>
      rcases update_cases (· = true) begun with ⟨rfl,drains⟩ | ⟨_,before⟩
      · exact .inr (.inr ⟨_,_,rfl,drains⟩)
      · exact .inl (.inr (.inr ⟨j,before⟩))
    | settled =>
      rcases update_cases (· = true) begun with ⟨_,cleared⟩ | ⟨_,before⟩
      · contradiction
      · exact .inl (.inr (.inr ⟨j,before⟩))
    | _ => exact .inl (.inr (.inr ⟨j,begun⟩))

theorem run_caused (run : Run (step serde cfg) .initial past s) : Caused cfg past s := by
  induction run with
  | nil => simp [Caused,Server.initial,DrainController.new]
  | @snoc past s e s' _ taken ih =>
    intro now
    rcases (step_steps serde cfg s s' e taken).caused now with before | begins
    · obtain ⟨w,member,begins⟩ := ih before
      exact ⟨w,List.mem_append_left _ member,begins⟩
    · exact ⟨_,List.mem_append_right _ (List.mem_singleton_self _),begins⟩

theorem plainStatus_inj (same : (plainStatus draining).toValue = (plainStatus draining').toValue) : draining = draining' := by
  simpa [plainStatus,ReadyStatus.toValue,skipNone] using same

/-- From the moment that a frame is taken after somebody was told: the answers tell it too. -/
structure Telling (cfg : Config) (s : Server) (j : Nat) : Prop where
  bit : s.ctrl.draining = true
  unread : (s.points j).reads = false
  answered : Answered (fun _ req outcome => cfg.router req.method = some .status →
    outcome = .ok (plainStatus true).toValue) s j

theorem Steps.telling (steps : Steps cfg s e s') (plain : cfg.probed = false) (kept : e ≠ .clearDraining)
    (before : Telling cfg s j) : Telling cfg s' j where
  bit := steps.bit_kept kept before.bit
  unread := steps.unread plain before.unread
  answered := by
    refine steps.answered kept (fun _ _ _ _ _ told => told) ?_ before.answered
    intro req outcome works done routed
    rw [works.reports plain done before.unread routed,before.bit]

theorem Steps.framed (steps : Steps cfg s (.frame j) s') : s'.points j = .start := by
  cases steps with
  | quiet _ _ _ other => exact absurd rfl (other j)
  | frame => exact points_setPoint_self ..

/-- The handler of a status reads the bit. -/
def Takes (cfg : Config) (t : Taken Server Event) (j : Nat) (req : Request) : Prop :=
  ∃ input, t.event = .work j input ∧ t.pre.current j = some req ∧ cfg.router req.method = some .status

/-- The status that a connection has at hand is the bit as it was when it was taken. -/
def ReadOff (cfg : Config) (past : List (Taken Server Event)) (s : Server) (j : Nat) : Prop :=
  ∀ req outcome, s.current j = some req → s.points j = .done outcome → cfg.router req.method = some .status →
    ∃ before r after, past = before ++ r :: after ∧ Takes cfg r j req ∧ (∀ w ∈ after, w.event ≠ .frame j) ∧
      outcome = .ok (plainStatus r.pre.ctrl.draining).toValue

theorem Steps.readOff (steps : Steps cfg s e s') (plain : cfg.probed = false) (unread : (s.points j).reads = false)
    (before : ReadOff cfg past s j) : ReadOff cfg (past ++ [⟨s,e,s'⟩]) s' j := by
  intro req outcome current done routed
  rcases steps.local j with ⟨gone | same,point⟩ | ⟨_,start⟩ | ⟨req',input,worked,current',works⟩
  · simp [gone] at current
  · obtain ⟨front,r,after,rfl,takes,later,read⟩ := before req outcome (same ▸ current) (point ▸ done) routed
    refine ⟨front,r,after ++ [⟨s,e,s'⟩],by simp,takes,?_,read⟩
    refine List.forall_mem_append.mpr ⟨later,List.forall_mem_singleton.mpr ?_⟩
    rintro rfl
    simp [steps.framed] at done
  · simp [start] at done
  · have same : s'.current j = s.current j := by cases works <;> rfl
    obtain rfl := Option.some.inj ((same ▸ current).symm.trans current')
    exact ⟨past,_,[],rfl,⟨input,worked,current',routed⟩,by simp,works.reports plain done unread routed⟩

theorem run_readOff (run : Run (step serde cfg) .initial past s) (plain : cfg.probed = false) (j : Nat) :
    (s.points j).reads = false ∧ ReadOff cfg past s j := by
  induction run with
  | nil => exact ⟨rfl,fun _ _ current => by simp [Server.current,Server.initial,Conn.new] at current⟩
  | @snoc past s e s' _ taken ih =>
    have steps := step_steps serde cfg s s' e taken
    exact ⟨steps.unread plain ih.1,steps.readOff plain ih.1 ih.2⟩

/-- A register: a `Lifecycle.Status` that is answered without a probe is the bit at the moment its
handler took it, and tells of a drain only if one was begun before that; and where nobody clears
the bit, once any connection has been told, every status of any connection that comes in afterwards
tells it, however the handlers interleave. -/
theorem status_tells_drain (plain : cfg.probed = false) (run : Run (step serde cfg) .initial whole s) :
    (∀ front u back j req outcome, whole = front ++ u :: back → Answers u j req outcome →
      cfg.router req.method = some .status → ∃ before r after, front = before ++ r :: after ∧ Takes cfg r j req ∧
        (∀ w ∈ after, w.event ≠ .frame j) ∧ outcome = .ok (plainStatus r.pre.ctrl.draining).toValue ∧
        (r.pre.ctrl.draining = true → ∃ w ∈ before, Begins cfg w)) ∧
    ((∀ w ∈ whole, w.event ≠ .clearDraining) →
      ∀ front t middle v back j, whole = front ++ t :: (middle ++ v :: back) → Tells cfg t → v.event = .frame j →
        ∀ u ∈ back, ∀ req outcome, Answers u j req outcome → cfg.router req.method = some .status →
          outcome = .ok (plainStatus true).toValue) := by
  constructor
  · rintro front u back j req outcome rfl ⟨_,current,done⟩ routed
    have answering := run.split.1
    obtain ⟨before,r,after,rfl,takes,later,read⟩ := (run_readOff serde answering plain j).2 req outcome current done routed
    exact ⟨before,r,after,rfl,takes,later,read,fun bit => run_caused serde answering.split.1 (.inl bit)⟩
  · rintro kept front t middle v back j rfl ⟨i,req,outcome,⟨_,current,done⟩,told⟩ framed u later req' outcome' ⟨_,current',done'⟩ routed
    obtain ⟨before,took,after⟩ := run.split
    have truthful := fun k => run_truthful serde before plain (fun w member => kept w (List.mem_append_left _ member)) k
    have bit : t.pre.ctrl.draining = true := by
      have due := (truthful i).answered req outcome current done
      rcases told with drained | ⟨status,same⟩
      · exact due.1 drained
      · obtain ⟨draining,same',read⟩ := due.2 status
        exact read (plainStatus_inj (Except.ok.inj (same'.symm.trans same)))
    obtain ⟨between,framing,rest⟩ := after.split
    rw [framed] at framing
    have steps := step_steps serde cfg _ _ _ framing
    have start := steps.framed
    have never := fun w (member : w ∈ t :: (middle ++ v :: back)) => kept w (List.mem_append_right _ member)
    have bit := (step_steps serde cfg _ _ _ took).bit_kept (never t (by simp)) bit
    have bit := between.invariant (P := fun s => s.ctrl.draining = true) (C := fun _ e => e ≠ .clearDraining) bit
      (fun s e s' before kept taken => (step_steps serde cfg s s' e taken).bit_kept kept before)
      fun w member => never w (by simp [member])
    have telling : Telling cfg v.post j :=
      ⟨steps.bit_kept (by simp) bit,by rw [start]; rfl,fun _ _ _ done => by simp [start] at done⟩
    obtain ⟨part,reached,_,within⟩ := rest.upTo later
    have told := reached.invariant (P := fun s => Telling cfg s j) (C := fun _ e => e ≠ .clearDraining) telling
      (fun s e s' before kept taken => (step_steps serde cfg s s' e taken).telling plain kept before)
      fun w member => never w (by simp [within w (List.mem_append_left _ member)])
    exact told.answered req' outcome' current' done' routed

/-- The drain of one client is in the status of another, which was taken after it had begun. -/
theorem status_tells_drain_called : ∃ past s, Run (step (tableSerde lifecycleCalls) (lifecycleConfig false)) .initial past s ∧
    (s.conns 1).answered = [(statusCall,.ok (plainStatus true).toValue)] ∧
    ∃ before r after, past = before ++ r :: after ∧ Takes (lifecycleConfig false) r 1 statusCall ∧
      r.pre.ctrl.draining = true ∧ ∃ w ∈ before, Begins (lifecycleConfig false) w := by
  obtain ⟨front,u,back,s,run,write,current,done,answered⟩ := exists_run_cut (step (tableSerde lifecycleCalls) (lifecycleConfig false))
    .initial ((drainThenStatus quietInput 1).take 8) (.write 1) []
    (fun _ u _ s => u.pre.current 1 = some statusCall ∧ u.pre.points 1 = .done (.ok (plainStatus true).toValue) ∧
      (s.conns 1).answered = [(statusCall,.ok (plainStatus true).toValue)])
    (by decide +kernel)
  obtain ⟨before,r,after,rfl,takes,_,read,began⟩ :=
    (status_tells_drain _ rfl run).1 front u back 1 statusCall _ rfl ⟨.inl write,current,done⟩ rfl
  have bit : r.pre.ctrl.draining = true := (plainStatus_inj (Except.ok.inj read)).symm
  exact ⟨_,s,run,answered,before,r,after ++ u :: back,by simp,takes,bit,began bit⟩

end Plain

section Probed

variable {cfg : Config}

def lockPoisoned : ReadyStatus := ⟨false,true,[⟨"internal_lock",false,some "registry mutex poisoned"⟩],none⟩

/-- A status that is put together from what the probe held at some of these moments. -/
def Snapshot (held : (Probe → Prop) → Prop) (status : ReadyStatus) : Prop :=
  (status = lockPoisoned ∧ held fun p => p.poisoned = true) ∨
    ((held fun p => status.draining = p.drainState.isDraining) ∧ (held fun p => status.generation = p.generation) ∧
      (held fun p => status.dependencies.map DependencyCheck.name = p.deps) ∧
      (status.ready = true ↔ status.draining = false ∧ ∀ d ∈ status.dependencies, d.ok = true))

def Point.Seen (held : (Probe → Prop) → Prop) (answer : Outcome → Prop) : Point → Prop
  | .stateRead state => held fun p => p.drainState = state
  | .generationRead state generation => (held fun p => p.drainState = state) ∧ held fun p => p.generation = generation
  | .done outcome => answer outcome
  | _ => True

def Since (past : List (Taken Server Event)) (P : Probe → Prop) : Prop := ∃ w ∈ past, P w.post.probe

theorem Since.later (since : Since past P) (t : Taken Server Event) : Since (past ++ [t]) P := by
  obtain ⟨w,member,held⟩ := since
  exact ⟨w,List.mem_append_left _ member,held⟩

theorem Since.imp (since : Since past P) (weaker : ∀ p, P p → Q p) : Since past Q := by
  obtain ⟨w,member,held⟩ := since
  exact ⟨w,member,weaker _ held⟩

theorem Snapshot.later (snapshot : Snapshot (Since past) status) (t : Taken Server Event) :
    Snapshot (Since (past ++ [t])) status := by
  rcases snapshot with ⟨same,poisoned⟩ | ⟨state,generation,deps,ready⟩
  · exact .inl ⟨same,poisoned.later t⟩
  · exact .inr ⟨state.later t,generation.later t,deps.later t,ready⟩

theorem checked_names (deps : List String) (oks : List Bool) (counted : oks.length = deps.length) :
    (checked deps oks).map DependencyCheck.name = deps := by
  induction deps generalizing oks with
  | nil => simp [checked]
  | cons name deps ih =>
    cases oks with
    | nil => simp at counted
    | cons ok oks => simpa [checked] using ih oks (by simpa using counted)

theorem checked_all (deps : List String) (oks : List Bool) (counted : oks.length = deps.length) :
    oks.all id = true ↔ ∀ d ∈ checked deps oks, d.ok = true := by
  induction deps generalizing oks with
  | nil => simp [checked,List.length_eq_zero_iff.mp counted]
  | cons name deps ih =>
    cases oks with
    | nil => simp at counted
    | cons ok oks =>
      have rest := ih oks (by simpa using counted)
      simp only [checked] at rest
      simp [checked,← rest]

theorem readyStatus_snapshot (p : Probe) (oks : List Bool) (counted : oks.length = p.deps.length)
    {seen : DrainState} (state : Since past fun p => p.drainState = seen) {recorded : Option UInt64}
    (generation : Since past fun p => p.generation = recorded) (now : ∀ P : Probe → Prop, P p → Since past P) :
    Snapshot (Since past) (readyStatus seen recorded p oks) := by
  by_cases poisoned : p.poisoned = true
  · exact .inl ⟨by simp [readyStatus,poisoned,lockPoisoned],now _ poisoned⟩
  · have names := checked_names p.deps oks counted
    have all := checked_all p.deps oks counted
    simp only [readyStatus,if_neg poisoned]
    refine .inr ⟨state.imp fun p same => by rw [same],generation.imp fun p same => same.symm,now _ names,?_⟩
    rw [Bool.and_eq_true,Bool.not_eq_true',all]

/-- What the handler of a connection knows of the probe. -/
def Reading (cfg : Config) (past : List (Taken Server Event)) (s : Server) (j : Nat) : Prop :=
  (s.points j).Seen (Since past) fun outcome => ∀ req, s.current j = some req → cfg.router req.method = some .status →
    ∃ status : ReadyStatus, outcome = .ok status.toValue ∧ Snapshot (Since past) status

theorem Works.reading (works : Works cfg s j req s') (current : s.current j = some req) (probed : cfg.probed = true)
    (before : Reading cfg past s j) (now : ∀ P : Probe → Prop, P s.probe → Since past P) : Reading cfg past s' j := by
  unfold Reading at before
  cases works with
  | stateRead =>
    rw [Reading,points_setPoint_self]
    exact now (fun p => p.drainState = s.probe.drainState) rfl
  | generationRead _ here =>
    rw [here] at before
    rw [Reading,points_setPoint_self]
    exact ⟨before,now (fun p => p.generation = s.probe.generation) rfl⟩
  | checked _ here counted =>
    rw [here] at before
    simp only [Reading,points_answer_self,Point.Seen]
    exact fun _ _ _ => ⟨_,rfl,readyStatus_snapshot _ _ counted before.1 before.2 now⟩
  | kindStored => simp [Reading,Point.Seen]
  | plain _ plain => simp [probed] at plain
  | bitStored routed | reloaded routed =>
    simp only [Reading,points_answer_self,Point.Seen]
    intro req' current' status
    obtain rfl := Option.some.inj (current.symm.trans current')
    simp [routed] at status
  | other _ noStatus =>
    simp only [Reading,points_answer_self,Point.Seen]
    intro req' current' status
    obtain rfl := Option.some.inj (current.symm.trans current')
    exact absurd status noStatus

theorem Reading.later (reading : Reading cfg past s j) (t : Taken Server Event)
    (same : (s'.current j = none ∨ s'.current j = s.current j) ∧ s'.points j = s.points j) :
    Reading cfg (past ++ [t]) s' j := by
  unfold Reading at reading ⊢
  rw [same.2]
  cases point : s.points j with
  | stateRead state => rw [point] at reading; exact Since.later (P := fun p => p.drainState = state) reading t
  | generationRead state generation => rw [point] at reading; exact ⟨Since.later reading.1 t,Since.later reading.2 t⟩
  | done outcome =>
    rw [point] at reading
    intro req current routed
    rcases same.1 with gone | kept
    · simp [gone] at current
    · obtain ⟨status,answer,snapshot⟩ := reading req (kept ▸ current) routed
      exact ⟨status,answer,snapshot.later t⟩
  | _ => trivial

theorem run_reading (v : Taken Server Event) (framed : v.post.points j = .start) (probed : cfg.probed = true)
    (run : Run (step serde cfg) v.post past s) : Reading cfg (v :: past) s j := by
  induction run with
  | nil => simp [Reading,framed,Point.Seen]
  | @snoc past s e s' before taken ih =>
    have kept := ih.later ⟨s,e,s'⟩ ⟨.inr rfl,rfl⟩
    have now : ∀ P : Probe → Prop, P s.probe → Since (v :: past ++ [⟨s,e,s'⟩]) P := by
      intro P held
      have since : Since (v :: past) P := before.held (P := fun s : Server => P s.probe) v held
      exact since.later _
    rcases (step_steps serde cfg s s' e taken).local j with same | ⟨_,start⟩ | ⟨req,_,_,current,works⟩
    · exact ih.later _ same
    · simp [Reading,start,Point.Seen]
    · exact works.reading current probed kept now

end Probed

end Malkuth.LifecycleRpc
