import Malkuth.DrainCalls

/-! How a drain call comes to an end. It answers, unless the sum of the clock and its timeout is no
`Instant`: then it panics, with its approval spent and the drain under way. -/
namespace Malkuth.Mcp

open Malkuth.Supervise Transition

/-- The accesses a drain call has yet to make, at most, when it does not wait. -/
def DrainPoint.rank : DrainPoint → Nat
  | .findRun => 10
  | .checkDraining _ => 9
  | .validate .. => 8
  | .storeKind .. => 7
  | .storeDraining .. => 6
  | .setDeadline .. => 5
  | .waiting .. => 4
  | .readFleet .. => 3
  | .readDraining .. => 2
  | .readFinished .. => 1
  | .answered _ | .panicked => 0

def DrainPoint.known : DrainPoint → Bool
  | .findRun | .answered _ | .panicked => false
  | _ => true

def DrainPoint.waits (finished : Bool) (now : Nat) : DrainPoint → Bool
  | .waiting _ _ deadline => !finished && decide (now < deadline)
  | _ => false

/-- The timeout, where the next access sets the deadline. -/
def Call.settingDeadline : Call → Option Nat
  | .drain args (.setDeadline _ _) => some (args.timeoutSecs.getD Server.defaultDrainTimeoutSecs)
  | _ => none

namespace Server

def waits (s : Server) (call : Nat) : Bool :=
  match s.calls call with
  | .drain args point => point.waits (s.runs args.runId).isFinished s.now
  | _ => false

def drainRank (s : Server) (call : Nat) : Nat :=
  match s.calls call with
  | .drain _ point => point.rank
  | _ => 0

/-- An access of the call, other than a look in the time it has to wait. -/
def drives (call : Nat) (t : Taken Server Event) : Bool := t.event.movesCall call && !t.pre.waits call

/-- Drain calls answer, after ten accesses at the latest when those that wait are not counted,
and nothing holds them up before. -/
def DrainsAnswer (specs : Specs) (past : List (Taken Server Event)) (s : Server) : Prop :=
  ∀ before t after call args, past = before ++ t :: after → t.event = .drain call args →
    after.countP (drives call) ≤ 10 ∧ ∃ point, s.calls call = .drain args point ∧
      ((∃ answer, point = .answered answer) ∨
        (point.rank ≠ 0 ∧ ∀ r, (step specs s (.advance call r)).isSome = true))

/-- The deadline that this step sets is an `Instant`. -/
def DeadlineFits (s : Server) : Event → Prop
  | .advance call _ => ∀ timeout ∈ (s.calls call).settingDeadline, s.now + secs timeout < instantLimit
  | _ => True

instance (s : Server) : (e : Event) → Decidable (DeadlineFits s e)
  | .advance call _ => inferInstanceAs (Decidable (∀ timeout ∈ (s.calls call).settingDeadline,
      s.now + secs timeout < instantLimit))
  | .supervise .. | .timeout _ | .conclude _ | .tick _ | .approve .. | .restart .. | .drain .. =>
    .isTrue trivial

inductive DrainSteps (spec : Option RunSpec) (s : Server) (args : DrainArgs) : DrainPoint → DrainPoint → Prop where
  | refused (early : 8 ≤ point.rank) : DrainSteps spec s args point (.answered (.error reason))
  | found (known : spec.isSome = true) : DrainSteps spec s args .findRun (.checkDraining kind)
  | repeated : DrainSteps spec s args (.checkDraining kind) (.storeKind kind true)
  | gated : DrainSteps spec s args (.checkDraining kind) (.validate kind proposal worker)
  | spent : DrainSteps spec s args (.validate kind proposal worker) (.storeKind kind false)
  | drains : DrainSteps spec s args (.storeKind kind already) (.storeDraining kind already)
  | reloads : DrainSteps spec s args (.storeKind kind already) (.setDeadline kind already)
  | begun : DrainSteps spec s args (.storeDraining kind already) (.setDeadline kind already)
  | timed (fits : s.now + secs (args.timeoutSecs.getD defaultDrainTimeoutSecs) < instantLimit) :
      DrainSteps spec s args (.setDeadline kind already)
        (.waiting kind already (s.now + secs (args.timeoutSecs.getD defaultDrainTimeoutSecs)))
  | panicked (full : ¬ s.now + secs (args.timeoutSecs.getD defaultDrainTimeoutSecs) < instantLimit) :
      DrainSteps spec s args (.setDeadline kind already) .panicked
  | waits (running : (s.runs args.runId).isFinished = false) (early : s.now < deadline) :
      DrainSteps spec s args (.waiting kind already deadline) (.waiting kind already deadline)
  | waited (ends : (s.runs args.runId).isFinished = true ∨ deadline ≤ s.now) :
      DrainSteps spec s args (.waiting kind already deadline) (.readFleet kind already timedOut)
  | fleetRead : DrainSteps spec s args (.readFleet kind already timedOut) (.readDraining kind already timedOut workers)
  | drainingRead : DrainSteps spec s args (.readDraining kind already timedOut workers)
      (.readFinished kind already timedOut draining workers)
  | answers : DrainSteps spec s args (.readFinished kind already timedOut draining workers) (.answered (.ok accepted))

theorem drainAdvance_steps (taken : drainAdvance spec s args r point = some (m,point')) :
    DrainSteps spec s args point point' := by
  cases point with
  | findRun =>
    simp only [drainAdvance] at taken
    split at taken
    · cases taken; exact .refused (by decide)
    · split at taken
      · cases taken; exact .refused (by decide)
      · cases taken; exact .found rfl
  | checkDraining kind =>
    simp only [drainAdvance] at taken
    split at taken
    · cases taken; exact .repeated
    · split at taken
      · cases taken; exact .refused (by simp [DrainPoint.rank])
      · cases taken; exact .gated
  | validate kind proposal worker =>
    simp only [drainAdvance] at taken
    split at taken
    · cases taken; exact .spent
    · cases taken; exact .refused (by simp [DrainPoint.rank])
  | storeKind kind already =>
    cases taken
    split
    · exact .drains
    · exact .reloads
  | storeDraining kind already => cases taken; exact .begun
  | setDeadline kind already =>
    cases taken
    split
    next fits => exact .timed fits
    next full => exact .panicked full
  | waiting kind already deadline =>
    simp only [drainAdvance] at taken
    split at taken
    next finished => cases taken; exact .waited (.inl finished)
    next running =>
      split at taken
      next late => cases taken; exact .waited (.inr late)
      next early => cases taken; exact .waits (by simpa using running) (Nat.lt_of_not_le early)
  | readFleet kind already timedOut =>
    obtain ⟨found,_,rest⟩ := Option.bind_eq_some_iff.mp taken
    cases rest
    exact .fleetRead
  | readDraining kind already timedOut workers => cases taken; exact .drainingRead
  | readFinished kind already timedOut draining workers => cases taken; exact .answers
  | answered answer | panicked => cases taken

/-- Every access brings the call on, but those that wait. -/
theorem DrainSteps.rank (steps : DrainSteps spec s args point point') :
    point'.rank + (if point.waits (s.runs args.runId).isFinished s.now then 0 else 1) ≤ point.rank := by
  cases steps with
  | refused early =>
    have below : (if point.waits (s.runs args.runId).isFinished s.now then 0 else 1) ≤ 1 := by split <;> decide
    show 0 + _ ≤ _
    omega
  | waits running early => simp [DrainPoint.waits,running,early]
  | waited ends =>
    have expired : ¬ ((s.runs args.runId).isFinished = false ∧ s.now < _) := fun both =>
      ends.elim (by simp [both.1]) (Nat.not_le.mpr both.2)
    simp [DrainPoint.rank,DrainPoint.waits,expired]
  | _ => simp [DrainPoint.rank,DrainPoint.waits]

theorem DrainSteps.known (steps : DrainSteps spec s args point point')
    (before : point.known = true → spec.isSome = true) (after : point'.known = true) : spec.isSome = true := by
  cases steps with
  | found known => exact known
  | refused | panicked | answers => simp [DrainPoint.known] at after
  | _ => exact before rfl

/-- A call panics where it sets its deadline, if the sum is no `Instant`. -/
theorem DrainSteps.panics (steps : DrainSteps spec s args point point') :
    point' = .panicked ↔ ∃ timeout ∈ (Call.drain args point).settingDeadline, ¬ s.now + secs timeout < instantLimit := by
  cases steps with
  | refused early => cases point <;> simp [DrainPoint.rank,Call.settingDeadline] at early ⊢
  | timed fits => simpa [Call.settingDeadline] using fits
  | panicked full => simpa [Call.settingDeadline] using full
  | _ => simp [Call.settingDeadline]

/-- A step of the server, for a call that is a drain after it. -/
theorem step_drains (specs : Specs) (s s' : Server) (e : Event) (call : Nat) (taken : step specs s e = some s')
    (after : s'.calls call = .drain args point') :
    (e.movesCall call = false ∧ s.calls call = s'.calls call) ∨
    (e = .drain call args ∧ s.calls call = .idle ∧ point' = .findRun) ∨
    ∃ r point, e = .advance call r ∧ s.calls call = .drain args point ∧
      DrainSteps (specs args.runId) s args point point' := by
  cases step_callMoves specs s s' e call taken with
  | kept foreign same => exact .inl ⟨foreign,same.symm⟩
  | restartBegun | restart => simp at after
  | drainBegun free =>
    simp only [setCall_calls,Function.update_self] at after
    cases after
    exact .inr (.inl ⟨rfl,free,rfl⟩)
  | @drain args' point r m point'' here _ =>
    simp only [setCall_calls,Function.update_self] at after
    cases after
    obtain ⟨m',p,moved,eq⟩ := step_drain specs s _ taken here
    have same := congrArg (fun s => s.calls call) eq
    simp only [setCall_calls,Function.update_self] at same
    cases same
    exact .inr (.inr ⟨r,point,rfl,here,drainAdvance_steps moved⟩)

/-- A drain call stays one. -/
theorem step_stays (specs : Specs) (s s' : Server) (e : Event) (taken : step specs s e = some s')
    (here : s.calls call = .drain args point) : ∃ point', s'.calls call = .drain args point' := by
  cases step_callMoves specs s s' e call taken with
  | kept _ same => exact ⟨point,same.trans here⟩
  | restartBegun free | drainBegun free => simp [here] at free
  | restart at_ => simp [here] at at_
  | @drain _ _ _ _ point' at_ =>
    rw [here] at at_
    cases at_
    exact ⟨point',by simp⟩

/-- And every access of it brings it on, but those that wait. -/
theorem step_rank (specs : Specs) (s : Server) (e : Event) (s' : Server)
    (here : ∃ point, s.calls call = .drain args point) (taken : step specs s e = some s') :
    (∃ point, s'.calls call = .drain args point) ∧
      s'.drainRank call + (if drives call ⟨s,e,s'⟩ then 1 else 0) ≤ s.drainRank call := by
  obtain ⟨point,here⟩ := here
  obtain ⟨point',after⟩ := step_stays specs s s' e taken here
  refine ⟨⟨point',after⟩,?_⟩
  rcases step_drains specs s s' e call taken after with ⟨foreign,same⟩ | ⟨_,idle,_⟩ | ⟨r,p,rfl,at_,steps⟩
  · simp [drives,foreign,drainRank,same]
  · simp [here] at idle
  · rw [here] at at_
    cases at_
    have rank := steps.rank
    simp only [drainRank,after,here,drives,Event.movesCall,beq_self_eq_true,Bool.true_and,waits]
    cases idle : point.waits (s.runs args.runId).isFinished s.now <;> simpa [idle] using rank

structure Sound (specs : Specs) (call : Nat) (s : Server) : Prop where
  known : ∀ args point, s.calls call = .drain args point → point.known = true → (specs args.runId).isSome = true
  lives : ∀ args, s.calls call ≠ .drain args .panicked

theorem step_sound (specs : Specs) (s : Server) (e : Event) (s' : Server) (sound : Sound specs call s)
    (fits : DeadlineFits s e) (taken : step specs s e = some s') : Sound specs call s' := by
  constructor
  · intro args point' after known
    rcases step_drains specs s s' e call taken after with ⟨_,same⟩ | ⟨_,_,rfl⟩ | ⟨r,point,rfl,here,steps⟩
    · exact sound.known args point' (same.trans after) known
    · cases known
    · exact steps.known (sound.known args point here) known
  · intro args after
    rcases step_drains specs s s' e call taken after with ⟨_,same⟩ | ⟨_,_,none_⟩ | ⟨r,point,rfl,here,steps⟩
    · exact sound.lives args (same.trans after)
    · cases none_
    · obtain ⟨timeout,setting,full⟩ := steps.panics.mp rfl
      exact full (fits timeout (here ▸ setting))

/-- Nothing holds a drain call up that has not answered. -/
theorem drain_enabled (specs : Specs) (s : Server) (r : Readings) (sound : Sound specs call s)
    (here : s.calls call = .drain args point) (some_ : point.rank ≠ 0) :
    (step specs s (.advance call r)).isSome = true := by
  have known := sound.known args point here
  simp only [step,advance,here,Option.isSome_map]
  cases point with
  | findRun =>
    simp only [drainAdvance]
    split
    · rfl
    · split <;> rfl
  | checkDraining kind =>
    simp only [drainAdvance]
    split
    · rfl
    · split <;> rfl
  | validate kind proposal worker => simp only [drainAdvance]; split <;> rfl
  | waiting kind already deadline =>
    simp only [drainAdvance]
    split
    · rfl
    · split <;> rfl
  | readFleet kind already timedOut =>
    obtain ⟨spec,found⟩ := Option.isSome_iff_exists.mp (known rfl)
    simp [drainAdvance,found]
  | storeKind | storeDraining | setDeadline | readDraining | readFinished => rfl
  | answered | panicked => exact absurd rfl some_

theorem run_panicked (specs : Specs) (exec : Run (step specs) m after s) (here : m.calls call = .drain args .panicked) :
    s.calls call = .drain args .panicked := by
  apply exec.always (P := fun s => s.calls call = .drain args .panicked) here
  intro s e s' before taken
  obtain ⟨point',after⟩ := step_stays specs s s' e taken before
  rcases step_drains specs s s' e call taken after with ⟨_,same⟩ | ⟨_,idle,_⟩ | ⟨r,point,rfl,at_,steps⟩
  · exact same.symm.trans before
  · simp [before] at idle
  · rw [before] at at_
    cases at_
    cases steps with
    | refused early => exact absurd early (by decide)

/-- A deadline that does not fit leaves a call that has panicked. -/
theorem run_full (specs : Specs) (exec : Run (step specs) (initial boot) past s) (member : t ∈ past)
    (full : ¬ DeadlineFits t.pre t.event) : ∃ call args, s.calls call = .drain args .panicked := by
  obtain ⟨front,back,rfl⟩ := List.append_of_mem member
  obtain ⟨_,taken,rest⟩ := exec.split
  unfold DeadlineFits at full
  split at full
  next call r advance =>
    simp only [Classical.not_forall] at full
    obtain ⟨timeout,setting,full⟩ := full
    cases here : t.pre.calls call with
    | drain args point =>
      rw [advance] at taken
      obtain ⟨m,point',moved,eq⟩ := step_drain specs t.pre t.post taken here
      have panicked := (drainAdvance_steps moved).panics.mpr ⟨timeout,here ▸ setting,full⟩
      refine ⟨call,args,run_panicked specs rest ?_⟩
      rw [eq,panicked]
      simp
    | idle | restart => simp [here,Call.settingDeadline] at setting
  · exact absurd trivial full

/-- A call that has panicked does not answer. -/
theorem not_drainsAnswer (specs : Specs) (exec : Run (step specs) (initial boot) past s)
    (dead : s.calls call = .drain args .panicked) : ¬ DrainsAnswer specs past s := by
  intro answers
  obtain ⟨u,earlier,before,after⟩ := exec.gives_up (P := fun s => ¬ ∃ args point, s.calls call = .drain args point)
    (by simp [initial]) (by simp [dead])
  obtain ⟨args',point',after⟩ := not_not.mp after
  have event : u.event = .drain call args' := by
    rcases step_drains specs _ _ _ call (exec.enabled earlier) after with ⟨_,same⟩ | ⟨event,_⟩ | ⟨_,p,_,at_,_⟩
    · exact absurd ⟨args',point',same.trans after⟩ before
    · exact event
    · exact absurd ⟨args',p,at_⟩ before
  obtain ⟨front,back,cut⟩ := List.append_of_mem earlier
  obtain ⟨_,p,there,ends⟩ := answers front u back call args' cut event
  rw [dead] at there
  cases there
  rcases ends with ⟨_,answered⟩ | ⟨some_,_⟩
  · cases answered
  · exact some_ rfl

/-- Drain calls answer, in every history, if and only if every deadline that is set in it fits. -/
theorem drainsAnswer_iff (specs : Specs) (exec : Run (step specs) (initial boot) past s) :
    DrainsAnswer specs past s ↔ ∀ t ∈ past, DeadlineFits t.pre t.event := by
  constructor
  · intro answers t member
    by_contra full
    obtain ⟨_,_,dead⟩ := run_full specs exec member full
    exact not_drainsAnswer specs exec dead answers
  · rintro fits before t after call args rfl begun
    obtain ⟨_,taken,rest⟩ := exec.split
    have start : t.post.calls call = .drain args .findRun := by
      rw [begun] at taken
      obtain ⟨_,eq⟩ := begin_eq_some t.pre taken
      simp [eq]
    have sound := exec.invariant (P := Sound specs call) ⟨by simp [initial],by simp [initial]⟩ (step_sound specs) fits
    obtain ⟨⟨point,here⟩,bounded⟩ := rest.countP_le (fun s => s.drainRank call) (drives call) ⟨_,start⟩ (step_rank specs)
    refine ⟨?_,point,here,?_⟩
    · have first : t.post.drainRank call = 10 := by rw [drainRank,start]; rfl
      omega
    · by_cases ends : point.rank = 0
      · left
        cases point with
        | answered answer => exact ⟨answer,rfl⟩
        | panicked => exact absurd here (sound.lives args)
        | _ => cases ends
      · exact .inr ⟨ends,fun r => drain_enabled specs s r sound here ends⟩

end Server

end Malkuth.Mcp
