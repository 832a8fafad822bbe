import Mathlib.Data.List.Induction
import Mathlib.Logic.Function.Basic

/-! Finite runs of a partial labelled step function. A run keeps every step it
took, so a property may speak about the states before and after each of them.
Nothing here assumes fairness or progress: a step that is not enabled is `none`. -/
namespace Transition

/-- One step of a run: the state it started in, its label, the state it led to. -/
structure Taken (σ ε : Type) where
  pre : σ
  event : ε
  post : σ

variable {σ ε τ δ : Type} {step : σ → ε → Option σ}

/-- Runs grow at the end, so induction on one is induction on its history. -/
inductive Run (step : σ → ε → Option σ) (start : σ) : List (Taken σ ε) → σ → Prop where
  | nil : Run step start [] start
  | snoc : Run step start past s → step s e = some s' →
      Run step start (past ++ [⟨s,e,s'⟩]) s'

theorem Run.of_nil (run : Run step s [] s') : s' = s := by
  generalize eq : [] = whole at run
  cases run with
  | nil => rfl
  | snoc => simp at eq

theorem Run.one (enabled : step s e = some s') : Run step s [⟨s,e,s'⟩] s' :=
  Run.snoc .nil enabled

theorem Run.append (front : Run step s past m) (back : Run step m later s') :
    Run step s (past ++ later) s' := by
  induction back with
  | nil => simpa using front
  | snoc _ enabled ih => rw [← List.append_assoc]; exact .snoc ih enabled

theorem Run.cons (enabled : step s e = some m) (back : Run step m later s') :
    Run step s (⟨s,e,m⟩ :: later) s' :=
  (Run.one enabled).append back

/-- The last step of a run, with the run before it. -/
theorem Run.last (run : Run step start (past ++ [t]) s) :
    Run step start past t.pre ∧ step t.pre t.event = some t.post ∧ s = t.post := by
  generalize eq : past ++ [t] = whole at run
  cases run with
  | nil => simp at eq
  | snoc before enabled =>
    obtain ⟨rfl,last⟩ := List.append_inj' eq rfl
    obtain rfl := List.singleton_inj.mp last
    exact ⟨before,enabled,rfl⟩

theorem Run.split_append (run : Run step start (past ++ later) s) :
    ∃ m, Run step start past m ∧ Run step m later s := by
  induction later using List.reverseRecOn generalizing s with
  | nil => exact ⟨s,by simpa using run,.nil⟩
  | append_singleton later t ih =>
    rw [← List.append_assoc] at run
    obtain ⟨before,enabled,rfl⟩ := run.last
    obtain ⟨m,front,back⟩ := ih before
    exact ⟨m,front,back.snoc enabled⟩

/-- A run cut at one of its steps. -/
theorem Run.split (run : Run step start (past ++ t :: later) s) :
    Run step start past t.pre ∧ step t.pre t.event = some t.post ∧ Run step t.post later s := by
  rw [List.append_cons] at run
  obtain ⟨m,front,back⟩ := run.split_append
  obtain ⟨before,enabled,rfl⟩ := front.last
  exact ⟨before,enabled,back⟩

theorem Run.enabled (run : Run step start past s) (member : t ∈ past) :
    step t.pre t.event = some t.post := by
  obtain ⟨front,back,rfl⟩ := List.append_of_mem member
  exact run.split.2.1

/-- The run up to one of its steps. -/
theorem Run.upTo (run : Run step start past s) (member : t ∈ past) :
    ∃ before, Run step start before t.pre ∧ step t.pre t.event = some t.post ∧ ∀ u ∈ before ++ [t], u ∈ past := by
  obtain ⟨before,after,rfl⟩ := List.append_of_mem member
  refine ⟨before,run.split.1,run.split.2.1,?_⟩
  intro u earlier
  rw [List.append_cons]
  exact List.mem_append_left _ earlier

/-- What every step keeps, under a condition on the state before it, holds at the
end of every run whose steps all meet the condition. -/
theorem Run.invariant {P : σ → Prop} {C : σ → ε → Prop} (run : Run step start past s)
    (initial : P start) (keeps : ∀ s e s', P s → C s e → step s e = some s' → P s')
    (meets : ∀ t ∈ past, C t.pre t.event) : P s := by
  induction run with
  | nil => exact initial
  | snoc _ enabled ih =>
    have last := meets _ (List.mem_append_right _ (List.mem_singleton_self _))
    exact keeps _ _ _ (ih fun t member => meets t (List.mem_append_left _ member)) last enabled

/-- And so before each of its steps. -/
theorem Run.invariant_before {P : σ → Prop} {C : σ → ε → Prop} (run : Run step start past s)
    (initial : P start) (keeps : ∀ s e s', P s → C s e → step s e = some s' → P s')
    (meets : ∀ t ∈ past, C t.pre t.event) (member : t ∈ past) : P t.pre := by
  obtain ⟨before,front,_,earlier⟩ := run.upTo member
  exact front.invariant initial keeps fun u inFront => meets u (earlier u (List.mem_append_left _ inFront))

/-- The same with no condition on the steps. -/
theorem Run.always {P : σ → Prop} (run : Run step start past s) (initial : P start)
    (keeps : ∀ s e s', P s → step s e = some s' → P s') : P s :=
  run.invariant (C := fun _ _ => True) initial (fun s e s' p _ => keeps s e s' p) (by simp)

/-- What every step keeps holds before and after each step of a run. -/
theorem Run.always_taken {P : σ → Prop} (run : Run step start past s) (initial : P start)
    (keeps : ∀ s e s', P s → step s e = some s' → P s') (member : t ∈ past) :
    P t.pre ∧ P t.post := by
  obtain ⟨_,front,enabled,_⟩ := run.upTo member
  have before := front.always initial keeps
  exact ⟨before,keeps _ _ _ before enabled⟩

/-- What holds at the end of a run that a step led to held after that step or a later one. -/
theorem Run.held {P : σ → Prop} (t : Taken σ ε) (run : Run step t.post past s) (last : P s) :
    ∃ w ∈ t :: past, P w.post := by
  cases run with
  | nil => exact ⟨t,List.mem_cons_self,last⟩
  | snoc _ _ => exact ⟨_,List.mem_cons_of_mem _ (List.mem_append_right _ (List.mem_singleton_self _)),last⟩

/-- What holds at the start of a run and not at its end is given up by one of its steps. -/
theorem Run.gives_up {P : σ → Prop} (run : Run step start past s) (first : P start) (last : ¬ P s) :
    ∃ t ∈ past, P t.pre ∧ ¬ P t.post := by
  by_contra never
  apply last
  apply run.invariant (C := fun s e => ∀ s', step s e = some s' → P s → P s') first
  · intro s e s' before kept enabled
    exact kept s' enabled before
  · intro t member s' enabled before
    have post : s' = t.post := Option.some.inj (enabled.symm.trans (run.enabled member))
    by_contra gone
    exact never ⟨t,member,before,post ▸ gone⟩

/-- Steps that bring a rank down, where nothing else brings it up, are no more than it comes down by. -/
theorem Run.countP_le {P : σ → Prop} (rank : σ → Nat) (counted : Taken σ ε → Bool) (run : Run step start past s)
    (initial : P start) (falls : ∀ s e s', P s → step s e = some s' →
      P s' ∧ rank s' + (if counted ⟨s,e,s'⟩ then 1 else 0) ≤ rank s) :
    P s ∧ past.countP counted + rank s ≤ rank start := by
  induction run with
  | nil => exact ⟨initial,by simp⟩
  | @snoc past m e s' _ enabled ih =>
    obtain ⟨before,bound⟩ := ih
    obtain ⟨after,last⟩ := falls m e s' before enabled
    refine ⟨after,?_⟩
    rw [List.countP_append,List.countP_singleton]
    omega

/-- The steps of a run as a part of the system sees them: `label` names what the part
takes part in. -/
def watch (view : σ → τ) (label : Taken σ ε → Option δ) (past : List (Taken σ ε)) : List (Taken τ δ) :=
  past.filterMap fun t => (label t).map fun d => ⟨view t.pre,d,view t.post⟩

def Follows (part : τ → δ → Option τ) (label : Option δ) (pre post : τ) : Prop :=
  match label with
  | some d => part pre d = some post
  | none => post = pre

theorem Run.follows {view : σ → τ} {label : Taken σ ε → Option δ} {part : τ → δ → Option τ}
    (run : Run step start past s)
    (follows : ∀ t ∈ past, Follows part (label t) (view t.pre) (view t.post)) :
    Run part (view start) (watch view label past) (view s) := by
  induction run with
  | nil => exact .nil
  | @snoc past s e s' _ _ ih =>
    have before := ih fun t member => follows t (List.mem_append_left _ member)
    have last := follows ⟨s,e,s'⟩ (List.mem_append_right _ (List.mem_singleton_self _))
    unfold watch at before ⊢
    rw [List.filterMap_append]
    cases labelled : label ⟨s,e,s'⟩ with
    | some d =>
      rw [labelled] at last
      simp only [List.filterMap_cons,labelled,Option.map_some,List.filterMap_nil]
      exact before.snoc last
    | none =>
      rw [labelled] at last
      have same : view s' = view s := last
      rw [same]
      simpa [labelled] using before

/-- Executable runs: the history and the last state, if every event is enabled. -/
def execute (step : σ → ε → Option σ) (s : σ) : List ε → Option (List (Taken σ ε) × σ)
  | [] => some ([],s)
  | e :: events => do
    let m ← step s e
    let (later,s') ← execute step m events
    some (⟨s,e,m⟩ :: later,s')

theorem execute_run (events : List ε) (done : execute step s events = some (past,s')) :
    Run step s past s' := by
  induction events generalizing s past with
  | nil =>
    obtain ⟨rfl,rfl⟩ := Prod.mk.inj (Option.some.inj done)
    exact .nil
  | cons e events ih =>
    simp only [execute,Option.bind_eq_bind,Option.bind_eq_some_iff] at done
    obtain ⟨m,enabled,⟨later,s''⟩,rest,eq⟩ := done
    obtain ⟨rfl,rfl⟩ := Prod.mk.inj (Option.some.inj eq)
    exact Run.cons enabled (ih rest)

/-- A run found by evaluation, with a decidable fact about its history and end. -/
theorem exists_run (step : σ → ε → Option σ) (s : σ) (events : List ε)
    (fact : List (Taken σ ε) → σ → Prop) [∀ past s', Decidable (fact past s')]
    (holds : (execute step s events).any (fun r => decide (fact r.1 r.2)) = true) :
    ∃ past s', Run step s past s' ∧ fact past s' := by
  cases done : execute step s events with
  | none => simp [done] at holds
  | some r => exact ⟨r.1,r.2,execute_run events done,by simpa [done] using holds⟩

/-- A run found by evaluation, cut at one of its events. -/
theorem exists_run_cut (step : σ → ε → Option σ) (s : σ) (front : List ε) (e : ε) (back : List ε)
    (fact : List (Taken σ ε) → Taken σ ε → List (Taken σ ε) → σ → Prop)
    [∀ before t after s', Decidable (fact before t after s')]
    (holds : (execute step s front).any (fun f => (step f.2 e).any fun m =>
      (execute step m back).any fun b => decide (fact f.1 ⟨f.2,e,m⟩ b.1 b.2)) = true) :
    ∃ before t after s', Run step s (before ++ t :: after) s' ∧ t.event = e ∧ fact before t after s' := by
  obtain ⟨⟨before,m⟩,first,holds⟩ := (Option.any_eq_true ..).mp holds
  obtain ⟨m',taken,holds⟩ := (Option.any_eq_true ..).mp holds
  obtain ⟨⟨after,s'⟩,rest,holds⟩ := (Option.any_eq_true ..).mp holds
  have tail := Run.cons taken (execute_run back rest)
  exact ⟨before,⟨m,e,m'⟩,after,s',(execute_run front first).append tail,rfl,of_decide_eq_true holds⟩

/-! A family of parts, one of which is replaced. -/
section Parts

variable {ι α : Type} [DecidableEq ι] {f : ι → α}

/-- What is true of a part afterwards was true of the new one, or of that part before. -/
theorem update_cases (P : α → Prop) (holds : P (Function.update f i x j)) :
    (j = i ∧ P x) ∨ (j ≠ i ∧ P (f j)) := by
  by_cases same : j = i
  · subst same
    exact .inl ⟨rfl,by simpa using holds⟩
  · exact .inr ⟨same,by simpa [same] using holds⟩

theorem update_holds (P : α → Prop) (before : P (f j)) (own : i = j → P x) : P (Function.update f i x j) := by
  by_cases same : j = i
  · subst same
    simpa using own rfl
  · simpa [same] using before

end Parts

end Transition
