import Malkuth.Leader

/-! The terms of `leader.rs`. An elector counts its own acquisitions in memory, from 1 on; what
fences leaders off from each other is the lease and not the term, so the terms of different
electors are not related. -/
namespace Malkuth.Leader

open Transition

variable {ι : Type} [DecidableEq ι]

def drawn (t : Taken (State ι) (Event ι)) : Option (ι × String × Nat) :=
  match t.event with
  | .stamp o => (t.pre.caller o).map fun e => (e,o,((t.pre.elector e).term + 1) % 2^64)
  | _ => none

/-- The terms of a run, in the order in which they were drawn. -/
def draws (past : List (Taken (State ι) (Event ι))) : List (ι × String × Nat) := past.filterMap drawn

def termsOf (past : List (Taken (State ι) (Event ι))) (e : ι) : List Nat :=
  ((draws past).filter fun d => d.1 = e).map fun d => d.2.2

omit [DecidableEq ι] in
theorem draws_snoc (past : List (Taken (State ι) (Event ι))) (t) : draws (past ++ [t]) = draws past ++ (drawn t).toList := by
  cases term : drawn t <;> simp [draws,term]

theorem termsOf_snoc (past : List (Taken (State ι) (Event ι))) (t) (e : ι) :
    termsOf (past ++ [t]) e = termsOf past e ++ ((drawn t).filter fun d => d.1 = e).toList.map fun d => d.2.2 := by
  rw [termsOf,draws_snoc,List.filter_append,List.map_append]
  cases drawn t with
  | none => rfl
  | some d => by_cases here : d.1 = e <;> simp [termsOf,here,Option.filter_some]

/-- A step draws the next term of one elector, or leaves all counters alone. -/
theorem steps_term (ident : Identity ι) (steps : Steps ident s e s') :
    (drawn ⟨s,e,s'⟩ = none ∧ ∀ x, (s'.elector x).term = (s.elector x).term) ∨
    ∃ x o, drawn ⟨s,e,s'⟩ = some (x,o,((s.elector x).term + 1) % 2^64) ∧
      ∀ y, (s'.elector y).term = if y = x then ((s.elector x).term + 1) % 2^64 else (s.elector y).term := by
  have kept (x : ι) (new : Elector) (same : new.term = (s.elector x).term) (y : ι) :
      (Function.update s.elector x new y).term = (s.elector y).term := by
    exact update_holds (fun el : Elector => el.term = (s.elector y).term) rfl fun here => here ▸ same
  cases steps with
  | @underneath e' event lease below moved =>
    left
    cases e <;> simp_all [drawn,State.Underneath]
  | looks kind =>
    left
    rcases kind with rfl | rfl <;> exact ⟨rfl,fun _ => rfl⟩
  | tryAcquire => exact .inl ⟨rfl,fun _ => rfl⟩
  | @stamp o x term caller phase held drew =>
    subst drew
    refine .inr ⟨x,o,by simp [drawn,caller],fun y => ?_⟩
    by_cases here : y = x <;> simp [State.setElector,State.setPhase,here]
  | store caller => exact .inl ⟨rfl,kept _ _ rfl⟩
  | replace caller => exact .inl ⟨rfl,kept _ _ rfl⟩
  | unlock caller => exact .inl ⟨rfl,kept _ _ rfl⟩
  | abandon => exact .inl ⟨rfl,fun _ => rfl⟩
  | resign free => exact .inl ⟨rfl,kept _ _ rfl⟩

/-- The n-th term that an elector draws is n, as far as a counter of 64 bits goes. -/
theorem run_terms (ident : Identity ι) (run : Run (step ident) (initial lease tmp now) past s) (e : ι) :
    termsOf past e = (List.range (termsOf past e).length).map (fun k => (k + 1) % 2^64) ∧
    (s.elector e).term = (termsOf past e).length % 2^64 := by
  induction run with
  | nil => exact ⟨rfl,rfl⟩
  | @snoc past s ev s' _ taken ih =>
    rcases steps_term ident (step_steps ident s s' ev taken) with ⟨none_,same⟩ | ⟨x,o,drew,counters⟩
    · have terms : termsOf (past ++ [⟨s,ev,s'⟩]) e = termsOf past e := by simp [termsOf_snoc,none_]
      rw [terms,same]
      exact ih
    · by_cases here : x = e
      · subst here
        have terms : termsOf (past ++ [⟨s,ev,s'⟩]) x = termsOf past x ++ [((s.elector x).term + 1) % 2^64] := by
          simp [termsOf_snoc,drew]
        have next : ((s.elector x).term + 1) % 2^64 = ((termsOf past x).length + 1) % 2^64 := by
          rw [ih.2]
          omega
        have length : (termsOf (past ++ [⟨s,ev,s'⟩]) x).length = (termsOf past x).length + 1 := by simp [terms]
        refine ⟨?_,?_⟩
        · rw [length,List.range_succ,List.map_append,← ih.1,terms,next]
          rfl
        · rw [counters,if_pos rfl,length,next]
      · have terms : termsOf (past ++ [⟨s,ev,s'⟩]) e = termsOf past e := by simp [termsOf_snoc,drew,here]
        rw [terms,counters,if_neg (Ne.symm here)]
        exact ih

/-- Every stamped call, and every announcement in an elector, has its term from a draw of its
own. -/
structure Announced (past : List (Taken (State ι) (Event ι))) (s : State ι) : Prop where
  stamped : ∀ o term, s.phase o = .stamped term → ∃ x, s.caller o = some x ∧ (x,o,term) ∈ draws past
  held : ∀ x o a, (s.elector x).held = some (o,a) → (x,o,a.term) ∈ draws past

omit [DecidableEq ι] in
theorem Announced.drew (announced : Announced past s) (caller : s.caller o = some x)
    (phase : s.phase o = .stamped term) : (x,o,term) ∈ draws past := by
  obtain ⟨y,caller',member⟩ := announced.stamped o term phase
  obtain rfl := Option.some.inj (caller.symm.trans caller')
  exact member

theorem steps_announced (ident : Identity ι) (announced : Announced past s) (steps : Steps ident s e s') :
    Announced (past ++ [⟨s,e,s'⟩]) s' := by
  have old (d) (member : d ∈ draws past) : d ∈ draws (past ++ [⟨s,e,s'⟩]) := by
    rw [draws_snoc]
    exact List.mem_append_left _ member
  have stamped (o term) (phase : s.phase o = .stamped term) :=
    (announced.stamped o term phase).imp fun _ known => And.imp_right (old _) known
  have held (x o a) (has : (s.elector x).held = some (o,a)) := old _ (announced.held x o a has)
  -- a phase that is not a stamp, and an elector that got nothing new
  have phased (o : String) (p : Phase) (plain : ∀ term, p ≠ .stamped term) (o' : String) (term : Nat)
      (phase : Function.update s.phase o p o' = .stamped term) :
      ∃ x, s.caller o' = some x ∧ (x,o',term) ∈ draws (past ++ [⟨s,e,s'⟩]) := by
    rcases update_cases (· = Phase.stamped term) phase with ⟨_,new⟩ | ⟨_,before⟩
    · exact absurd new (plain term)
    · exact stamped o' term before
  have holding (x : ι) (new : Elector)
      (known : ∀ o a, new.held = some (o,a) → (x,o,a.term) ∈ draws (past ++ [⟨s,e,s'⟩])) (y : ι) (o a)
      (has : (Function.update s.elector x new y).held = some (o,a)) :
      (y,o,a.term) ∈ draws (past ++ [⟨s,e,s'⟩]) := by
    rcases update_cases (fun el : Elector => el.held = some (o,a)) has with ⟨rfl,new⟩ | ⟨_,before⟩
    · exact known o a new
    · exact held y o a before
  cases steps with
  | underneath => exact ⟨stamped,held⟩
  | looks => exact ⟨stamped,held⟩
  | @tryAcquire o ttlMs lease x idle =>
    refine ⟨?_,held⟩
    intro o' term phase
    rcases update_cases (· = Phase.stamped term) phase with ⟨_,new⟩ | ⟨other,before⟩
    · contradiction
    · obtain ⟨y,caller,member⟩ := stamped o' term before
      exact ⟨y,by simpa [other] using caller,member⟩
  | @stamp o x term caller phase _ drew =>
    have new : (x,o,term) ∈ draws (past ++ [⟨s,.stamp o,
        (s.setElector x { s.elector x with term := term }).setPhase o (.stamped term)⟩]) := by
      rw [draws_snoc]
      apply List.mem_append_right
      simp [drawn,caller,drew]
    refine ⟨?_,holding x _ fun o a has => held x o a has⟩
    intro o' term' phase'
    rcases update_cases (· = Phase.stamped term') phase' with ⟨rfl,same⟩ | ⟨_,before⟩
    · obtain rfl := Phase.stamped.inj same
      exact ⟨x,caller,new⟩
    · exact stamped o' term' before
  | @store o x term caller phase =>
    refine ⟨phased o _ (by simp),holding x _ ?_⟩
    intro o' a has
    obtain ⟨rfl,rfl⟩ := Prod.mk.inj (Option.some.inj has)
    exact old _ (announced.drew caller phase)
  | @replace o x term before was lease caller phase =>
    refine ⟨phased o _ (by simp),holding x _ ?_⟩
    intro o' a has
    obtain ⟨rfl,rfl⟩ := Prod.mk.inj (Option.some.inj has)
    exact old _ (announced.drew caller phase)
  | @unlock o x old caller => exact ⟨phased o _ (by simp),holding x _ fun o a has => held x o a has⟩
  | @abandon o lease => exact ⟨phased o _ (by simp),held⟩
  | @resign x o was lease => exact ⟨stamped,holding x _ (by simp)⟩

theorem run_announced (ident : Identity ι) (run : Run (step ident) (initial lease tmp now) past s) :
    Announced past s := by
  induction run with
  | nil => exact ⟨by simp [initial],by simp [initial]⟩
  | snoc _ taken ih => exact steps_announced ident ih (step_steps ident _ _ _ taken)

/-- The terms that one elector draws, one for each lease it acquires, count from 1 and so strictly
increase, and each of its announcements carries the term that its own call drew. -/
theorem terms_increase (ident : Identity ι) (lease tmp : Lease.File) (now : Nat)
    (past : List (Taken (State ι) (Event ι))) (s : State ι)
    (run : Run (step ident) (initial lease tmp now) past s) (e : ι) (few : (termsOf past e).length < 2^64) :
    termsOf past e = List.range' 1 (termsOf past e).length ∧ (termsOf past e).Pairwise (· < ·) ∧
    ∀ o a, (s.elector e).held = some (o,a) → (e,o,a.term) ∈ draws past := by
  have counted : termsOf past e = List.range' 1 (termsOf past e).length := by
    refine (run_terms ident run e).1.trans ?_
    rw [List.range'_eq_map_range]
    refine List.map_congr_left fun i member => ?_
    have low := List.mem_range.mp member
    rw [Nat.mod_eq_of_lt (by omega),Nat.add_comm]
  refine ⟨counted,?_,(run_announced ident run).held e⟩
  rw [counted]
  exact List.pairwise_lt_range'

def leads (e : Nat) (o : String) : List (Event Nat) :=
  [.tryAcquire e o 1000] ++ List.replicate 6 (.go o .ok) ++ [.stamp o,.store o]

def resigns (e : Nat) (o : String) : List (Event Nat) :=
  [.resign e,.go o .ok,.go o .ok,.go o .ok]

def identity : Identity Nat := fun e => ("device-a",if e = 0 then "leader-A" else "leader-B")

/-- One elector leads twice, with another in between. -/
theorem terms_increase_again : ∃ past, ∃ s : State Nat,
    Run (step identity) (initial .absent .absent 5000) past s ∧ termsOf past 0 = [1,2] ∧
    (s.elector 0).held = some ("pid7-2-5000",⟨"device-a","leader-A",2,"epoch:5",1⟩) ∧
    termsOf past 0 = List.range' 1 2 ∧ (termsOf past 0).Pairwise (· < ·) := by
  obtain ⟨past,s,run,terms,held⟩ := exists_run (step identity) (initial .absent .absent 5000)
    (leads 0 "pid7-0-5000" ++ resigns 0 "pid7-0-5000" ++ leads 1 "pid8-0-5000" ++ resigns 1 "pid8-0-5000" ++
      leads 0 "pid7-2-5000")
    (fun past s => termsOf past 0 = [1,2] ∧
      (s.elector 0).held = some ("pid7-2-5000",⟨"device-a","leader-A",2,"epoch:5",1⟩)) (by decide +kernel)
  obtain ⟨counted,increase,_⟩ := terms_increase identity .absent .absent 5000 past s run 0 (by simp [terms])
  rw [terms] at counted
  exact ⟨past,s,run,terms,held,terms ▸ counted,increase⟩

/-- The second leader's term is no higher than the first's. -/
theorem terms_not_fencing : ¬ ∀ (ident : Identity Nat) lease tmp now past s,
    Run (step ident) (initial lease tmp now) past s → ((draws past).map fun d => d.2.2).Pairwise (· < ·) := by
  intro increase
  obtain ⟨past,s,run,terms⟩ := exists_run (step identity) (initial .absent .absent 5000)
    (leads 0 "pid7-0-5000" ++ resigns 0 "pid7-0-5000" ++ leads 1 "pid8-0-5000")
    (fun past _ => (draws past).map (fun d => d.2.2) = [1,1]) (by decide +kernel)
  have ordered := increase identity .absent .absent 5000 past s run
  rw [terms] at ordered
  simp at ordered

end Malkuth.Leader
