import Malkuth.Supervise

/-! The crash budget of `rate_limited`. Its stamp list forgets, so it is followed along
a run together with the list of all admitted restarts. The test compares `len() as u32`
with `max_restarts`; the cast only matters at the largest `max_restarts`, where the
comparison can never succeed. -/
namespace Malkuth.Supervise

open Malkuth.Fleet Malkuth.Lifecycle Transition SlidingWindow

/-- A call of `rate_limited` that returns `false`, and when it read the clock. -/
def admission (cfg : Config) (t : Taken World Event) : Option Nat :=
  if t.event = .act .limit ∧
      tripped cfg (push cfg.window t.pre.now t.pre.worker.restartTimes) = false then
    some t.pre.now else none

def admissions (cfg : Config) (past : List (Taken World Event)) : List Nat :=
  past.filterMap (admission cfg)

/-- An operator restart leaves the stamps alone and reaches the next loop head
without asking the limiter. -/
def Exempt (t : Taken World Event) : Prop :=
  t.event = .act .restartSignalBranch ∨ t.pre.worker.point.Operator →
    t.post.worker.restartTimes = t.pre.worker.restartTimes ∧
    (t.post.worker.point.Operator ∨ t.post.worker.point = .loopHead)

/-- Admitted restarts are spread out, and operator restarts are no part of it. -/
def CrashBudget (cfg : Config) (past : List (Taken World Event)) : Prop :=
  Spaced cfg.window cfg.maxRestarts (admissions cfg past) ∧ ∀ t ∈ past, Exempt t

theorem step_exempt (cfg : Config) (t : Taken World Event)
    (taken : step cfg t.pre t.event = some t.post) : Exempt t := by
  intro operator
  obtain ⟨s,e,s'⟩ := t
  rcases step_cases cfg s s' e taken with ⟨a,w,rfl,acts,rfl⟩ | outside
  · cases acts
    case restartSignalBranch here wired received => exact ⟨rfl,.inl trivial⟩
    case stopReaped why _ _ here | stopWaitError why _ _ here => cases why <;> simp_all [Point.Operator,Worker.stopped]
    case stopTimeout why _ here late => cases why <;> simp_all [Point.Operator]
    all_goals simp_all [Point.Operator]
  · have foreign := outside.foreign
    refine ⟨outside.restartTimes,?_⟩
    simp only [outside.point]
    rcases operator with event | path
    · exact absurd event (foreign _)
    · exact .inl path

def Point.Over : Point → Prop
  | .cooling _ | .finishing | .returned _ => True
  | _ => False

/-- A step admits one restart at the present time, or leaves the stamps alone unless
the worker is over. -/
theorem step_admission (cfg : Config) (s : World) (e : Event) (s' : World)
    (taken : step cfg s e = some s') :
    (admission cfg ⟨s,e,s'⟩ = some s.now ∧ s'.now = s.now ∧ ¬ s.worker.point.Over ∧
      tripped cfg (push cfg.window s.now s.worker.restartTimes) = false ∧
      s'.worker.restartTimes = push cfg.window s.now s.worker.restartTimes) ∨
    (admission cfg ⟨s,e,s'⟩ = none ∧ s.now ≤ s'.now ∧
      (¬ s'.worker.point.Over → ¬ s.worker.point.Over ∧ s'.worker.restartTimes = s.worker.restartTimes)) := by
  rcases step_cases cfg s s' e taken with ⟨a,w,rfl,acts,rfl⟩ | outside
  · cases acts
    case respawned here room => exact .inl ⟨by simp [admission,room],rfl,by simp [here,Point.Over],room,rfl⟩
    case restarted here room => exact .inl ⟨by simp [admission,room],rfl,by simp [here,Point.Over],room,rfl⟩
    case tripped here full => exact .inr ⟨by simp [admission,full],Nat.le_refl _,by simp [Point.Over]⟩
    case stopReaped why _ _ here | stopWaitError why _ _ here =>
      cases why <;> exact .inr ⟨rfl,Nat.le_refl _,by simp [Point.Over,Worker.stopped,here]⟩
    all_goals
      rename_i here
      exact .inr ⟨by simp [admission],Nat.le_refl _,by simp_all [Point.Over]⟩
  · have foreign := outside.foreign
    refine .inr ⟨by simp [admission,foreign],outside.now,?_⟩
    rw [outside.point]
    exact fun still => ⟨still,outside.restartTimes⟩

theorem admissions_snoc (cfg : Config) (past : List (Taken World Event)) (t) :
    admissions cfg (past ++ [t]) = admissions cfg past ++ (admission cfg t).toList := by
  cases found : admission cfg t <;> simp [admissions,found]

theorem admissions_sorted (cfg : Config) (run : Run (step cfg) (initial now) past s) :
    (admissions cfg past).Pairwise (· ≤ ·) ∧ ∀ a ∈ admissions cfg past, a ≤ s.now := by
  induction run with
  | nil => simp [admissions]
  | @snoc past s e s' _ taken ih =>
    rw [admissions_snoc]
    rcases step_admission cfg s e s' taken with ⟨found,same,_⟩ | ⟨none,later,_⟩
    · rw [found,same]
      refine ⟨List.pairwise_append.mpr ⟨ih.1,by simp,?_⟩,?_⟩
      · intro a old b new
        obtain rfl : b = s.now := by simpa using new
        exact ih.2 a old
      · intro a member
        rcases List.mem_append.mp member with old | new
        · exact ih.2 a old
        · exact Nat.le_of_eq (by simpa using new)
    · rw [none]
      simp only [Option.toList_none,List.append_nil]
      exact ⟨ih.1,fun a member => Nat.le_trans (ih.2 a member) later⟩

/-- The kept stamps are the admitted restarts of the window, and few enough that
their number is its own `u32`. -/
structure Budgeted (cfg : Config) (past : List (Taken World Event)) (s : World) : Prop where
  spaced : Spaced cfg.window cfg.maxRestarts (admissions cfg past)
  tracks : ¬ s.worker.point.Over → Tracks cfg.window s.now s.worker.restartTimes (admissions cfg past)
  short : ¬ s.worker.point.Over → s.worker.restartTimes.length ≤ cfg.maxRestarts

theorem prune_length (window now : Nat) (stamps : List Nat) :
    (prune window now stamps).length ≤ stamps.length :=
  List.length_filter_le ..

/-- An admission found room: with the new stamp there are at most `max_restarts`. -/
theorem room_of_admitted (cfg : Config) (now : Nat) (times : List Nat) (small : cfg.maxRestarts + 1 < 2^32)
    (short : times.length ≤ cfg.maxRestarts) (room : tripped cfg (push cfg.window now times) = false) :
    (prune cfg.window now times).length + 1 ≤ cfg.maxRestarts := by
  have kept := prune_length cfg.window now times
  have length : (push cfg.window now times).length = (prune cfg.window now times).length + 1 := by
    simp [push]
  have count : (push cfg.window now times).length % 2^32 ≤ cfg.maxRestarts := by
    simpa [tripped] using room
  rw [Nat.mod_eq_of_lt (by omega)] at count
  omega

theorem run_budgeted (cfg : Config) (small : cfg.maxRestarts + 1 < 2^32)
    (run : Run (step cfg) (initial now) past s) : Budgeted cfg past s := by
  induction run with
  | nil =>
    refine ⟨?_,?_,by simp [initial,Worker.initial]⟩
    · intro i a b first; simp [admissions] at first
    · intro _ later _; simp [initial,Worker.initial,admissions]
  | @snoc past s e s' before taken ih =>
    have order := admissions_sorted cfg before
    rcases step_admission cfg s e s' taken with ⟨found,same,open_,room,times⟩ | ⟨none,later,kept⟩
    · have few := room_of_admitted cfg s.now s.worker.restartTimes small (ih.short open_) room
      have tracks := ih.tracks open_
      have inWindow : (prune cfg.window s.now (admissions cfg past)).length < cfg.maxRestarts := by
        rw [← tracks s.now (Nat.le_refl _)]
        omega
      constructor
      · rw [admissions_snoc,found]
        exact ih.spaced.snoc order.1 order.2 inWindow
      · intro _
        rw [admissions_snoc,found,same,times]
        exact tracks.push (Nat.le_refl _)
      · intro _
        rw [times]
        simpa [push] using few
    · have unchanged : admissions cfg (past ++ [⟨s,e,s'⟩]) = admissions cfg past := by
        rw [admissions_snoc,none]; simp
      constructor
      · rw [unchanged]; exact ih.spaced
      · intro open_
        obtain ⟨before,times⟩ := kept open_
        rw [unchanged,times]
        exact (ih.tracks before).mono later
      · intro open_
        obtain ⟨before,times⟩ := kept open_
        rw [times]
        exact ih.short before

theorem spaced_zero (events : List Nat) (count : Nat) (sorted : events.Pairwise (· ≤ ·)) :
    Spaced 0 count events := by
  intro i a b first last
  obtain ⟨boundA,rfl⟩ := List.getElem?_eq_some_iff.mp first
  obtain ⟨boundB,rfl⟩ := List.getElem?_eq_some_iff.mp last
  rcases Nat.eq_zero_or_pos count with rfl | positive
  · simp
  · exact List.pairwise_iff_getElem.mp sorted i (i + count) boundA boundB (by omega)

theorem step_act (cfg : Config) (acted : w.act cfg now drain a = some w') :
    step cfg ⟨now,drain,w⟩ (.act a) = some ⟨now,drain,w'⟩ := by
  simp [step,acted]

/-- An iteration whose child is spawned and whose `wait` fails, under any policy, and that
the limiter admits at the present time. -/
theorem lostChild_admitted (cfg : Config) (s : World) (pid : Nat) (here : s.worker.point = .loopHead)
    (bit : s.drain.draining = false) (fresh : pid ∉ s.worker.children)
    (room : tripped cfg (push cfg.window s.now s.worker.restartTimes) = false) :
    ∃ later s', Run (step cfg) s later s' ∧ admissions cfg later = [s.now] ∧
      s'.worker.point = .loopHead ∧ s'.drain = s.drain ∧ s'.now = s.now ∧
      s'.worker.restartTimes = push cfg.window s.now s.worker.restartTimes ∧
      s'.worker.children = pid :: s.worker.children := by
  obtain ⟨now,drain,w⟩ := s
  simp only at here bit fresh room
  let spawning : Worker := { w with point := .spawning }
  let spawned : Worker := { spawning with
    child := some pid, children := pid :: w.children, point := .publishRunning }
  let running : Worker := { spawned.update (.running spawned.child none 0) with point := .selecting }
  let lost : Worker := { running with lastError := some ("wait failed: " ++ "") }.unselect.restart .ended
  let limiting : Worker := { lost.update (.restarting lost.restartCount) with point := .limiting .ended }
  let again : Worker := { limiting with restartTimes := push cfg.window now w.restartTimes }.again
  have checked : w.act cfg now drain .checkDrain = some spawning := by simp [Worker.act,here,bit,spawning]
  have started : spawning.act cfg now drain (.spawned pid) = some spawned := by
    simp [Worker.act,spawning,spawned,fresh]
  have published : spawned.act cfg now drain (.publish 0 none) = some running := rfl
  have failed : running.act cfg now drain (.waitError "") = some lost := rfl
  have counted : lost.act cfg now drain (.publish 0 none) = some limiting := rfl
  have free : tripped cfg (push cfg.window now limiting.restartTimes) = false := room
  have admitted : limiting.act cfg now drain .limit = some again := by
    change some (limiting.limit cfg now .ended) = some again
    rw [Worker.limit,free]
    rfl
  have run := (((((Run.one (step_act cfg checked)).snoc (step_act cfg started)).snoc
    (step_act cfg published)).snoc (step_act cfg failed)).snoc (step_act cfg counted)).snoc
    (step_act cfg admitted)
  refine ⟨_,_,run,?_,rfl,rfl,rfl,rfl,rfl⟩
  simp [admissions,admission,free]

/-- With the largest `max_restarts` any number of restarts is admitted at one instant. -/
theorem storm (cfg : Config) (largest : cfg.maxRestarts + 1 = 2^32) (positive : 0 < cfg.window) (n : Nat) :
    ∃ past s, Run (step cfg) (initial 0) past s ∧ admissions cfg past = List.replicate n 0 ∧
      s.worker.point = .loopHead ∧ s.drain.draining = false ∧ s.now = 0 ∧
      s.worker.restartTimes = List.replicate n 0 ∧ ∀ pid ∈ s.worker.children, pid < n := by
  induction n with
  | zero =>
    refine ⟨[⟨initial 0,.act .register,_⟩],_,Run.one rfl,?_,rfl,rfl,rfl,rfl,?_⟩
    · simp [admissions,admission]
    · simp [initial,Worker.initial]
  | succ n ih =>
    obtain ⟨past,s,run,admitted,here,bit,now,times,children⟩ := ih
    have pushed : push cfg.window s.now s.worker.restartTimes = List.replicate (n+1) 0 := by
      simp [push,prune,now,times,positive,List.replicate_succ']
    have room : tripped cfg (push cfg.window s.now s.worker.restartTimes) = false := by
      have bound := Nat.mod_lt (n+1) (y := 2^32) (by decide)
      simp only [tripped,pushed,List.length_replicate,decide_eq_false_iff_not]
      omega
    obtain ⟨later,s',run',admitted',here',drain',now',times',children'⟩ :=
      lostChild_admitted cfg s n here bit (fun member => Nat.lt_irrefl n (children n member)) room
    refine ⟨past ++ later,s',run.append run',?_,here',by rw [drain',bit],by rw [now',now],
      by rw [times',pushed],?_⟩
    · have both : admissions cfg (past ++ later) = admissions cfg past ++ admissions cfg later := by
        simp [admissions]
      rw [both,admitted,admitted',now,List.replicate_succ']
    · intro pid member
      rw [children'] at member
      rcases List.mem_cons.mp member with rfl | old
      · omega
      · have := children pid old
        omega

/-- `max_restarts + 1` restarts at one instant are over the budget. -/
theorem storm_over_budget (cfg : Config) (largest : cfg.maxRestarts + 1 = 2^32) (positive : 0 < cfg.window)
    (admitted : admissions cfg past = List.replicate (2^32) 0) : ¬ CrashBudget cfg past := by
  intro budget
  have spaced := budget.1
  rw [admitted] at spaced
  have first : (List.replicate (2^32) 0)[0]? = some 0 := by rw [List.getElem?_replicate]; simp
  have last : (List.replicate (2^32) 0)[0 + cfg.maxRestarts]? = some 0 := by
    rw [List.getElem?_replicate,if_pos (by omega)]
  have apart := spaced 0 0 0 first last
  omega

/-- The crash budget holds along every run exactly when `max_restarts` is not the largest
`u32`, or the window is empty. -/
theorem crash_budget_iff (cfg : Config) :
    (∀ now past s, Run (step cfg) (initial now) past s → CrashBudget cfg past) ↔
      cfg.maxRestarts + 1 < 2^32 ∨ cfg.window = 0 := by
  constructor
  · intro always
    by_contra outside
    obtain ⟨large,window⟩ := not_or.mp outside
    have largest : cfg.maxRestarts + 1 = 2^32 := by have := cfg.u32; omega
    have positive : 0 < cfg.window := Nat.pos_of_ne_zero window
    obtain ⟨past,s,run,admitted,_⟩ := storm cfg largest positive (2^32)
    exact storm_over_budget cfg largest positive admitted (always 0 past s run)
  · intro within now past s run
    refine ⟨?_,fun t member => step_exempt cfg t (run.enabled member)⟩
    rcases within with small | empty
    · exact (run_budgeted cfg small run).spaced
    · rw [empty]
      exact spaced_zero _ _ (admissions_sorted cfg run).1

def unlimited : Config := { api .permanent with maxRestarts := 2^32 - 1, u32 := by decide }

/-- `2^32` restarts within one instant, all admitted. -/
theorem unlimited_admits_any_storm : ∃ past s, Run (step unlimited) (initial 0) past s ∧
    admissions unlimited past = List.replicate (2^32) 0 ∧ ¬ CrashBudget unlimited past := by
  obtain ⟨past,s,run,admitted,_⟩ := storm unlimited (by decide) (by decide) (2^32)
  exact ⟨past,s,run,admitted,storm_over_budget unlimited (by decide) (by decide) admitted⟩

end Malkuth.Supervise
