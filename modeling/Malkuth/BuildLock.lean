import Malkuth.Pipeline

/-! Supervised units that share one build lock: an exclusive `flock`, which a trigger tries for
once it has passed the other guards, and which its round keeps until the loop is back at its
channel. Other programs may hold it too. A lock file that cannot be opened lets the round go on
without it. Units that end are not modelled. -/
namespace Malkuth.BuildLock

open Transition Pipeline

structure Units where
  cfg : Nat → Config
  path : String
  shared : ∀ i, (cfg i).buildLock = some path

inductive Holder where
  | unit (i : Nat)
  | other
  deriving DecidableEq, Repr

structure World where
  units : Nat → Machine
  holder : Option Holder

def initial (now : Nat) : World := ⟨fun _ => Pipeline.initial now,none⟩

inductive Event where
  | unit (i : Nat) (e : Pipeline.Event)
  /-- Another program takes the lock, and drops it. -/
  | take
  | drop

/-- The round of a trigger that has passed the guards. -/
def working (m : Machine) : Bool :=
  match m.consumer.point with
  | .receiving | .guarding _ => false
  | _ => true

def tries (cfg : Config) (m : Machine) (r : Readings) : Bool :=
  !(cfg.pauseFile.isSome && r.paused) && !m.consumer.backoff.isBlocked m.now

/-- `flock` without blocking gives out a lock that is free; it may fail for other reasons than a
holder, and any failure of it is `busy`. -/
def acquireBuildLock (i : Nat) (holder : Option Holder) : LockOutcome → Option (Option Holder)
  | .acquired => if holder = none then some (some (.unit i)) else none
  | .busy | .disabled => some holder

/-- The lock after a step of a unit: tried for at the guards, dropped with the guard's value at
the end of a round. -/
def lockAfter (cfg : Config) (i : Nat) (m m' : Machine) (holder : Option Holder) : Pipeline.Event → Option (Option Holder)
  | .guard r => if tries cfg m r then acquireBuildLock i holder r.lock else some holder
  | _ => some (if working m' = false ∧ holder = some (.unit i) then none else holder)

def step (units : Units) (w : World) : Event → Option World
  | .unit i e =>
    (Pipeline.step (units.cfg i) (w.units i) e).bind fun m =>
      (lockAfter (units.cfg i) i (w.units i) m w.holder e).map fun holder => ⟨Function.update w.units i m,holder⟩
  | .take => if w.holder = none then some { w with holder := some .other } else none
  | .drop => if w.holder = some .other then some { w with holder := none } else none

abbrev History := List (Taken World Event)

/-- The unit's round was let in by a lock file that could not be opened, and is not over yet. -/
def Unlocked (past : History) (i : Nat) : Prop :=
  ∃ before t after r, past = before ++ t :: after ∧ t.event = .unit i (.guard r) ∧ r.lock = .disabled ∧
    ∀ u ∈ t :: after, working (u.post.units i) = true

theorem Unlocked.snoc (unlocked : Unlocked past i) (t : Taken World Event) (still : working (t.post.units i) = true) :
    Unlocked (past ++ [t]) i := by
  obtain ⟨before,v,after,r,rfl,guard,disabled,since⟩ := unlocked
  refine ⟨before,v,after ++ [t],r,by simp,guard,disabled,fun u member => ?_⟩
  rw [← List.cons_append,List.mem_append] at member
  rcases member with early | last
  · exact since u early
  · rwa [List.mem_singleton.mp last]

/-- At the guards a round starts if they let the trigger pass and the lock is not taken. -/
theorem guard_starts (units : Units) (i : Nat) (m m' : Machine) (r : Readings)
    (taken : Pipeline.step (units.cfg i) m (.guard r) = some m') :
    working m = false ∧ (working m' = true ↔ tries (units.cfg i) m r = true ∧ r.lock ≠ .busy) := by
  have passes : m.consumer.skips (units.cfg i) m.now r = false ↔ tries (units.cfg i) m r = true ∧ r.lock ≠ .busy := by
    unfold Consumer.skips tries
    rw [units.shared i]
    cases (units.cfg i).pauseFile.isSome && r.paused <;> cases m.consumer.backoff.isBlocked m.now <;> simp
  rw [← passes]
  cases step_steps (units.cfg i) m m' _ taken with
  | skipped here skips => simp [working,here,Machine.goto,skips]
  | started here started_ =>
    refine ⟨by simp [working,here],?_⟩
    rw [started_]
    simp only [iff_true]
    unfold working Machine.goto Point.run
    cases (units.cfg i).stages with
    | cons => rfl
    | nil => cases (units.cfg i).install <;> rfl

/-- Nothing else starts one. -/
theorem step_starts (units : Units) (i : Nat) (m m' : Machine) (e : Pipeline.Event)
    (taken : Pipeline.step (units.cfg i) m e = some m') (now : working m' = true) (quiet : ∀ r, e ≠ .guard r) :
    working m = true := by
  cases step_steps (units.cfg i) m m' e taken with
  | started | skipped => exact absurd rfl (quiet _)
  | received | restarted => simp [working,Machine.goto] at now
  | staged here | stageFailed here | installed here | installFailed here | finished here => simp [working,here]
  | _ => exact now

structure Books (past : History) (w : World) : Prop where
  held : ∀ i, w.holder = some (.unit i) → working (w.units i) = true
  guarded : ∀ i, working (w.units i) = true → w.holder = some (.unit i) ∨ Unlocked past i

theorem acquire_cases (acquired : acquireBuildLock i holder outcome = some holder') :
    outcome = .acquired ∧ holder = none ∧ holder' = some (.unit i) ∨
      outcome ≠ .acquired ∧ holder' = holder := by
  cases outcome with
  | acquired =>
    simp only [acquireBuildLock,Option.ite_none_right_eq_some,Option.some.injEq] at acquired
    exact .inl ⟨rfl,acquired.1,acquired.2.symm⟩
  | busy | disabled => exact .inr ⟨by simp,(Option.some.inj acquired).symm⟩

/-- What a step of a unit does to the lock. -/
theorem lockAfter_cases (after : lockAfter cfg i m m' holder e = some holder') :
    (∃ r, e = .guard r ∧ tries cfg m r = true ∧ r.lock = .acquired ∧ holder = none ∧ holder' = some (.unit i)) ∨
    (working m' = false ∧ holder = some (.unit i) ∧ holder' = none) ∨
    holder' = holder ∧ (∀ r, e = .guard r → tries cfg m r = true → r.lock ≠ .acquired) ∧
      ((∀ r, e ≠ .guard r) → working m' = true ∨ holder ≠ some (.unit i)) := by
  have plain (quiet : ∀ r, e ≠ .guard r)
      (same : (if working m' = false ∧ holder = some (.unit i) then none else holder) = holder') :
      (working m' = false ∧ holder = some (.unit i) ∧ holder' = none) ∨
      holder' = holder ∧ (∀ r, e = .guard r → tries cfg m r = true → r.lock ≠ .acquired) ∧
        ((∀ r, e ≠ .guard r) → working m' = true ∨ holder ≠ some (.unit i)) := by
    split at same
    next ended => exact .inl ⟨ended.1,ended.2,same.symm⟩
    next going =>
      refine .inr ⟨same.symm,fun r guard => absurd guard (quiet r),fun _ => ?_⟩
      rcases not_and_or.mp going with busy | other
      · exact .inl (by simpa using busy)
      · exact .inr other
  cases e with
  | guard r =>
    simp only [lockAfter] at after
    split at after
    next tried =>
      rcases acquire_cases after with ⟨got,free,own⟩ | ⟨missed,same⟩
      · exact .inl ⟨r,rfl,tried,got,free,own⟩
      · refine .inr (.inr ⟨same,?_,fun quiet => absurd rfl (quiet r)⟩)
        rintro r' ⟨⟩ _
        exact missed
    next untried =>
      refine .inr (.inr ⟨(Option.some.inj after).symm,?_,fun quiet => absurd rfl (quiet r)⟩)
      rintro r' ⟨⟩ tried
      exact absurd tried untried
  | _ => exact .inr (plain (by simp) (Option.some.inj after))

theorem Books.unit (units : Units) (books : Books past w) (i : Nat) (e : Pipeline.Event) (m : Machine) (holder : Option Holder)
    (taken : Pipeline.step (units.cfg i) (w.units i) e = some m)
    (after : lockAfter (units.cfg i) i (w.units i) m w.holder e = some holder) :
    Books (past ++ [⟨w,.unit i e,⟨Function.update w.units i m,holder⟩⟩]) ⟨Function.update w.units i m,holder⟩ := by
  have cases_ := lockAfter_cases after
  have others : ∀ j, j ≠ i → Function.update w.units i m j = w.units j := fun j other => Function.update_of_ne other ..
  constructor
  · intro j own
    by_cases mine : j = i
    · subst mine
      have now : working m = true := by
        rcases cases_ with ⟨r,rfl,tried,got,_,_⟩ | ⟨_,_,gone⟩ | ⟨same,_,kept⟩
        · exact (guard_starts units j _ m r taken).2.mpr ⟨tried,by simp [got]⟩
        · simp [gone] at own
        · have before := books.held j (same.symm.trans own)
          by_cases guard : ∃ r, e = .guard r
          · obtain ⟨r,rfl⟩ := guard
            simp [(guard_starts units j _ m r taken).1] at before
          · push Not at guard
            exact (kept guard).resolve_right fun none_ => none_ (same.symm.trans own)
      simpa using now
    · change working (Function.update w.units i m j) = true
      rw [others j mine]
      rcases cases_ with ⟨_,_,_,_,_,other⟩ | ⟨_,_,gone⟩ | ⟨same,_,_⟩
      · simp [other,Ne.symm mine] at own
      · simp [gone] at own
      · exact books.held j (same.symm.trans own)
  · intro j busy
    by_cases mine : j = i
    · subst mine
      have now : working m = true := by simpa using busy
      by_cases guard : ∃ r, e = .guard r
      · obtain ⟨r,rfl⟩ := guard
        obtain ⟨tried,free⟩ := (guard_starts units j _ m r taken).2.mp now
        rcases cases_ with ⟨_,_,_,_,_,own⟩ | ⟨ended,_,_⟩ | ⟨_,missed,_⟩
        · exact .inl own
        · simp [ended] at now
        · refine .inr ⟨past,_,[],r,rfl,rfl,?_,?_⟩
          · cases lock : r.lock with
            | acquired => exact absurd lock (missed r rfl tried)
            | busy => exact absurd lock free
            | disabled => rfl
          · intro u member
            rw [List.mem_singleton.mp member]
            exact busy
      · push Not at guard
        rcases books.guarded j (step_starts units j _ m e taken now guard) with own | unlocked
        · rcases cases_ with ⟨_,_,_,_,free,_⟩ | ⟨ended,_,_⟩ | ⟨same,_,_⟩
          · simp [free] at own
          · simp [ended] at now
          · exact .inl (same.trans own)
        · exact .inr (unlocked.snoc _ busy)
    · change working (Function.update w.units i m j) = true at busy
      rw [others j mine] at busy
      rcases books.guarded j busy with own | unlocked
      · rcases cases_ with ⟨_,_,_,_,free,_⟩ | ⟨_,other,_⟩ | ⟨same,_,_⟩
        · simp [free] at own
        · simp [other,Ne.symm mine] at own
        · exact .inl (same.trans own)
      · refine .inr (unlocked.snoc _ ?_)
        simpa [others j mine] using busy

theorem Books.snoc (units : Units) (books : Books past w) (taken : step units w e = some w') :
    Books (past ++ [⟨w,e,w'⟩]) w' := by
  cases e with
  | unit i e =>
    obtain ⟨m,moved,locked⟩ := Option.bind_eq_some_iff.mp taken
    obtain ⟨holder,after,rfl⟩ := Option.map_eq_some_iff.mp locked
    exact books.unit units i e m holder moved after
  | take =>
    simp only [step,Option.ite_none_right_eq_some,Option.some.injEq] at taken
    obtain ⟨free,rfl⟩ := taken
    refine ⟨by simp,fun i busy => .inr ?_⟩
    exact ((books.guarded i busy).resolve_left (by simp [free])).snoc _ busy
  | drop =>
    simp only [step,Option.ite_none_right_eq_some,Option.some.injEq] at taken
    obtain ⟨other,rfl⟩ := taken
    refine ⟨by simp,fun i busy => .inr ?_⟩
    exact ((books.guarded i busy).resolve_left (by simp [other])).snoc _ busy

theorem run_books (units : Units) (run : Run (step units) (initial now) past w) : Books past w := by
  induction run with
  | nil => exact ⟨by simp [initial],by simp [initial,Pipeline.initial,working]⟩
  | snoc _ taken ih => exact ih.snoc units taken

/-- A command that ends was one of a round. -/
theorem ran_working (units : Units) (i : Nat) (taken : step units w (.unit i (.ran result)) = some w') :
    working (w.units i) = true := by
  obtain ⟨m,moved,_⟩ := Option.bind_eq_some_iff.mp taken
  cases step_steps _ _ _ _ moved with
  | staged here | stageFailed here | installed here | installFailed here => simp [working,here]

/-- The unit that holds the lock is in a round; a unit in a round holds the lock, or could not open
its file; so of two units in a round one could not, and between commands of two units the round of
the first ends, unless one of the two could not. -/
theorem builds_apart (units : Units) (run : Run (step units) (initial now) past w) :
    (∀ i, w.holder = some (.unit i) → working (w.units i) = true) ∧
    (∀ i, working (w.units i) = true → w.holder = some (.unit i) ∨ Unlocked past i) ∧
    (∀ i j, i ≠ j → working (w.units i) = true → working (w.units j) = true → Unlocked past i ∨ Unlocked past j) ∧
    ∀ before t between u after i j first second, past = before ++ t :: between ++ u :: after →
      t.event = .unit i (.ran first) → u.event = .unit j (.ran second) → i ≠ j →
      (∃ v ∈ t :: between, working (v.pre.units i) = true ∧ working (v.post.units i) = false) ∨
        Unlocked (before ++ t :: between) i ∨ Unlocked (before ++ t :: between) j := by
  have apart {past w} (run : Run (step units) (initial now) past w) : ∀ i j, i ≠ j → working (w.units i) = true →
      working (w.units j) = true → Unlocked past i ∨ Unlocked past j := by
    intro i j other busy busy'
    have books := run_books units run
    rcases books.guarded i busy with own | unlocked
    · rcases books.guarded j busy' with own' | unlocked
      · simp [own,other] at own'
      · exact .inr unlocked
    · exact .inl unlocked
  have books := run_books units run
  refine ⟨books.held,books.guarded,apart run,?_⟩
  rintro before t between u after i j first second rfl tRan uRan other
  obtain ⟨reached,taken',_⟩ := run.split
  obtain ⟨_,taken,middle⟩ := reached.split
  have whole : Run (step units) t.pre (t :: between) u.pre := middle.cons taken
  rw [tRan] at taken
  rw [uRan] at taken'
  have busy := ran_working units i taken
  have busy' := ran_working units j taken'
  by_cases still : working (u.pre.units i) = true
  · exact .inr (apart reached i j other still busy')
  · obtain ⟨v,member,on,off⟩ := whole.gives_up (P := fun w => working (w.units i) = true) busy still
    exact .inl ⟨v,member,on,by simpa using off⟩

def sameTree : Units :=
  ⟨fun i => ⟨[⟨none,"cargo build"⟩],none,["src"],none,none,some "/run/build.lock",none,i + 1⟩,"/run/build.lock",fun _ => rfl⟩

def opens (lock : LockOutcome) : Readings := ⟨false,lock,id,∅⟩

/-- The second unit builds at the same time as the first, without the lock. -/
theorem builds_apart_unlocked : ∃ past w, Run (step sameTree) (initial 0) past w ∧
    w.holder = some (.unit 0) ∧ working (w.units 1) = true ∧ Unlocked past 1 := by
  obtain ⟨past,w,run,own,first,second⟩ := exists_run (step sameTree) (initial 0)
    [.unit 0 (.files ["src/lib.rs"]),.unit 1 (.files ["src/lib.rs"]),.unit 0 .recv,.unit 1 .recv,
      .unit 0 (.guard (opens .acquired)),.unit 1 (.guard (opens .disabled)),.unit 0 (.ran (.ok ()))]
    (fun _ w => w.holder = some (.unit 0) ∧ working (w.units 0) = true ∧ working (w.units 1) = true) (by decide +kernel)
  have held : w.holder ≠ some (.unit 1) := by simp [own]
  exact ⟨past,w,run,own,second,((builds_apart sameTree run).2.1 1 second).resolve_left held⟩

end Malkuth.BuildLock
