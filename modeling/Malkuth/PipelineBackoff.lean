import Malkuth.RollingRestart

/-! The backoff of the pipeline along a run of the loop: how long a failure holds the next
trigger off, and what a success forgets. -/
namespace Malkuth.Pipeline

open Transition Proxy

/-- The outcome a step records: whether the pipeline succeeded. -/
def outcome (t : Taken Machine Event) : Option Bool :=
  match t.event, t.pre.consumer.point with
  | .finish _, .finishing _ why => some why.isNone
  | _, _ => none

/-- The failures since the last success. -/
def streak (past : List (Taken Machine Event)) : Nat := ((past.filterMap outcome).reverse.takeWhile (!·)).length

def starts (cfg : Config) (t : Taken Machine Event) : Bool :=
  match t.event with
  | .guard r => !t.pre.consumer.skips cfg t.pre.now r
  | _ => false

theorem streak_quiet (quiet : outcome t = none) : streak (past ++ [t]) = streak past := by
  simp [streak,quiet]

theorem streak_success (success : outcome t = some true) : streak (past ++ [t]) = 0 := by
  simp [streak,success]

theorem streak_failure (past : List (Taken Machine Event)) (failure : outcome t = some false) : streak (past ++ [t]) = streak past + 1 := by
  simp [streak,failure]

/-- What a step does to the backoff. -/
theorem backoff_step (steps : Steps cfg s e s') : s'.consumer.backoff = match outcome ⟨s,e,s'⟩ with
    | some true => s.consumer.backoff.recordSuccess
    | some false => (s.consumer.backoff.recordFailure s.now).2
    | none => s.consumer.backoff := by
  cases steps with
  | @finished job why after here => cases why <;> simp [outcome,here,Consumer.finish]
  | _ => simp [outcome,Machine.goto]

theorem now_step (steps : Steps cfg s e s') : s.now ≤ s'.now := by
  cases steps <;> simp [Machine.goto]

structure Backed (failures : Nat) (b : FailureBackoff) : Prop where
  base : b.base = 30 * 1000000000
  cap : b.cap = 900 * 1000000000
  counter : b.consecutive = min failures (2^32 - 1)
  free : failures = 0 → b.blockedUntil = none

/-- The shift is held at sixteen places, the counter at its last value: neither shows. -/
theorem Backed.delay (backed : Backed k b) (now : Nat) :
    (b.recordFailure now).1 = min (900 * 1000000000) (30 * 1000000000 * 2^k) := by
  have shift : min (min (b.consecutive + 1) (2^32 - 1) - 1) 16 = min k 16 := by rw [backed.counter]; omega
  simp only [FailureBackoff.recordFailure,shift,backed.base,backed.cap,FailureBackoff.durationMax]
  rcases Nat.le_total k 16 with few | many
  · have small : 2^k ≤ 2^16 := Nat.pow_le_pow_right (by decide) few
    rw [Nat.min_eq_left few]
    omega
  · have large : 2^16 ≤ 2^k := Nat.pow_le_pow_right (by decide) many
    rw [Nat.min_eq_right many]
    omega

theorem Backed.failure (backed : Backed k b) (now : Nat) : Backed (k + 1) (b.recordFailure now).2 := by
  refine ⟨backed.base,backed.cap,?_,by simp⟩
  simp only [FailureBackoff.recordFailure,backed.counter]
  omega

theorem Backed.success (backed : Backed k b) : Backed 0 b.recordSuccess :=
  ⟨backed.base,backed.cap,by simp [FailureBackoff.recordSuccess],fun _ => rfl⟩

theorem backed_run (cfg : Config) (run : Run (step cfg) (initial now) past s) :
    Backed (streak past) s.consumer.backoff := by
  induction run with
  | nil => exact ⟨rfl,rfl,rfl,fun _ => rfl⟩
  | @snoc past s e s' _ taken ih =>
    rw [backoff_step (step_steps cfg s s' e taken)]
    cases recorded : outcome ⟨s,e,s'⟩ with
    | none => rw [streak_quiet recorded]; exact ih
    | some ok =>
      cases ok with
      | true => rw [streak_success recorded]; exact ih.success
      | false => rw [streak_failure _ recorded]; exact ih.failure s.now

/-- The points at which no pipeline is under way. -/
def Point.idle : Point → Bool
  | .receiving | .guarding _ | .restarting => true
  | _ => false

def Held (until_ : Nat) (s : Machine) : Prop :=
  until_ ≤ s.now ∨ (s.consumer.backoff.blockedUntil = some until_ ∧ s.consumer.point.idle = true)

theorem held_skips (held : Held until_ s) (passes : s.consumer.skips cfg s.now r = false) : until_ ≤ s.now := by
  rcases held with come | ⟨blocked,_⟩
  · exact come
  · have free : s.consumer.backoff.isBlocked s.now = false := by
      by_contra isBlocked
      simp [Consumer.skips,isBlocked] at passes
    simpa [FailureBackoff.isBlocked,blocked] using free

theorem held_step (held : Held until_ s) (steps : Steps cfg s e s') : Held until_ s' := by
  have later := now_step steps
  rcases id held with come | ⟨blocked,idle⟩
  · exact .inl (come.trans later)
  · cases steps with
    | started here passes =>
      have come : until_ ≤ s.now := held_skips held passes
      exact .inl come
    | staged here | stageFailed here | installed here | installFailed here | finished here =>
      rw [here] at idle
      simp [Point.idle] at idle
    | tick | probed | sent | updated | woke | files => exact .inr ⟨blocked,idle⟩
    | received here | skipped here | restarted here => exact .inr ⟨blocked,rfl⟩

theorem recordFailure_until (b : FailureBackoff) (fits : now + (b.recordFailure now).1 < instantLimit) :
    (b.recordFailure now).2.blockedUntil = some (now + (b.recordFailure now).1) := by
  simp only [FailureBackoff.recordFailure] at fits ⊢
  rw [if_pos fits]

/-- The end of a failed pipeline, with the delay it records. -/
theorem failure_held (steps : Steps cfg s e s') (failed : outcome ⟨s,e,s'⟩ = some false)
    (fits : s.now + (s.consumer.backoff.recordFailure s.now).1 < instantLimit) :
    Held (s.now + (s.consumer.backoff.recordFailure s.now).1) s' := by
  have recorded := backoff_step steps
  rw [failed] at recorded
  have blocked : s'.consumer.backoff.blockedUntil = some (s.now + (s.consumer.backoff.recordFailure s.now).1) := by
    rw [recorded]
    apply recordFailure_until
    exact fits
  refine .inr ⟨blocked,?_⟩
  cases steps with
  | @finished job why after here =>
    cases why with
    | none => simp [outcome,here] at failed
    | some why =>
      simp only [Consumer.finish]
      split <;> rfl
  | _ => simp [outcome] at failed

/-- Every run of the loop. The kth failure in a row records a delay of thirty seconds
doubled k-1 times, fifteen minutes at most; no pipeline starts before it has passed, if
its end is an instant at all; and without a failure since the last success nothing is
held off. -/
theorem backoff_law (cfg : Config) (now : Nat) (past : List (Taken Machine Event)) (s : Machine)
    (run : Run (step cfg) (initial now) past s) (before : List (Taken Machine Event))
    (t : Taken Machine Event) (later : List (Taken Machine Event)) (cut : past = before ++ t :: later) :
    (outcome t = some false →
      1 ≤ streak (before ++ [t]) ∧
      (t.pre.consumer.backoff.recordFailure t.pre.now).1 =
        min (900 * 1000000000) (30 * 1000000000 * 2^(streak (before ++ [t]) - 1)) ∧
      t.post.consumer.backoff = (t.pre.consumer.backoff.recordFailure t.pre.now).2 ∧
      t.post.consumer.backoff.consecutive = min (streak (before ++ [t])) (2^32 - 1) ∧
      (t.pre.now + (t.pre.consumer.backoff.recordFailure t.pre.now).1 < instantLimit → ∀ u ∈ later,
        starts cfg u = true → t.pre.now + (t.pre.consumer.backoff.recordFailure t.pre.now).1 ≤ u.pre.now)) ∧
    (streak before = 0 → t.pre.consumer.backoff.isBlocked t.pre.now = false) := by
  subst cut
  obtain ⟨front,taken,rest⟩ := run.split
  have steps := step_steps cfg _ _ _ taken
  have backed := backed_run cfg front
  have recorded := backoff_step steps
  refine ⟨?_,?_⟩
  · intro failed
    have one := streak_failure before failed
    have counted := backed_run cfg (front.snoc taken)
    rw [failed] at recorded
    refine ⟨by omega,?_,recorded,counted.counter,?_⟩
    · rw [one,Nat.add_sub_cancel]
      exact backed.delay t.pre.now
    · intro fits u member passes
      obtain ⟨between,upTo,_,_⟩ := rest.upTo member
      have held := upTo.always (failure_held steps failed fits)
        fun s e s' held taken => held_step held (step_steps cfg s s' e taken)
      cases event : u.event with
      | guard r => exact held_skips held (by simpa [starts,event] using passes)
      | _ => simp [starts,event] at passes
  · intro none_
    simp [FailureBackoff.isBlocked,backed.free none_]

/-- A first failure, and a trigger thirty seconds later that passes. -/
theorem backoff_law_first : ∃ before t later s u, Run (step (deploy 1)) (initial 0) (before ++ t :: later) s ∧
    outcome t = some false ∧ u ∈ later ∧ starts (deploy 1) u = true ∧
    (t.pre.consumer.backoff.recordFailure t.pre.now).1 = 30 * 1000000000 ∧
    t.pre.now + 30 * 1000000000 ≤ u.pre.now := by
  obtain ⟨before,t,later,s,run,_,failed,first,fits,u,member,passes⟩ := exists_run_cut (step (deploy 1)) (initial 0)
    [.files ["src/main.ts"],.recv,.guard (readings 1),.ran (.error (.exit "1"))] (.finish ∅)
    [.tick (30 * 1000000000),.files ["src/main.ts"],.recv,.guard (readings 1)]
    (fun before t later _ => outcome t = some false ∧ streak (before ++ [t]) = 1 ∧ t.pre.now < 1 ∧
      ∃ u ∈ later, starts (deploy 1) u = true) (by decide +kernel)
  obtain ⟨law,_⟩ := backoff_law (deploy 1) 0 _ s run before t later rfl
  obtain ⟨_,delay,_,_,held⟩ := law failed
  rw [first] at delay
  have short : (t.pre.consumer.backoff.recordFailure t.pre.now).1 = 30 * 1000000000 := by rw [delay]; decide
  rw [short] at held
  have room : (1 : Nat) + 30 * 1000000000 < instantLimit := by decide
  exact ⟨before,t,later,s,u,run,failed,member,passes,short,held (by omega) u member passes⟩

/-- At the end of time a failure holds nothing off: the delay ends at no instant. -/
theorem last_instant_not_held : ¬ ∀ (cfg : Config) now past s, Run (step cfg) (initial now) past s →
    ∀ before t later, past = before ++ t :: later → outcome t = some false → ∀ u ∈ later,
    starts cfg u = true → t.pre.now + (t.pre.consumer.backoff.recordFailure t.pre.now).1 ≤ u.pre.now := by
  intro holds
  obtain ⟨before,t,later,s,run,_,failed,u,member,passes,early⟩ := exists_run_cut (step (deploy 1))
    (initial (instantLimit - 1)) [.files ["src/main.ts"],.recv,.guard (readings 1),.ran (.error (.exit "1"))]
    (.finish ∅) [.files ["src/main.ts"],.recv,.guard (readings 1)]
    (fun _ t later _ => outcome t = some false ∧ ∃ u ∈ later, starts (deploy 1) u = true ∧
      u.pre.now < t.pre.now + (t.pre.consumer.backoff.recordFailure t.pre.now).1) (by decide +kernel)
  exact absurd (holds (deploy 1) _ _ s run before t later rfl failed u member passes) (Nat.not_le_of_lt early)

end Malkuth.Pipeline
