import Malkuth.LeaseOverwrite

/-! Leader election of `leader.rs` over the file lease: any number of `LeaseLeaderElector`s on
one key, each with any number of calls at a time. A call of `try_acquire` is known by the
owner string that its `LeaseLock::acquire` made up. The lease's own steps are those of
`lease.rs`; an elector only decides when a guard is made, kept and given back. -/
namespace Malkuth.Leader

open Transition

structure LeaderAnnounce where
  nodeId : String
  leaderInstanceId : String
  term : Nat
  acquiredAt : String
  leaseTtlSecs : Nat
  deriving DecidableEq, Repr

def epochNowLabel (nowMs : Nat) : String := "epoch:" ++ toString (nowMs / 1000)

inductive Phase where
  | idle
  /-- In `LeaseLock::acquire`, or just back from it. -/
  | acquiring
  /-- It has drawn its term and has not yet stored its guard. -/
  | stamped (term : Nat)
  /-- It has stored its guard and is dropping the one that was there, under the mutex. -/
  | replacing (old : String)
  /-- `Ok(true)`. -/
  | returned
  /-- The caller has dropped the future; the guard is dropped with it. -/
  | abandoned
  deriving DecidableEq, Repr

/-- `term` and `held` are the two mutexes; `held` is locked while a guard is dropped in it. -/
structure Elector where
  term : Nat
  held : Option (String × LeaderAnnounce)
  locked : Bool
  deriving DecidableEq

/-- `ι` names the electors, of all processes. -/
structure State (ι : Type) where
  lease : Lease.State
  phase : String → Phase
  caller : String → Option ι
  elector : ι → Elector

abbrev Identity (ι : Type) := ι → String × String

inductive Event (ι : Type) where
  | tick (ms : Nat)
  /-- `try_acquire(ttl)` enters `LeaseLock::acquire`, which makes a new owner. -/
  | tryAcquire (e : ι) (owner : String) (ttlMs : Nat)
  /-- A file-system step of an acquisition, or of a guard's release or drop. -/
  | go (owner : String) (io : Lease.Io)
  /-- A step of a guard's renew thread. -/
  | background (owner : String) (io : Lease.Io)
  /-- The acquisition has succeeded: `*t += 1`. -/
  | stamp (owner : String)
  /-- The guard and the announcement are stored. -/
  | store (owner : String)
  /-- The replaced guard is gone and the mutex is free. -/
  | unlock (owner : String)
  | abandon (owner : String)
  /-- `renew`; it only looks. -/
  | renew (e : ι)
  | resign (e : ι)
  /-- The guard that `resign` has released is dropped. -/
  | dropReleased (owner : String)

section Steps

variable {ι : Type} [DecidableEq ι]

def State.setPhase (s : State ι) (o : String) (p : Phase) : State ι :=
  { s with phase := Function.update s.phase o p }

def State.setElector (s : State ι) (e : ι) (x : Elector) : State ι :=
  { s with elector := Function.update s.elector e x }

def State.onLease (s : State ι) (event : Lease.Event) : Option (State ι) :=
  (Lease.step s.lease event).map fun lease => { s with lease := lease }

/-- The answer of `renew`: nobody gets one while the mutex is locked. -/
def State.renewAnswer (s : State ι) (e : ι) : Option Bool :=
  if (s.elector e).locked then none else some (s.elector e).held.isSome

def announcement (ident : Identity ι) (s : State ι) (e : ι) (o : String) (term : Nat) : LeaderAnnounce where
  nodeId := (ident e).1
  leaderInstanceId := (ident e).2
  term := term
  acquiredAt := epochNowLabel s.lease.now
  leaseTtlSecs := min ((s.lease.acquirer o).ttlMs / 1000) (2^32 - 1)

/-- `*self.held.lock()? = Some((guard, announce))`: a guard that was there is dropped. -/
def State.store (ident : Identity ι) (s : State ι) (o : String) : Option (State ι) := do
  let e ← s.caller o
  match s.phase o, (s.elector e).locked, (s.elector e).held with
  | .stamped term, false, none =>
    some ((s.setElector e { s.elector e with held := some (o,announcement ident s e o term) }).setPhase o .returned)
  | .stamped term, false, some (old,_) =>
    ((s.setElector e { s.elector e with
      held := some (o,announcement ident s e o term), locked := true }).setPhase o (.replacing old)).onLease
        (.finish old .drop)
  | _, _, _ => none

def step (ident : Identity ι) (s : State ι) : Event ι → Option (State ι)
  | .tick ms => s.onLease (.tick ms)
  | .tryAcquire e o ttlMs =>
    if s.phase o = .idle then
      ({ s with caller := Function.update s.caller o (some e) }.setPhase o .acquiring).onLease (.begin o ttlMs)
    else none
  | .go o io => s.onLease (.go o io)
  | .background o io => s.onLease (.renew o io)
  | .stamp o => do
    let e ← s.caller o
    if s.phase o = .acquiring ∧ (s.lease.point o).isHeld = true then
      let term := ((s.elector e).term + 1) % 2^64
      some ((s.setElector e { s.elector e with term := term }).setPhase o (.stamped term))
    else none
  | .store o => s.store ident o
  | .unlock o => do
    let e ← s.caller o
    match s.phase o with
    | .replacing old =>
      if s.lease.point old = .dropped then
        some ((s.setElector e { s.elector e with locked := false }).setPhase o .returned)
      else none
    | _ => none
  | .abandon o =>
    match s.phase o with
    | .acquiring | .stamped _ =>
      if (s.lease.point o).isHeld then (s.setPhase o .abandoned).onLease (.finish o .drop) else none
    | _ => none
  | .renew e => if (s.elector e).locked then none else some s
  | .resign e =>
    match (s.elector e).locked, (s.elector e).held with
    | true, _ => none
    | false, none => some s
    | false, some (o,_) => (s.setElector e { s.elector e with held := none }).onLease (.finish o .release)
  | .dropReleased o =>
    if s.lease.point o = .released then s.onLease (.finish o .drop) else none

end Steps

/-- No call was made yet; the lease file, the temp file and the clock are arbitrary. -/
def initial (lease tmp : Lease.File) (now : Nat) : State ι where
  lease := Lease.initial lease tmp now
  phase := fun _ => .idle
  caller := fun _ => none
  elector := fun _ => ⟨0,none,false⟩

section Inversion

variable {ι : Type} [DecidableEq ι]

/-- The lease steps that no elector has a say in. -/
def State.Underneath (s : State ι) : Event ι → Lease.Event → Prop
  | .tick ms, event => event = .tick ms
  | .go o io, event => event = .go o io
  | .background o io, event => event = .renew o io
  | .dropReleased o, event => event = .finish o .drop ∧ s.lease.point o = .released
  | _, _ => False

inductive Steps (ident : Identity ι) (s : State ι) : Event ι → State ι → Prop where
  | underneath : s.Underneath e event → Lease.step s.lease event = some lease →
      Steps ident s e { s with lease := lease }
  | looks : (e = .renew x ∨ e = .resign x) → Steps ident s e s
  | tryAcquire : s.phase o = .idle → Lease.step s.lease (.begin o ttlMs) = some lease →
      Steps ident s (.tryAcquire x o ttlMs) { s with
        lease := lease, caller := Function.update s.caller o (some x), phase := Function.update s.phase o .acquiring }
  | stamp : s.caller o = some x → s.phase o = .acquiring → (s.lease.point o).isHeld = true →
      term = ((s.elector x).term + 1) % 2^64 →
      Steps ident s (.stamp o) ((s.setElector x { s.elector x with term := term }).setPhase o (.stamped term))
  | store : s.caller o = some x → s.phase o = .stamped term → (s.elector x).locked = false →
      (s.elector x).held = none →
      Steps ident s (.store o) ((s.setElector x { s.elector x with
        held := some (o,announcement ident s x o term) }).setPhase o .returned)
  | replace : s.caller o = some x → s.phase o = .stamped term → (s.elector x).locked = false →
      (s.elector x).held = some (old,was) → Lease.step s.lease (.finish old .drop) = some lease →
      Steps ident s (.store o) { (s.setElector x { s.elector x with
        held := some (o,announcement ident s x o term), locked := true }).setPhase o (.replacing old) with
          lease := lease }
  | unlock : s.caller o = some x → s.phase o = .replacing old → s.lease.point old = .dropped →
      Steps ident s (.unlock o) ((s.setElector x { s.elector x with locked := false }).setPhase o .returned)
  | abandon : (s.phase o = .acquiring ∨ ∃ term, s.phase o = .stamped term) →
      Lease.step s.lease (.finish o .drop) = some lease →
      Steps ident s (.abandon o) { s.setPhase o .abandoned with lease := lease }
  | resign : (s.elector x).locked = false → (s.elector x).held = some (o,was) →
      Lease.step s.lease (.finish o .release) = some lease →
      Steps ident s (.resign x) { s.setElector x { s.elector x with held := none } with lease := lease }

omit [DecidableEq ι] in
theorem onLease_eq_some (s : State ι) (event : Lease.Event) (taken : s.onLease event = some s') :
    ∃ lease, Lease.step s.lease event = some lease ∧ s' = { s with lease := lease } := by
  obtain ⟨lease,moved,rfl⟩ := Option.map_eq_some_iff.mp taken
  exact ⟨lease,moved,rfl⟩

theorem store_steps (ident : Identity ι) (s : State ι) (o : String) (taken : s.store ident o = some s') :
    Steps ident s (.store o) s' := by
  obtain ⟨x,caller,taken⟩ := Option.bind_eq_some_iff.mp taken
  split at taken
  next term phase free absent =>
    obtain rfl := Option.some.inj taken
    exact .store caller phase free absent
  next term old was phase free present =>
    obtain ⟨lease,moved,rfl⟩ := onLease_eq_some _ _ taken
    exact .replace caller phase free present moved
  · contradiction

theorem step_steps (ident : Identity ι) (s s' : State ι) (e : Event ι) (taken : step ident s e = some s') :
    Steps ident s e s' := by
  cases e with
  | tick ms =>
    obtain ⟨lease,moved,rfl⟩ := onLease_eq_some _ _ taken
    exact .underneath rfl moved
  | go o io =>
    obtain ⟨lease,moved,rfl⟩ := onLease_eq_some _ _ taken
    exact .underneath rfl moved
  | background o io =>
    obtain ⟨lease,moved,rfl⟩ := onLease_eq_some _ _ taken
    exact .underneath rfl moved
  | dropReleased o =>
    obtain ⟨released,taken⟩ := Option.ite_none_right_eq_some.mp taken
    obtain ⟨lease,moved,rfl⟩ := onLease_eq_some _ _ taken
    exact .underneath ⟨rfl,released⟩ moved
  | tryAcquire x o ttlMs =>
    obtain ⟨idle,taken⟩ := Option.ite_none_right_eq_some.mp taken
    obtain ⟨lease,moved,rfl⟩ := onLease_eq_some _ _ taken
    exact .tryAcquire idle moved
  | stamp o =>
    obtain ⟨x,caller,taken⟩ := Option.bind_eq_some_iff.mp taken
    obtain ⟨⟨phase,held⟩,rfl⟩ := Option.ite_some_none_eq_some.mp taken
    exact .stamp caller phase held rfl
  | store o => exact store_steps ident s o taken
  | unlock o =>
    obtain ⟨x,caller,taken⟩ := Option.bind_eq_some_iff.mp taken
    split at taken
    next old phase =>
      obtain ⟨dropped,rfl⟩ := Option.ite_some_none_eq_some.mp taken
      exact .unlock caller phase dropped
    · contradiction
  | abandon o =>
    simp only [step] at taken
    split at taken
    next phase =>
      obtain ⟨held,taken⟩ := Option.ite_none_right_eq_some.mp taken
      obtain ⟨lease,moved,rfl⟩ := onLease_eq_some _ _ taken
      exact .abandon (.inl phase) moved
    next term phase =>
      obtain ⟨held,taken⟩ := Option.ite_none_right_eq_some.mp taken
      obtain ⟨lease,moved,rfl⟩ := onLease_eq_some _ _ taken
      exact .abandon (.inr ⟨term,phase⟩) moved
    · contradiction
  | renew x =>
    obtain ⟨_,same⟩ := Option.ite_none_left_eq_some.mp taken
    obtain rfl := Option.some.inj same
    exact .looks (.inl rfl)
  | resign x =>
    simp only [step] at taken
    split at taken
    · contradiction
    · obtain rfl := Option.some.inj taken
      exact .looks (.inr rfl)
    next o was free present =>
      obtain ⟨lease,moved,rfl⟩ := onLease_eq_some _ _ taken
      exact .resign free present moved

end Inversion

end Malkuth.Leader
