import Malkuth.DrainDeadline
import Malkuth.StickyRouting

/-! Calls of `pick` from any number of tasks, by their accesses to the ring and the cache, and what
the durations of callers do to them and to drain calls. -/
namespace Malkuth.Proxy

open Transition

/-- The program points of a call. `copied` has an entry of the cache and has yet to read the clock,
`found` has one that is live and has yet to look for it in the ring, `storing` is about to lock the
cache. -/
inductive PickPoint where
  | looking
  | copied (addr : SocketAddr) (exp : Nat)
  | found (addr : SocketAddr)
  | routing
  | storing (chosen : Backend)
  | returned (backend : Option Backend)
  /-- At `Instant::now() + self.ttl`, with the cache locked. -/
  | panicked
  deriving DecidableEq

def pickAdvance (s : ProxyState) (now : Nat) (client : String) (dead : List SocketAddr) :
    PickPoint → Option (ProxyState × PickPoint)
  | .looking =>
    match if s.poisoned then none else s.sticky client with
    | some (addr,exp) => some (s,.copied addr exp)
    | none => some (s,.routing)
  | .copied addr exp => some (s,if exp > now ∧ addr ∉ dead then .found addr else .routing)
  | .found addr =>
    if s.ring.backends.any (fun b => b.addr == addr) then some (s,.returned (some ⟨addr,""⟩))
    else some (s,.routing)
  | .routing =>
    match s.ring.routeExcluding client dead with
    | none => some (s,.returned none)
    | some chosen => some (s,.storing chosen)
  | .storing chosen =>
    if s.poisoned then some (s,.returned (some chosen))
    else if now + s.ttl < instantLimit then
      some ({ s with sticky := Function.update s.sticky client (some (chosen.addr,now + s.ttl)) },
        .returned (some chosen))
    else some ({ s with poisoned := true },.panicked)
  | .returned _ | .panicked => none

def PickPoint.rank : PickPoint → Nat
  | .looking => 5
  | .copied .. => 4
  | .found _ => 3
  | .routing => 2
  | .storing _ => 1
  | .returned _ | .panicked => 0

def PickPoint.after : Picked → PickPoint
  | .returned backend => .returned backend
  | .panicked => .panicked

/-- Every access of a call. -/
inductive PickSteps (s : ProxyState) (now : Nat) (client : String) (dead : List SocketAddr) :
    PickPoint → ProxyState → PickPoint → Prop where
  | copied : PickSteps s now client dead .looking s (.copied addr exp)
  | missed : PickSteps s now client dead .looking s .routing
  | live : PickSteps s now client dead (.copied addr exp) s (.found addr)
  | stale : PickSteps s now client dead (.copied addr exp) s .routing
  | cached : PickSteps s now client dead (.found addr) s (.returned (some ⟨addr,""⟩))
  | gone : PickSteps s now client dead (.found addr) s .routing
  | nobody (none_ : s.ring.routeExcluding client dead = none) :
      PickSteps s now client dead .routing s (.returned none)
  | routed (routed : s.ring.routeExcluding client dead = some b) :
      PickSteps s now client dead .routing s (.storing b)
  | unrecorded (poisoned : s.poisoned = true) :
      PickSteps s now client dead (.storing b) s (.returned (some b))
  | recorded (sane : s.poisoned = false) (fits : now + s.ttl < instantLimit) :
      PickSteps s now client dead (.storing b)
        { s with sticky := Function.update s.sticky client (some (b.addr,now + s.ttl)) } (.returned (some b))
  | panicked (sane : s.poisoned = false) (full : ¬ now + s.ttl < instantLimit) :
      PickSteps s now client dead (.storing b) { s with poisoned := true } .panicked

theorem pickAdvance_steps (taken : pickAdvance s now client dead point = some (m,point')) :
    PickSteps s now client dead point m point' := by
  cases point with
  | looking =>
    simp only [pickAdvance] at taken
    split at taken
    · cases taken; exact .copied
    · cases taken; exact .missed
  | copied addr exp =>
    cases taken
    split
    · exact .live
    · exact .stale
  | found addr =>
    simp only [pickAdvance] at taken
    split at taken
    · cases taken; exact .cached
    · cases taken; exact .gone
  | routing =>
    simp only [pickAdvance] at taken
    split at taken
    next none_ => cases taken; exact .nobody none_
    next routed => cases taken; exact .routed routed
  | storing b =>
    simp only [pickAdvance] at taken
    split at taken
    next poisoned => cases taken; exact .unrecorded poisoned
    next sane =>
      have sane : s.poisoned = false := by simpa using sane
      split at taken
      next fits => cases taken; exact .recorded sane fits
      next full => cases taken; exact .panicked sane full
  | returned | panicked => cases taken

theorem PickSteps.rank (steps : PickSteps s now client dead point m point') : point'.rank + 1 ≤ point.rank := by
  cases steps <;> simp [PickPoint.rank]

theorem PickSteps.poisoned (steps : PickSteps s now client dead point m point') (before : s.poisoned = true) :
    m.poisoned = true := by
  cases steps with
  | panicked => rfl
  | _ => exact before

/-- A call that writes its expiry, if it has one, neither panics nor poisons the lock. -/
theorem PickSteps.sane (steps : PickSteps s now client dead point m point') (before : s.poisoned = false)
    (fits : ∀ chosen, point = .storing chosen → now + s.ttl < instantLimit) :
    m.poisoned = false ∧ point' ≠ .panicked := by
  cases steps with
  | panicked _ full => exact absurd (fits _ rfl) full
  | recorded => exact ⟨before,by simp⟩
  | _ => exact ⟨before,by simp⟩

/-- Nothing holds a call up before its end. -/
theorem pickAdvance_isSome (s : ProxyState) (now : Nat) (client : String) (dead : List SocketAddr)
    (some_ : point.rank ≠ 0) : (pickAdvance s now client dead point).isSome = true := by
  cases point with
  | looking => simp only [pickAdvance]; split <;> rfl
  | copied => rfl
  | found => simp only [pickAdvance]; split <;> rfl
  | routing => simp only [pickAdvance]; split <;> rfl
  | storing =>
    simp only [pickAdvance]
    split
    · rfl
    · split <;> rfl
  | returned | panicked => exact absurd rfl some_

def accesses (s : ProxyState) (now : Nat) (client : String) (dead : List SocketAddr) (point : PickPoint) :
    Nat → ProxyState × PickPoint
  | 0 => (s,point)
  | n + 1 =>
    match pickAdvance s now client dead point with
    | some (m,point) => accesses m now client dead point n
    | none => (s,point)

theorem accesses_step (moved : pickAdvance s now client dead point = some (m,point')) (n : Nat) :
    accesses s now client dead point (n + 1) = accesses m now client dead point' n := by
  simp only [accesses,moved]

theorem accesses_after (s : ProxyState) (now : Nat) (client : String) (dead : List SocketAddr) (picked : Picked) (n : Nat) :
    accesses s now client dead (.after picked) n = (s,.after picked) := by
  cases n with
  | zero => rfl
  | succ n => cases picked <;> rfl

theorem accesses_storing (s : ProxyState) (now : Nat) (client : String) (dead : List SocketAddr) (n : Nat)
    (routed : s.ring.routeExcluding client dead = some b) :
    accesses s now client dead (.storing b) (n + 1) =
      ((s.routeFresh client dead now).2,.after (s.routeFresh client dead now).1) := by
  simp only [ProxyState.routeFresh,routed]
  split
  next poisoned =>
    have moved : pickAdvance s now client dead (.storing b) = some (s,.after (.returned (some b))) := if_pos poisoned
    rw [accesses_step moved,accesses_after]
  next sane =>
    split
    next fits =>
      have moved : pickAdvance s now client dead (.storing b) = some
          ({ s with sticky := Function.update s.sticky client (some (b.addr,now + s.ttl)) },
            .after (.returned (some b))) := (if_neg sane).trans (if_pos fits)
      rw [accesses_step moved,accesses_after]
    next full =>
      have moved : pickAdvance s now client dead (.storing b) = some ({ s with poisoned := true },.after .panicked) :=
        (if_neg sane).trans (if_neg full)
      rw [accesses_step moved,accesses_after]

theorem pickAdvance_routing (s : ProxyState) (now : Nat) (routed : s.ring.routeExcluding client dead = some b) :
    pickAdvance s now client dead .routing = some (s,.storing b) := by
  simp only [pickAdvance,routed]

theorem accesses_routing (s : ProxyState) (now : Nat) (client : String) (dead : List SocketAddr) (n : Nat) :
    accesses s now client dead .routing (n + 2) =
      ((s.routeFresh client dead now).2,.after (s.routeFresh client dead now).1) := by
  cases routed : s.ring.routeExcluding client dead with
  | none =>
    have moved : pickAdvance s now client dead .routing = some (s,.after (.returned none)) := by
      simp only [pickAdvance,routed,PickPoint.after]
    rw [accesses_step moved,accesses_after]
    simp only [ProxyState.routeFresh,routed]
  | some b =>
    rw [accesses_step (pickAdvance_routing s now routed)]
    exact accesses_storing s now client dead n routed

/-- The accesses together are `pick`. -/
theorem accesses_pick (s : ProxyState) (now : Nat) (client : String) (dead : List SocketAddr) :
    accesses s now client dead .looking 5 = ((s.pick client dead now now).2,.after (s.pick client dead now now).1) := by
  have routes (missed : s.hit client dead now = none) (n : Nat) : accesses s now client dead .routing (n + 2) =
      ((s.pick client dead now now).2,.after (s.pick client dead now now).1) := by
    rw [accesses_routing,ProxyState.pick,missed]
  cases entry : if s.poisoned then none else s.sticky client with
  | none =>
    have missed : s.hit client dead now = none := by
      unfold ProxyState.hit
      split at entry
      next poisoned => rw [if_pos poisoned]
      next sane => simp [sane,entry]
    have moved : pickAdvance s now client dead .looking = some (s,.routing) := by simp only [pickAdvance,entry]
    rw [accesses_step moved]
    exact routes missed 2
  | some e =>
    obtain ⟨addr,exp⟩ := e
    obtain ⟨sane,kept⟩ := Option.ite_none_left_eq_some.mp entry
    have moved : pickAdvance s now client dead .looking = some (s,.copied addr exp) := by
      simp only [pickAdvance,entry]
    rw [accesses_step moved]
    by_cases live : exp > now ∧ addr ∉ dead
    · have moved : pickAdvance s now client dead (.copied addr exp) = some (s,.found addr) := by
        simp only [pickAdvance,if_pos live]
      rw [accesses_step moved]
      by_cases there : (s.ring.backends.any fun b => b.addr == addr) = true
      · have moved : pickAdvance s now client dead (.found addr) = some (s,.after (.returned (some ⟨addr,""⟩))) :=
          if_pos there
        have found : s.hit client dead now = some addr := by
          rw [ProxyState.hit,if_neg sane,kept]
          exact (if_pos live).trans (if_pos there)
        rw [accesses_step moved,accesses_after,ProxyState.pick,found]
      · have moved : pickAdvance s now client dead (.found addr) = some (s,.routing) := if_neg there
        have missed : s.hit client dead now = none := by
          rw [ProxyState.hit,if_neg sane,kept]
          exact (if_pos live).trans (if_neg there)
        rw [accesses_step moved]
        exact routes missed 0
    · have moved : pickAdvance s now client dead (.copied addr exp) = some (s,.routing) := by
        simp only [pickAdvance,if_neg live]
      have missed : s.hit client dead now = none := by
        rw [ProxyState.hit,if_neg sane,kept]
        exact if_neg live
      rw [accesses_step moved]
      exact routes missed 1

structure PickCall where
  client : String
  dead : List SocketAddr
  point : PickPoint

structure Shared where
  proxy : ProxyState
  now : Nat
  call : Nat → Option PickCall

namespace Shared

inductive Event where
  | tick (ns : Nat)
  | setBackends (backends : List Backend)
  | invalidate (client : String)
  | begin (call : Nat) (client : String) (dead : List SocketAddr)
  | advance (call : Nat)

/-- `Duration::from_secs` of `--sticky-ttl-secs`, and nothing in the ring or the cache. -/
def initial (stickyTtlSecs start : Nat) : Shared := ⟨.new (stickyTtlSecs * 1000000000),start,fun _ => none⟩

def setCall (s : Shared) (c : Nat) (k : PickCall) : Shared := { s with call := Function.update s.call c (some k) }

def step (by_ : UnstableSort) (s : Shared) : Event → Option Shared
  | .tick ns => some { s with now := s.now + ns }
  | .setBackends backends => some { s with proxy := s.proxy.setBackends by_ backends }
  | .invalidate client => some { s with proxy := s.proxy.invalidate client }
  | .begin c client dead =>
    match s.call c with
    | none => some (s.setCall c ⟨client,dead,.looking⟩)
    | some _ => none
  | .advance c => do
    let k ← s.call c
    let (proxy,point) ← pickAdvance s.proxy s.now k.client k.dead k.point
    some ({ s with proxy }.setCall c { k with point })

@[simp] theorem setCall_call (s : Shared) (c : Nat) (k : PickCall) : (s.setCall c k).call c = some k := by
  simp [setCall]

@[simp] theorem setCall_proxy (s : Shared) (c : Nat) (k : PickCall) : (s.setCall c k).proxy = s.proxy := rfl
@[simp] theorem setCall_now (s : Shared) (c : Nat) (k : PickCall) : (s.setCall c k).now = s.now := rfl

theorem setCall_self (s : Shared) (here : s.call c = some k) : s.setCall c k = s := by
  have same : Function.update s.call c (some k) = s.call := by rw [← here,Function.update_eq_self]
  simp only [setCall,same]

theorem advance_eq (by_ : UnstableSort) (s : Shared) (here : s.call c = some k)
    (moved : pickAdvance s.proxy s.now k.client k.dead k.point = some (m,point)) :
    step by_ s (.advance c) = some ({ s with proxy := m }.setCall c { k with point }) := by
  simp [step,here,moved]

/-- Nothing has to come in between of the accesses of a call. -/
theorem accesses_run (by_ : UnstableSort) (s : Shared) (n : Nat) (here : s.call c = some k) :
    let r := accesses s.proxy s.now k.client k.dead k.point n
    ∃ past, Run (step by_) s past ({ s with proxy := r.1 }.setCall c { k with point := r.2 }) := by
  induction n generalizing s k with
  | zero => exact ⟨[],by simpa only [accesses,setCall_self s here] using .nil⟩
  | succ n ih =>
    cases moved : pickAdvance s.proxy s.now k.client k.dead k.point with
    | none => exact ⟨[],by simpa only [accesses,moved,setCall_self s here] using .nil⟩
    | some r =>
      obtain ⟨m,point⟩ := r
      have taken := advance_eq by_ s here moved
      obtain ⟨past,rest⟩ := ih ({ s with proxy := m }.setCall c { k with point }) (setCall_call ..)
      exact ⟨_,.cons taken (by simpa [accesses_step moved,setCall] using rest)⟩

/-- A call that nothing comes in between of is `pick`. -/
theorem pick_run (by_ : UnstableSort) (s : Shared) (here : s.call c = some ⟨client,dead,.looking⟩) :
    let (picked,proxy) := s.proxy.pick client dead s.now s.now
    ∃ past, Run (step by_) s past ({ s with proxy }.setCall c ⟨client,dead,.after picked⟩) := by
  simpa only [accesses_pick] using accesses_run by_ s 5 here

def Event.advances (c : Nat) : Event → Bool
  | .advance d => c == d
  | _ => false

/-- Calls return, after five accesses at the latest, and nothing holds them up before. The lock of
the cache is not poisoned. -/
def PicksReturn (by_ : UnstableSort) (past : List (Taken Shared Event)) (s : Shared) : Prop :=
  (∀ before t after c client dead, past = before ++ t :: after → t.event = .begin c client dead →
    after.countP (fun u => u.event.advances c) ≤ 5 ∧ ∃ point, s.call c = some ⟨client,dead,point⟩ ∧
      ((∃ backend, point = .returned backend) ∨
        (point.rank ≠ 0 ∧ (step by_ s (.advance c)).isSome = true))) ∧
  s.proxy.poisoned = false

/-- The expiry that this step writes is an `Instant`. -/
def ExpiryFits (s : Shared) : Event → Prop
  | .advance c => ∀ k ∈ s.call c, ∀ chosen, k.point = .storing chosen → s.now + s.proxy.ttl < instantLimit
  | _ => True

inductive Moves (by_ : UnstableSort) (s : Shared) (c : Nat) : Event → Shared → Prop where
  | kept (foreign : e.advances c = false) (same : s'.call c = s.call c)
      (begins : ∀ client dead, e ≠ .begin c client dead) : Moves by_ s c e s'
  | begun (free : s.call c = none) : Moves by_ s c (.begin c client dead) (s.setCall c ⟨client,dead,.looking⟩)
  | advanced (here : s.call c = some k) (steps : PickSteps s.proxy s.now k.client k.dead k.point m point) :
      Moves by_ s c (.advance c) ({ s with proxy := m }.setCall c { k with point })

theorem step_advance (by_ : UnstableSort) (s s' : Shared) (taken : step by_ s (.advance c) = some s') :
    ∃ k m point, s.call c = some k ∧ pickAdvance s.proxy s.now k.client k.dead k.point = some (m,point) ∧
      s' = { s with proxy := m }.setCall c { k with point } := by
  simp only [step,Option.bind_eq_bind,Option.bind_eq_some_iff] at taken
  obtain ⟨k,here,⟨m,point⟩,moved,eq⟩ := taken
  exact ⟨k,m,point,here,moved,(Option.some.inj eq).symm⟩

theorem step_begin (by_ : UnstableSort) (s s' : Shared) (taken : step by_ s (.begin c client dead) = some s') :
    s.call c = none ∧ s' = s.setCall c ⟨client,dead,.looking⟩ := by
  simp only [step] at taken
  split at taken
  next free => exact ⟨free,(Option.some.inj taken).symm⟩
  · cases taken

theorem step_moves (by_ : UnstableSort) (s s' : Shared) (c : Nat) (e : Event) (taken : step by_ s e = some s') :
    Moves by_ s c e s' := by
  cases e with
  | tick | setBackends | invalidate => cases taken; exact .kept rfl rfl (by simp)
  | begin d client dead =>
    obtain ⟨free,rfl⟩ := step_begin by_ s s' taken
    by_cases same : c = d
    · subst same
      exact .begun free
    · exact .kept rfl (by simp [setCall,same]) (by simp [Ne.symm same])
  | advance d =>
    obtain ⟨k,m,point,here,moved,rfl⟩ := step_advance by_ s s' taken
    by_cases same : c = d
    · subst same
      exact .advanced here (pickAdvance_steps moved)
    · exact .kept (by simpa [Event.advances] using same) (by simp [setCall,same]) (by simp)

theorem invalidate_poisoned (s : ProxyState) (client : String) : (s.invalidate client).poisoned = s.poisoned := by
  unfold ProxyState.invalidate
  split <;> rfl

/-- Nothing but an access of a call can change whether the lock is poisoned. -/
theorem step_lock (by_ : UnstableSort) (s s' : Shared) (e : Event) (taken : step by_ s e = some s') :
    s'.proxy.poisoned = s.proxy.poisoned ∨ ∃ c k m point, e = .advance c ∧ s.call c = some k ∧
      PickSteps s.proxy s.now k.client k.dead k.point m point ∧ s'.proxy = m := by
  cases e with
  | tick | setBackends => cases taken; exact .inl rfl
  | invalidate client => cases taken; exact .inl (invalidate_poisoned ..)
  | begin c client dead =>
    obtain ⟨_,rfl⟩ := step_begin by_ s s' taken
    exact .inl rfl
  | advance c =>
    obtain ⟨k,m,point,here,moved,rfl⟩ := step_advance by_ s s' taken
    exact .inr ⟨c,k,m,point,rfl,here,pickAdvance_steps moved,rfl⟩

/-- A poisoned lock stays so. -/
theorem step_poisoned (by_ : UnstableSort) (s : Shared) (e : Event) (s' : Shared) (before : s.proxy.poisoned = true)
    (taken : step by_ s e = some s') : s'.proxy.poisoned = true := by
  rcases step_lock by_ s s' e taken with same | ⟨_,_,_,_,_,_,steps,rfl⟩
  · exact same.trans before
  · exact steps.poisoned before

/-- The lock is not poisoned, and no call has panicked. -/
structure Sane (s : Shared) : Prop where
  lock : s.proxy.poisoned = false
  lives : ∀ c k, s.call c = some k → k.point ≠ .panicked

theorem step_sane (by_ : UnstableSort) (s : Shared) (e : Event) (s' : Shared) (sane : Sane s) (fits : ExpiryFits s e)
    (taken : step by_ s e = some s') : Sane s' := by
  constructor
  · rcases step_lock by_ s s' e taken with same | ⟨_,k,_,_,rfl,here,steps,rfl⟩
    · exact same.trans sane.lock
    · exact (steps.sane sane.lock (fits k here)).1
  · intro c k after
    cases step_moves by_ s s' c e taken with
    | kept _ same => exact sane.lives c k (same.symm.trans after)
    | begun =>
      obtain rfl := Option.some.inj ((setCall_call ..).symm.trans after)
      simp
    | advanced here steps =>
      obtain rfl := Option.some.inj ((setCall_call ..).symm.trans after)
      exact (steps.sane sane.lock (fits _ here)).2

def pickRank (s : Shared) (c : Nat) : Nat := (s.call c).elim 0 (·.point.rank)

/-- A call stays one, and every access of it brings it on. -/
theorem step_rank (by_ : UnstableSort) (s : Shared) (e : Event) (s' : Shared)
    (here : ∃ point, s.call c = some ⟨client,dead,point⟩) (taken : step by_ s e = some s') :
    (∃ point, s'.call c = some ⟨client,dead,point⟩) ∧
      s'.pickRank c + (if e.advances c then 1 else 0) ≤ s.pickRank c := by
  obtain ⟨point,here⟩ := here
  cases step_moves by_ s s' c e taken with
  | kept foreign same => exact ⟨⟨point,same.trans here⟩,by simp [pickRank,same,foreign]⟩
  | begun free => simp [here] at free
  | advanced at_ steps =>
    obtain rfl := Option.some.inj (here.symm.trans at_)
    refine ⟨⟨_,setCall_call ..⟩,?_⟩
    simpa [pickRank,here,Event.advances] using steps.rank

theorem advance_enabled (by_ : UnstableSort) (s : Shared) (here : s.call c = some ⟨client,dead,point⟩)
    (some_ : point.rank ≠ 0) : (step by_ s (.advance c)).isSome = true := by
  obtain ⟨_,moved⟩ := Option.isSome_iff_exists.mp (pickAdvance_isSome s.proxy s.now client dead some_)
  rw [advance_eq by_ s here moved]
  rfl

/-- A write that has no expiry leaves the lock poisoned. -/
theorem step_full (by_ : UnstableSort) (s : Shared) (e : Event) (s' : Shared) (taken : step by_ s e = some s')
    (full : ¬ ExpiryFits s e) : s'.proxy.poisoned = true := by
  unfold ExpiryFits at full
  split at full
  next c =>
    simp only [Classical.not_forall] at full
    obtain ⟨k,here,chosen,stores,full⟩ := full
    obtain ⟨k',m,point,at_,moved,rfl⟩ := step_advance by_ s s' taken
    obtain rfl := Option.some.inj (at_.symm.trans here)
    rw [stores] at moved
    cases pickAdvance_steps moved with
    | unrecorded poisoned => exact poisoned
    | recorded _ fits => exact absurd fits full
    | panicked => rfl
  · exact absurd trivial full

/-- Calls return, in every history, if and only if every expiry that is written in it fits. -/
theorem picksReturn_iff (by_ : UnstableSort) (run : Run (step by_) (initial stickyTtlSecs start) past s) :
    PicksReturn by_ past s ↔ ∀ t ∈ past, ExpiryFits t.pre t.event := by
  constructor
  · rintro ⟨_,lock⟩ t member
    by_contra full
    obtain ⟨front,back,rfl⟩ := List.append_of_mem member
    obtain ⟨_,taken,rest⟩ := run.split
    have poisoned := rest.always (P := fun s => s.proxy.poisoned = true) (step_full by_ _ _ _ taken full)
      (step_poisoned by_)
    simp [lock] at poisoned
  · intro fits
    have sane : Sane s := run.invariant ⟨rfl,by simp [initial]⟩ (step_sane by_) fits
    refine ⟨?_,sane.lock⟩
    rintro before t after c client dead rfl begun
    obtain ⟨_,taken,rest⟩ := run.split
    rw [begun] at taken
    obtain ⟨_,eq⟩ := step_begin by_ _ _ taken
    have first : t.post.call c = some ⟨client,dead,.looking⟩ := eq ▸ setCall_call ..
    obtain ⟨⟨point,here⟩,bounded⟩ := rest.countP_le (fun s => s.pickRank c) (fun u => u.event.advances c) ⟨_,first⟩
      (step_rank by_)
    refine ⟨?_,point,here,?_⟩
    · have five : t.post.pickRank c = 5 := by simp [pickRank,first,PickPoint.rank]
      omega
    · by_cases ends : point.rank = 0
      · left
        cases point with
        | returned backend => exact ⟨backend,rfl⟩
        | panicked => exact absurd rfl (sane.lives c _ here)
        | _ => cases ends
      · exact .inr ⟨ends,advance_enabled by_ s here ends⟩

/-- The first client of a proxy, about to be remembered. -/
theorem run_stores (stickyTtlSecs : Nat) : ∃ past s b, Run (step stableSort) (initial stickyTtlSecs 0) past s ∧
    s.call 0 = some ⟨"10.0.0.1",[],.storing b⟩ ∧ s.now = 0 ∧
    s.proxy.poisoned = false ∧ s.proxy.ttl = stickyTtlSecs * 1000000000 ∧
    ∀ t ∈ past, ExpiryFits t.pre t.event := by
  have somewhere : (Ring.fromBackends stableSort pods).routeExcluding "10.0.0.1" [] ≠ none := fun none_ =>
    List.not_mem_nil ((Ring.routeExcluding_eq_none stableSort pods "10.0.0.1" []).mp none_ _ (List.mem_cons_self ..))
  obtain ⟨b,routed⟩ := Option.ne_none_iff_exists'.mp somewhere
  let s₁ : Shared := ⟨(ProxyState.new (stickyTtlSecs * 1000000000)).setBackends stableSort pods,0,fun _ => none⟩
  let s₂ := s₁.setCall 0 ⟨"10.0.0.1",[],.looking⟩
  let s₃ := s₂.setCall 0 ⟨"10.0.0.1",[],.routing⟩
  have routes : step stableSort s₃ (.advance 0) = some (s₃.setCall 0 ⟨"10.0.0.1",[],.storing b⟩) := by
    apply advance_eq stableSort s₃ (setCall_call ..)
    exact pickAdvance_routing _ 0 routed
  refine ⟨_,_,b,.cons (e := .setBackends pods) (m := s₁) rfl (.cons (e := .begin 0 "10.0.0.1" []) (m := s₂) rfl
    (.cons (e := .advance 0) (m := s₃) rfl (.one (e := .advance 0) routes))),setCall_call ..,rfl,rfl,rfl,?_⟩
  simp [ExpiryFits,s₂,s₃]

end Shared

end Malkuth.Proxy

namespace Malkuth

open Transition Mcp Proxy

/-- Drain calls answer and picks return, in every history of a server and of a proxy, if and only
if the deadlines and the expiries that are set in it are instants. -/
theorem durations_iff (specs : Specs) (boot : Nat) (drains : List (Taken Server Server.Event)) (m : Server)
    (server : Run (Server.step specs) (Server.initial boot) drains m)
    (by_ : UnstableSort) (stickyTtlSecs start : Nat) (picks : List (Taken Shared Shared.Event)) (s : Shared)
    (proxy : Run (Shared.step by_) (Shared.initial stickyTtlSecs start) picks s) :
    Server.DrainsAnswer specs drains m ∧ Shared.PicksReturn by_ picks s ↔
      (∀ t ∈ drains, Server.DeadlineFits t.pre t.event) ∧ ∀ t ∈ picks, Shared.ExpiryFits t.pre t.event :=
  and_congr (Server.drainsAnswer_iff specs server) (Shared.picksReturn_iff by_ proxy)

def approvedDrain (timeoutSecs : Nat) : DrainArgs := ⟨"run-1",none,some timeoutSecs,some "p1",some "api"⟩

/-- Five seconds to drain and an hour to remember. -/
theorem durations_short : ∃ drains m picks s,
    Run (Server.step Server.twins) (Server.initial 0) drains m ∧
    Run (Shared.step stableSort) (Shared.initial 3600 0) picks s ∧
    Server.DrainsAnswer Server.twins drains m ∧ Shared.PicksReturn stableSort picks s ∧
    (∃ answer, m.calls 0 = .drain (approvedDrain 5) (.answered answer)) ∧
    ∃ b, s.call 0 = some ⟨"10.0.0.1",[],.returned (some b)⟩ := by
  obtain ⟨before,t,after,m,server,begun,deadlines,ends⟩ := exists_run_cut (Server.step Server.twins)
    (Server.initial 0) [.approve ⟨"p1","api",none⟩ (.at 0)] (.drain 0 (approvedDrain 5))
    (List.flatten [Server.advances 0 7,[.tick 5000000000],Server.advances 0 4])
    (fun before t after m => (∀ u ∈ before ++ t :: after, Server.DeadlineFits u.pre u.event) ∧ m.drainRank 0 = 0)
    (by decide +kernel)
  obtain ⟨picks,s,b,picked,storing,now,sane,ttl,expiries⟩ := Shared.run_stores 3600
  have stores : pickAdvance s.proxy s.now "10.0.0.1" [] (.storing b) = some
      ({ s.proxy with sticky := Function.update s.proxy.sticky "10.0.0.1" (some (b.addr,s.now + s.proxy.ttl)) },
        .returned (some b)) := by
    simp [pickAdvance,sane,now,ttl,instantLimit]
  have proxy := picked.snoc (Shared.advance_eq stableSort s storing stores)
  have last : Shared.ExpiryFits s (.advance 0) := by simp [Shared.ExpiryFits,now,ttl,instantLimit]
  have both := (durations_iff Server.twins 0 _ m server stableSort 3600 0 _ _ proxy).mpr
    ⟨deadlines,List.forall_mem_append.mpr ⟨expiries,List.forall_mem_singleton.mpr last⟩⟩
  refine ⟨_,m,_,_,server,proxy,both.1,both.2,?_,b,Shared.setCall_call ..⟩
  obtain ⟨_,point,here,answered | waits⟩ := both.1 before t after 0 (approvedDrain 5) rfl begun
  · obtain ⟨answer,rfl⟩ := answered
    exact ⟨answer,here⟩
  · exact absurd (by simpa [Server.drainRank,here] using ends) waits.1

/-- The longest durations there are: the drain has spent its approval and begun, and the cache is
lost to every client. -/
theorem durations_longest :
    (∃ before t after m, Run (Server.step Server.twins) (Server.initial 0) (before ++ t :: after) m ∧
      t.event = .drain 0 (approvedDrain 18446744073709551615) ∧ m.registry = [⟨"p1","api",.allow,0,some 0⟩] ∧
      (m.runs "run-1").drain.draining = true ∧ (∃ call args, m.calls call = .drain args .panicked) ∧
      ¬ Server.DrainsAnswer Server.twins (before ++ t :: after) m) ∧
    ∃ picks s, Run (Shared.step stableSort) (Shared.initial 18446744073709551615 0) picks s ∧
      s.call 0 = some ⟨"10.0.0.1",[],.panicked⟩ ∧ s.proxy.poisoned = true ∧
      ¬ Shared.PicksReturn stableSort picks s := by
  constructor
  · obtain ⟨before,t,after,m,server,begun,spent,draining,u,member,full⟩ := exists_run_cut (Server.step Server.twins)
      (Server.initial 0) [.approve ⟨"p1","api",none⟩ (.at 0)] (.drain 0 (approvedDrain 18446744073709551615))
      (Server.advances 0 6)
      (fun before t after m => m.registry = [⟨"p1","api",.allow,0,some 0⟩] ∧
        (m.runs "run-1").drain.draining = true ∧ ∃ u ∈ before ++ t :: after, ¬ Server.DeadlineFits u.pre u.event)
      (by decide +kernel)
    obtain ⟨call,args,dead⟩ := Server.run_full Server.twins server member full
    exact ⟨before,t,after,m,server,begun,spent,draining,⟨call,args,dead⟩,
      Server.not_drainsAnswer Server.twins server dead⟩
  · obtain ⟨picks,s,b,picked,storing,now,sane,ttl,_⟩ := Shared.run_stores 18446744073709551615
    have stores : pickAdvance s.proxy s.now "10.0.0.1" [] (.storing b) =
        some ({ s.proxy with poisoned := true },.panicked) := by
      simp [pickAdvance,sane,now,ttl,instantLimit]
    have proxy := picked.snoc (Shared.advance_eq stableSort s storing stores)
    exact ⟨_,_,proxy,Shared.setCall_call ..,rfl,fun returns => by cases returns.2⟩

end Malkuth
