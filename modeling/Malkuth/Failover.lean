import Malkuth.StickyRouting

/-! The task of one client, `handle_client`: it picks a backend, tries to connect, and on a
failure marks the backend dead and picks again. The tasks of other clients share the ring
and the cache. A call of `pick` is not one step for them: they may come between its look
into the cache and its write. -/
namespace Malkuth.Failover

open Transition Proxy

/-- The program points of the task. `served` has a connection to copy over, `nobody` is the
path without a backend, `panicked` ends the task at `Instant::now() + self.ttl`. -/
inductive Point where
  | picking
  | routing
  | connecting (addr : SocketAddr)
  | invalidating
  | served (addr : SocketAddr)
  | nobody
  | panicked
  deriving DecidableEq, Repr

structure Task where
  proxy : ProxyState
  dead : List SocketAddr
  point : Point

inductive Event where
  /-- The first half of `pick`: the look into the cache. -/
  | look (now : Nat)
  /-- The second half, which records the choice. -/
  | route (now : Nat)
  | connect (accepts : Bool)
  | invalidate
  /-- What another task does to the cache in a pick of its own; its looks leave no trace. -/
  | othersRoute (client : String) (dead : List SocketAddr) (now : Nat)
  | othersInvalidate (client : String)
  deriving DecidableEq, Repr

/-- Where an answer of `pick` leads. -/
def Point.after : Picked → Point
  | .returned (some backend) => .connecting backend.addr
  | .returned none => .nobody
  | .panicked => .panicked

def step (clientIp : String) (s : Task) : Event → Option Task
  | .look now =>
    match s.point with
    | .picking => some { s with point := match s.proxy.hit clientIp s.dead now with
        | some addr => .after (.returned (some ⟨addr,""⟩))
        | none => .routing }
    | _ => none
  | .route now =>
    match s.point with
    | .routing =>
      let (picked,proxy) := s.proxy.routeFresh clientIp s.dead now
      some { s with proxy := proxy, point := .after picked }
    | _ => none
  | .connect accepts =>
    match s.point with
    | .connecting addr =>
      if accepts then some { s with point := .served addr }
      else some { s with dead := s.dead ++ [addr], point := .invalidating }
    | _ => none
  | .invalidate =>
    match s.point with
    | .invalidating => some { s with proxy := s.proxy.invalidate clientIp, point := .picking }
    | _ => none
  | .othersRoute client dead now => some { s with proxy := (s.proxy.routeFresh client dead now).2 }
  | .othersInvalidate client => some { s with proxy := s.proxy.invalidate client }

def initial (proxy : ProxyState) : Task := ⟨proxy,[],.picking⟩

def Event.own : Event → Bool
  | .look _ | .route _ | .connect _ | .invalidate => true
  | _ => false

/-- Both halves together are `pick`. -/
theorem halves_pick (clientIp : String) (s : Task) (first second : Nat) (here : s.point = .picking) :
    ∃ past, Run (step clientIp) s past
      ⟨(s.proxy.pick clientIp s.dead first second).2,s.dead,.after (s.proxy.pick clientIp s.dead first second).1⟩ := by
  cases found : s.proxy.hit clientIp s.dead first with
  | some addr =>
    refine ⟨_,.one (e := .look first) ?_⟩
    simp [step,here,found,ProxyState.pick]
  | none =>
    have looks : step clientIp s (.look first) = some { s with point := .routing } := by simp [step,here,found]
    refine ⟨_,.cons looks (.one (e := .route second) ?_)⟩
    simp [step,found,ProxyState.pick]

structure Kept (s s' : ProxyState) : Prop where
  ring : s'.ring = s.ring
  ttl : s'.ttl = s.ttl

inductive Steps (clientIp : String) (s : Task) : Event → Task → Prop where
  | found (here : s.point = .picking) (hit : s.proxy.hit clientIp s.dead now = some addr) :
      Steps clientIp s (.look now) { s with point := .connecting addr }
  | missed (here : s.point = .picking) : Steps clientIp s (.look now) { s with point := .routing }
  | routed (here : s.point = .routing) (routed : s.proxy.ring.routeExcluding clientIp s.dead = some b)
      (fits : s.proxy.poisoned = true ∨ now + s.proxy.ttl < instantLimit) (same : Kept s.proxy proxy) :
      Steps clientIp s (.route now) { s with proxy := proxy, point := .connecting b.addr }
  | exhausted (here : s.point = .routing) (nobody : s.proxy.ring.routeExcluding clientIp s.dead = none) :
      Steps clientIp s (.route now) { s with point := .nobody }
  | overflowed (here : s.point = .routing) (routed : s.proxy.ring.routeExcluding clientIp s.dead = some b)
      (clean : s.proxy.poisoned = false) (full : ¬ now + s.proxy.ttl < instantLimit) (same : Kept s.proxy proxy) :
      Steps clientIp s (.route now) { s with proxy := proxy, point := .panicked }
  | accepted (here : s.point = .connecting addr) :
      Steps clientIp s (.connect true) { s with point := .served addr }
  | refused (here : s.point = .connecting addr) :
      Steps clientIp s (.connect false) { s with dead := s.dead ++ [addr], point := .invalidating }
  | invalidated (here : s.point = .invalidating) (same : Kept s.proxy proxy) :
      Steps clientIp s .invalidate { s with proxy := proxy, point := .picking }
  | others (beside : e.own = false) (same : Kept s.proxy proxy) :
      Steps clientIp s e { s with proxy := proxy }

theorem routeFresh_kept (s : ProxyState) (client : String) (dead : List SocketAddr) (now : Nat) :
    Kept s (s.routeFresh client dead now).2 := by
  unfold ProxyState.routeFresh
  repeat' split
  all_goals exact ⟨rfl,rfl⟩

theorem invalidate_kept (s : ProxyState) (client : String) : Kept s (s.invalidate client) := by
  unfold ProxyState.invalidate
  split <;> exact ⟨rfl,rfl⟩

theorem step_steps (clientIp : String) (s s' : Task) (e : Event) (taken : step clientIp s e = some s') :
    Steps clientIp s e s' := by
  cases e with
  | look now =>
    simp only [step] at taken
    split at taken
    next here =>
      obtain rfl := Option.some.inj taken
      cases hit : s.proxy.hit clientIp s.dead now with
      | some addr => exact .found here hit
      | none => exact .missed here
    · contradiction
  | route now =>
    simp only [step] at taken
    split at taken
    next here =>
      obtain rfl := Option.some.inj taken
      cases routed : s.proxy.ring.routeExcluding clientIp s.dead with
      | none =>
        simp only [ProxyState.routeFresh,routed]
        exact .exhausted here routed
      | some b =>
        simp only [ProxyState.routeFresh,routed]
        split
        next poisoned => exact .routed here routed (.inl poisoned) ⟨rfl,rfl⟩
        next clean =>
          split
          next fits => exact .routed here routed (.inr fits) ⟨rfl,rfl⟩
          next full => exact .overflowed here routed (by simpa using clean) full ⟨rfl,rfl⟩
    · contradiction
  | connect accepts =>
    simp only [step] at taken
    split at taken
    next here =>
      cases accepts with
      | true => obtain rfl := Option.some.inj taken; exact .accepted here
      | false => obtain rfl := Option.some.inj taken; exact .refused here
    · contradiction
  | invalidate =>
    simp only [step] at taken
    split at taken
    next here => obtain rfl := Option.some.inj taken; exact .invalidated here (invalidate_kept ..)
    · contradiction
  | othersRoute client dead now => obtain rfl := Option.some.inj taken; exact .others rfl (routeFresh_kept ..)
  | othersInvalidate client => obtain rfl := Option.some.inj taken; exact .others rfl (invalidate_kept ..)

/-- The end of an attempt to connect: the address, and whether it accepted. -/
def attempted (t : Taken Task Event) : Option (SocketAddr × Bool) :=
  match t.event, t.pre.point with
  | .connect accepts, .connecting addr => some (addr,accepts)
  | _, _ => none

def attempts (past : List (Taken Task Event)) : List (SocketAddr × Bool) := past.filterMap attempted

structure Tried (by_ : UnstableSort) (backends : List Backend) (past : List (Taken Task Event)) (s : Task) : Prop where
  ring : s.proxy.ring = .fromBackends by_ backends
  once : s.dead.Nodup
  known : ∀ addr ∈ s.dead, ∃ b ∈ backends, b.addr = addr
  log : attempts past = s.dead.map (·,false) ++ (match s.point with | .served addr => [(addr,true)] | _ => [])
  next : ∀ addr, s.point = .connecting addr ∨ s.point = .served addr →
    addr ∉ s.dead ∧ ∃ b ∈ backends, b.addr = addr
  spent : s.point = .nobody → ∀ b ∈ backends, b.addr ∈ s.dead

theorem attempts_snoc : attempts (past ++ [t]) = attempts past ++ (attempted t).toList := by
  cases last : attempted t <;> simp [attempts,last]

/-- A step that is no attempt, to a point that waits for nothing in particular. -/
theorem Tried.moves (tried : Tried by_ backends past s) (quiet : attempted ⟨s,e,s'⟩ = none)
    (same : s'.proxy.ring = s.proxy.ring) (dead : s'.dead = s.dead) (unserved : ∀ addr, s.point ≠ .served addr)
    (next : ∀ addr, s'.point = .connecting addr → addr ∉ s.dead ∧ ∃ b ∈ backends, b.addr = addr)
    (waits : ∀ addr, s'.point ≠ .served addr) (spent : s'.point = .nobody → ∀ b ∈ backends, b.addr ∈ s.dead) :
    Tried by_ backends (past ++ [⟨s,e,s'⟩]) s' := by
  refine ⟨same.trans tried.ring,by rw [dead]; exact tried.once,by rw [dead]; exact tried.known,?_,?_,?_⟩
  · rw [attempts_snoc,quiet,tried.log,dead]
    split
    next addr here => exact absurd here (unserved addr)
    next => simp
  · rw [dead]
    rintro addr (toward | there)
    · exact next addr toward
    · exact absurd there (waits addr)
  · rw [dead]
    exact spent

theorem tried_step (by_ : UnstableSort) (backends : List Backend) (s s' : Task) (e : Event)
    (tried : Tried by_ backends past s) (steps : Steps clientIp s e s') :
    Tried by_ backends (past ++ [⟨s,e,s'⟩]) s' := by
  cases steps with
  | @found now addr here hit =>
    obtain ⟨_,alive,⟨b,member,is⟩,_⟩ := (hit_eq_some s.proxy).mp hit
    rw [tried.ring] at member
    refine tried.moves (by simp [attempted]) rfl rfl (by simp [here]) ?_ (by simp) (by simp)
    rintro _ ⟨rfl⟩
    exact ⟨alive,b,member,is⟩
  | missed here => exact tried.moves (by simp [attempted]) rfl rfl (by simp [here]) (by simp) (by simp) (by simp)
  | @routed b proxy now here routed fits same =>
    rw [tried.ring] at routed
    obtain ⟨member,alive⟩ := Ring.routeExcluding_eq_some by_ backends clientIp s.dead routed
    refine tried.moves (by simp [attempted]) same.ring rfl (by simp [here]) ?_ (by simp) (by simp)
    rintro _ ⟨rfl⟩
    exact ⟨alive,b,member,rfl⟩
  | exhausted here nobody =>
    rw [tried.ring] at nobody
    have all := (Ring.routeExcluding_eq_none by_ backends clientIp s.dead).mp nobody
    exact tried.moves (by simp [attempted]) rfl rfl (by simp [here]) (by simp) (by simp) fun _ => all
  | overflowed here routed clean full same =>
    exact tried.moves (by simp [attempted]) same.ring rfl (by simp [here]) (by simp) (by simp) (by simp)
  | @accepted addr here =>
    refine ⟨tried.ring,tried.once,tried.known,?_,?_,by simp⟩
    · rw [attempts_snoc,tried.log]
      simp [attempted,here]
    · rintro other (toward | there)
      · simp at toward
      · exact tried.next other (.inl (by simpa [here] using there))
  | @refused addr here =>
    obtain ⟨alive,member⟩ := tried.next addr (.inl here)
    refine ⟨tried.ring,?_,?_,?_,by simp,by simp⟩
    · exact tried.once.append (List.nodup_singleton addr) (by simpa using alive)
    · exact List.forall_mem_append.mpr ⟨tried.known,List.forall_mem_singleton.mpr member⟩
    · rw [attempts_snoc,tried.log]
      simp [attempted,here]
  | invalidated here same =>
    exact tried.moves (by simp [attempted]) same.ring rfl (by simp [here]) (by simp) (by simp) (by simp)
  | others beside same =>
    refine ⟨same.ring.trans tried.ring,tried.once,tried.known,?_,tried.next,tried.spent⟩
    have quiet : ∀ s', attempted ⟨s,e,s'⟩ = none := by
      intro s'
      cases e <;> first | rfl | simp [Event.own] at beside
    rw [attempts_snoc,quiet,tried.log]
    simp

theorem tried_run (by_ : UnstableSort) (backends : List Backend) (proxy : ProxyState)
    (ring : proxy.ring = .fromBackends by_ backends) (run : Run (step clientIp) (initial proxy) past s) :
    Tried by_ backends past s := by
  induction run with
  | nil => exact ⟨ring,.nil,by simp [initial],by simp [attempts,initial],by simp [initial],by simp [initial]⟩
  | @snoc past s e s' _ taken ih => exact tried_step by_ backends s s' e ih (step_steps clientIp s s' e taken)

/-- The time of the sticky entry is past the last `Instant`, and it would have been written. -/
def Overflows (backends : List Backend) (ttl : Nat) (t : Taken Task Event) : Prop :=
  ∃ now, t.event = .route now ∧ instantLimit ≤ now + ttl ∧ t.pre.proxy.poisoned = false ∧
    ∃ b ∈ backends, b.addr ∉ t.pre.dead

theorem panicked_step (by_ : UnstableSort) (backends : List Backend) (tried : Tried by_ backends past s)
    (steps : Steps clientIp s e s') :
    s'.point = .panicked ↔ s.point = .panicked ∨ Overflows backends s.proxy.ttl ⟨s,e,s'⟩ := by
  have alive (b : Backend) (found : s.proxy.ring.routeExcluding clientIp s.dead = some b) :
      ∃ b ∈ backends, b.addr ∉ s.dead := by
    rw [tried.ring] at found
    exact ⟨b,Ring.routeExcluding_eq_some by_ backends clientIp s.dead found⟩
  cases steps with
  | routed here routed fits same =>
    refine iff_of_false (by simp) ?_
    rintro (there | ⟨now,same_,full,clean,_⟩)
    · simp [here] at there
    · obtain rfl := Event.route.inj same_
      rcases fits with poisoned | fits
      · simp [poisoned] at clean
      · exact absurd fits (Nat.not_lt.mpr full)
  | exhausted here nobody =>
    rw [tried.ring] at nobody
    have all := (Ring.routeExcluding_eq_none by_ backends clientIp s.dead).mp nobody
    refine iff_of_false (by simp) ?_
    rintro (there | ⟨_,_,_,_,b,member,alive⟩)
    · simp [here] at there
    · exact alive (all b member)
  | overflowed here routed clean full same =>
    exact iff_of_true rfl (.inr ⟨_,rfl,Nat.le_of_not_lt full,clean,alive _ routed⟩)
  | others beside same =>
    refine (or_iff_left ?_).symm
    rintro ⟨now,rfl,_⟩
    simp [Event.own] at beside
  | found here | missed here | accepted here | refused here | invalidated here => simp [Overflows,here]

/-- The task panics where it has to write a time that there is none of, and nowhere else. -/
theorem panicked_run (by_ : UnstableSort) (backends : List Backend) (proxy : ProxyState)
    (ring : proxy.ring = .fromBackends by_ backends) (run : Run (step clientIp) (initial proxy) past s) :
    s.proxy.ttl = proxy.ttl ∧ (s.point = .panicked ↔ ∃ t ∈ past, Overflows backends proxy.ttl t) := by
  induction run with
  | nil => simp [initial]
  | @snoc past s e s' before taken ih =>
    have steps := step_steps clientIp s s' e taken
    have panics := panicked_step by_ backends (tried_run by_ backends proxy ring before) steps
    refine ⟨?_,?_⟩
    · cases steps with
      | routed _ _ _ same | overflowed _ _ _ _ same | invalidated _ same | others _ same => exact same.ttl.trans ih.1
      | _ => exact ih.1
    · rw [panics,ih.1,ih.2]
      simp only [List.mem_append,List.mem_singleton,or_and_right,exists_or,exists_eq_left]

/-- The steps the task has still to take, at most: four for each backend that is not dead. -/
def Task.left (backends : List Backend) (s : Task) : Nat :=
  match s.point with
  | .picking => 4 * (backends.length - s.dead.length) + 2
  | .routing => 4 * (backends.length - s.dead.length) + 1
  | .connecting _ => 4 * (backends.length - s.dead.length)
  | .invalidating => 4 * (backends.length - s.dead.length) + 3
  | _ => 0

theorem length_le_backends (backends : List Backend) (dead : List SocketAddr) (once : dead.Nodup)
    (known : ∀ addr ∈ dead, ∃ b ∈ backends, b.addr = addr) : dead.length ≤ backends.length := by
  have within : dead ⊆ backends.map Backend.addr := by
    intro addr member
    exact List.mem_map.mpr (known addr member)
  simpa using (List.subperm_of_subset once within).length_le

/-- A backend that is tried next is one more. -/
theorem Tried.room (tried : Tried by_ backends past s) (here : s.point = .connecting addr ∨ s.point = .served addr) :
    s.dead.length < backends.length := by
  obtain ⟨alive,member⟩ := tried.next addr here
  have more := length_le_backends backends (addr :: s.dead) (List.nodup_cons.mpr ⟨alive,tried.once⟩)
    (List.forall_mem_cons.mpr ⟨member,tried.known⟩)
  exact more

theorem left_step (backends : List Backend) (tried : Tried by_ backends past s) (steps : Steps clientIp s e s')
    (own : e.own = true) : s'.left backends < s.left backends := by
  cases steps with
  | others beside => simp [own] at beside
  | found here | missed here | routed here | exhausted here | overflowed here | invalidated here =>
    simp [Task.left,here]
  | accepted here =>
    have room := tried.room (.inl here)
    simp only [Task.left,here]
    omega
  | refused here =>
    have room := tried.room (.inl here)
    simp only [Task.left,here,List.length_append,List.length_singleton]
    omega

theorem left_run (by_ : UnstableSort) (backends : List Backend) (proxy : ProxyState)
    (ring : proxy.ring = .fromBackends by_ backends) (run : Run (step clientIp) (initial proxy) past s) :
    (past.filter fun t => t.event.own).length + s.left backends ≤ 4 * backends.length + 2 := by
  induction run with
  | nil => simp [initial,Task.left]
  | @snoc past s e s' before taken ih =>
    have steps := step_steps clientIp s s' e taken
    rw [List.filter_append,List.length_append]
    cases own : e.own with
    | true =>
      have fewer := left_step backends (tried_run by_ backends proxy ring before) steps own
      simp only [List.filter_singleton,own,cond_true,List.length_singleton]
      omega
    | false =>
      have same : s'.left backends = s.left backends := by
        cases steps <;> first | rfl | simp [Event.own] at own
      simpa [own,same] using ih

theorem own_enabled (clientIp : String) (s : Task) (open_ : ∀ addr, s.point ≠ .served addr)
    (going : s.point ≠ .nobody) (sane : s.point ≠ .panicked) :
    ∃ e, e.own = true ∧ (step clientIp s e).isSome = true := by
  cases here : s.point with
  | picking => exact ⟨.look 0,rfl,by simp [step,here]⟩
  | routing => exact ⟨.route 0,rfl,by simp [step,here]⟩
  | connecting addr => exact ⟨.connect true,rfl,by simp [step,here]⟩
  | invalidating => exact ⟨.invalidate,rfl,by simp [step,here]⟩
  | served addr => exact absurd here (open_ addr)
  | nobody => exact absurd here going
  | panicked => exact absurd here sane

/-- Every run of the task, whatever the cache holds and whatever other tasks do to it. No
address is tried twice; the task is done after at most four steps for each backend and two
more; the first backend that accepts is the one it is connected to; it finds nobody
only after every backend has refused; and it panics only where the time to live of a new sticky
entry ends after the last `Instant`. -/
theorem failover_once (by_ : UnstableSort) (backends : List Backend)
    (proxy : ProxyState) (ring : proxy.ring = .fromBackends by_ backends) (clientIp : String)
    (past : List (Taken Task Event)) (s : Task) (run : Run (step clientIp) (initial proxy) past s) :
    ((attempts past).map Prod.fst).Nodup ∧
    (∀ a ∈ attempts past, ∃ b ∈ backends, b.addr = a.1) ∧
    (attempts past).length ≤ backends.length ∧
    (past.filter fun t => t.event.own).length ≤ 4 * backends.length + 2 ∧
    ((∀ addr, s.point ≠ .served addr) → s.point ≠ .nobody → s.point ≠ .panicked →
      ∃ e, e.own = true ∧ (step clientIp s e).isSome = true) ∧
    (∀ addr, s.point = .served addr ↔ (addr,true) ∈ attempts past) ∧
    (∀ addr, s.point = .served addr →
      ∃ refused : List SocketAddr, attempts past = refused.map (·,false) ++ [(addr,true)]) ∧
    (s.point = .nobody → ∀ b ∈ backends, (b.addr,false) ∈ attempts past) ∧
    (s.point = .panicked ↔ ∃ t ∈ past, Overflows backends proxy.ttl t) := by
  have panics := (panicked_run by_ backends proxy ring run).2
  have tried := tried_run by_ backends proxy ring run
  have bound := left_run by_ backends proxy ring run
  cases here : s.point with
  | served addr =>
    have log : attempts past = s.dead.map (·,false) ++ [(addr,true)] := by rw [tried.log,here]
    obtain ⟨alive,member⟩ := tried.next addr (.inr here)
    have room := tried.room (.inr here)
    refine ⟨?_,?_,?_,by omega,by simp,?_,?_,by simp,here ▸ panics⟩
    · rw [log]
      simpa [Function.comp_def] using tried.once.append (List.nodup_singleton addr) (by simpa using alive)
    · rw [log]
      refine List.forall_mem_append.mpr ⟨?_,List.forall_mem_singleton.mpr member⟩
      simpa using tried.known
    · rw [log]
      simpa using Nat.succ_le_of_lt room
    · intro other
      simp [log,eq_comm]
    · rintro other ⟨rfl⟩
      exact ⟨s.dead,log⟩
  | _ =>
    have log : attempts past = s.dead.map (·,false) := by rw [tried.log,here]; simp
    refine ⟨?_,?_,?_,by omega,fun open_ going sane => ?_,?_,by simp,?_,here ▸ panics⟩
    · simpa [log,Function.comp_def] using tried.once
    · simpa [log] using tried.known
    · simpa [log] using length_le_backends backends s.dead tried.once tried.known
    · exact own_enabled clientIp s (by rw [here]; exact open_) (by rw [here]; exact going) (by rw [here]; exact sane)
    · simp [log]
    · intro spent
      rw [log]
      intro b member
      exact List.mem_map.mpr ⟨b.addr,tried.spent (here.trans spent) b member,rfl⟩

theorem second_routed : (Ring.fromBackends stableSort pods).routeExcluding "10.0.0.1" [.v4 0x7f000001 3001] =
    some ⟨.v4 0x7f000001 3002,"pod-1"⟩ := by
  cases found : (Ring.fromBackends stableSort pods).routeExcluding "10.0.0.1" [.v4 0x7f000001 3001] with
  | none =>
    have all := (Ring.routeExcluding_eq_none stableSort pods _ _).mp found ⟨.v4 0x7f000001 3002,"pod-1"⟩ (by decide)
    exact absurd all (by decide)
  | some b =>
    obtain ⟨member,alive⟩ := Ring.routeExcluding_eq_some stableSort pods _ _ found
    simp only [pods,List.mem_cons,List.not_mem_nil,or_false] at member
    rcases member with rfl | rfl
    · exact absurd alive (by decide)
    · rfl

/-- The cache sends a client to the first pod, which refuses; the second one accepts. -/
theorem failover_once_second : ∃ (proxy : ProxyState) (past : List (Taken Task Event)) (s : Task),
    Run (step "10.0.0.1") (initial proxy) past s ∧
    attempts past = [(.v4 0x7f000001 3001,false),(.v4 0x7f000001 3002,true)] ∧
    s.point = .served (.v4 0x7f000001 3002) ∧ ((attempts past).map Prod.fst).Nodup ∧
    ¬ ∃ t ∈ past, Overflows pods proxy.ttl t := by
  let proxy : ProxyState := ⟨.fromBackends stableSort pods,fun _ => some (.v4 0x7f000001 3001,10),false,10⟩
  obtain ⟨past,s,run,log,here,dead,clean,ttl⟩ := exists_run (step "10.0.0.1") (initial proxy)
    [.look 1,.connect false,.invalidate,.look 2] (fun past s => attempts past = [(.v4 0x7f000001 3001,false)] ∧
      s.point = .routing ∧ s.dead = [.v4 0x7f000001 3001] ∧ s.proxy.poisoned = false ∧ s.proxy.ttl = 10) (by decide +kernel)
  -- the choice among the other pods is left to the ring, which sorts
  have found := second_routed
  rw [← (tried_run stableSort pods proxy rfl run).ring,← dead] at found
  have chosen : ∃ routed, step "10.0.0.1" s (.route 3) = some routed ∧ routed.point = .connecting (.v4 0x7f000001 3002) := by
    refine ⟨_,by rw [step,here],?_⟩
    simp [ProxyState.routeFresh,found,clean,ttl,instantLimit,Point.after]
  obtain ⟨routed,chosen,toward⟩ := chosen
  have accepted : step "10.0.0.1" routed (.connect true) = some { routed with point := .served (.v4 0x7f000001 3002) } := by
    simp [step,toward]
  have whole := (run.snoc chosen).snoc accepted
  obtain ⟨once,_,_,_,_,_,_,_,panics⟩ := failover_once stableSort pods proxy rfl "10.0.0.1" _ _ whole
  refine ⟨proxy,_,_,whole,?_,rfl,once,fun overflows => absurd (panics.mpr overflows) (by simp)⟩
  rw [attempts_snoc,attempts_snoc,log]
  simp [attempted,toward]

end Malkuth.Failover
