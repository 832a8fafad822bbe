import Malkuth.RingLaws

/-! What `pick` answers over a whole history of calls: a live backend whenever there is
one, and for one client the same one until its entry expires. The one thing that breaks
this is the panic of `Instant::now() + self.ttl` with the cache locked. -/
namespace Malkuth.Proxy

open Transition

/-- An answer that is `None` exactly when every backend is dead, and else names a backend
of the ring that is not. -/
def Sound (ring : Ring) (dead : List SocketAddr) (picked : Picked) : Prop :=
  (picked = .returned none ↔ ∀ b ∈ ring.backends, b.addr ∈ dead) ∧
  ((∃ b ∈ ring.backends, b.addr ∉ dead) →
    ∃ x, picked = .returned (some x) ∧ x.addr ∉ dead ∧ ∃ b ∈ ring.backends, b.addr = x.addr)

def AllSound (past : List (Taken Clocked Event)) : Prop :=
  ∀ t ∈ past, ∀ client dead first second, t.event = .pick client dead first second →
    Sound t.pre.state.ring dead (t.pre.state.pick client dead first second).1

/-- A later pick for the same client can be expected to find this address. -/
def Available (addr : SocketAddr) (client : String) (v : Taken Clocked Event) : Prop :=
  ∀ dead first second, v.event = .pick client dead first second →
    addr ∉ dead ∧ ∃ b ∈ v.pre.state.ring.backends, b.addr = addr

/-- Once routed, a client stays with its backend until the entry expires. -/
def Sticky (ttl : Nat) (past : List (Taken Clocked Event)) : Prop :=
  ∀ before t middle u after, past = before ++ t :: (middle ++ u :: after) →
    ∀ client dead first second x, t.event = .pick client dead first second →
    t.pre.state.hit client dead first = none →
    (t.pre.state.pick client dead first second).1 = .returned (some x) →
    ∀ dead' first' second', u.event = .pick client dead' first' second' → first' < second + ttl →
    (∀ v ∈ middle, v.event ≠ .invalidate client) →
    (∀ v ∈ middle, Available x.addr client v) → Available x.addr client u →
    ∃ y, (u.pre.state.pick client dead' first' second').1 = .returned (some y) ∧ y.addr = x.addr

def Fits (s : ProxyState) : Event → Prop
  | .pick client dead first second => s.hit client dead first = none →
      (s.ring.routeExcluding client dead).isSome = true → second + s.ttl < instantLimit
  | _ => True

inductive Picks (s : ProxyState) (client : String) (dead : List SocketAddr) (first second : Nat) :
    Picked → ProxyState → Prop where
  | cached (found : s.hit client dead first = some addr) :
      Picks s client dead first second (.returned (some ⟨addr,""⟩)) s
  | nobody (missed : s.hit client dead first = none) (none_ : s.ring.routeExcluding client dead = none) :
      Picks s client dead first second (.returned none) s
  | unrecorded (missed : s.hit client dead first = none)
      (routed : s.ring.routeExcluding client dead = some b) (poisoned : s.poisoned = true) :
      Picks s client dead first second (.returned (some b)) s
  | recorded (missed : s.hit client dead first = none)
      (routed : s.ring.routeExcluding client dead = some b) (sane : s.poisoned = false)
      (fits : second + s.ttl < instantLimit) :
      Picks s client dead first second (.returned (some b))
        { s with sticky := Function.update s.sticky client (some (b.addr,second + s.ttl)) }
  | panicked (missed : s.hit client dead first = none)
      (routed : s.ring.routeExcluding client dead = some b) (sane : s.poisoned = false)
      (full : ¬ second + s.ttl < instantLimit) :
      Picks s client dead first second .panicked { s with poisoned := true }

theorem pick_picks (s : ProxyState) (client : String) (dead : List SocketAddr) (first second : Nat) :
    ∃ picked after, s.pick client dead first second = (picked,after) ∧
      Picks s client dead first second picked after := by
  unfold ProxyState.pick
  cases found : s.hit client dead first with
  | some addr => exact ⟨_,_,rfl,.cached found⟩
  | none =>
    simp only [ProxyState.routeFresh]
    cases routed : s.ring.routeExcluding client dead with
    | none => exact ⟨_,_,rfl,.nobody found routed⟩
    | some b =>
      simp only
      by_cases poisoned : s.poisoned = true
      · rw [if_pos poisoned]
        exact ⟨_,_,rfl,.unrecorded found routed poisoned⟩
      · rw [if_neg poisoned]
        have sane : s.poisoned = false := by simpa using poisoned
        by_cases fits : second + s.ttl < instantLimit
        · rw [if_pos fits]
          exact ⟨_,_,rfl,.recorded found routed sane fits⟩
        · rw [if_neg fits]
          exact ⟨_,_,rfl,.panicked found routed sane fits⟩

/-- What a hit says about the cache and the ring. -/
theorem hit_eq_some (s : ProxyState) : s.hit client dead now = some addr ↔
    s.poisoned = false ∧ addr ∉ dead ∧ (∃ b ∈ s.ring.backends, b.addr = addr) ∧
      ∃ exp, s.sticky client = some (addr,exp) ∧ now < exp := by
  unfold ProxyState.hit
  cases poisoned : s.poisoned with
  | true => simp
  | false =>
    cases entry : s.sticky client with
    | none => simp
    | some e =>
      obtain ⟨a,exp⟩ := e
      simp only [Bool.false_eq_true,if_false,Option.bind_eq_bind,Option.bind_some,Option.some.injEq,
        Prod.mk.injEq,true_and]
      constructor
      · intro found
        split at found
        next live =>
          split at found
          next member =>
            obtain rfl := Option.some.inj found
            simp only [List.any_eq_true,beq_iff_eq] at member
            exact ⟨live.2,member,exp,⟨rfl,rfl⟩,live.1⟩
          · contradiction
        · contradiction
      · rintro ⟨alive,member,_,⟨rfl,rfl⟩,fresh⟩
        rw [if_pos ⟨fresh,alive⟩,if_pos]
        simpa using member

/-- The rings a proxy can hold. -/
def Built (by_ : UnstableSort) (ring : Ring) : Prop := ∃ backends, ring = .fromBackends by_ backends

theorem built_default (by_ : UnstableSort) : Built by_ .default := by
  refine ⟨[],?_⟩
  have empty : by_.sort [] = [] := (by_.perm []).eq_nil
  simp [Ring.default,Ring.fromBackends,Ring.unsorted,empty]

theorem sound_of_live (ring : Ring) (x : Backend) (alive : x.addr ∉ dead)
    (member : ∃ b ∈ ring.backends, b.addr = x.addr) : Sound ring dead (.returned (some x)) := by
  obtain ⟨b,here,same⟩ := member
  refine ⟨⟨by simp,fun all => ?_⟩,fun _ => ⟨x,rfl,alive,b,here,same⟩⟩
  exact absurd (same ▸ all b here) alive

theorem sound_of_routed (ring : Ring) (built : Built by_ ring)
    (routed : ring.routeExcluding client dead = some b) : Sound ring dead (.returned (some b)) := by
  obtain ⟨backends,rfl⟩ := built
  obtain ⟨member,alive⟩ := Ring.routeExcluding_eq_some by_ backends client dead routed
  exact sound_of_live _ b alive ⟨b,member,rfl⟩

theorem sound_of_none (ring : Ring) (built : Built by_ ring)
    (none_ : ring.routeExcluding client dead = none) : Sound ring dead (.returned none) := by
  obtain ⟨backends,rfl⟩ := built
  have all := (Ring.routeExcluding_eq_none by_ backends client dead).mp none_
  refine ⟨⟨fun _ => all,fun _ => rfl⟩,?_⟩
  rintro ⟨b,member,alive⟩
  exact absurd (all b member) alive

theorem pick_sound (s : ProxyState) (built : Built by_ s.ring)
    (fits : Fits s (.pick client dead first second)) :
    Sound s.ring dead (s.pick client dead first second).1 := by
  obtain ⟨picked,after,eq,picks⟩ := pick_picks s client dead first second
  rw [eq]
  cases picks with
  | cached found =>
    obtain ⟨_,alive,member,_⟩ := (hit_eq_some s).mp found
    exact sound_of_live s.ring _ alive member
  | nobody _ none_ => exact sound_of_none s.ring built none_
  | unrecorded _ routed | recorded _ routed => exact sound_of_routed s.ring built routed
  | panicked missed routed _ full => exact absurd (fits missed (by simp [routed])) full

/-- A pick that does not fit panics, unless it did so before. -/
theorem pick_unsound (s : ProxyState) (sane : s.poisoned = false)
    (full : ¬ Fits s (.pick client dead first second)) :
    (s.pick client dead first second).1 = .panicked := by
  simp only [Fits,Classical.not_imp] at full
  obtain ⟨missed,found,full⟩ := full
  obtain ⟨b,routed⟩ := Option.isSome_iff_exists.mp found
  simp [ProxyState.pick,missed,ProxyState.routeFresh,routed,sane,full]

theorem not_sound_panicked (ring : Ring) : ¬ Sound ring dead .panicked := by
  rintro ⟨all,some_⟩
  by_cases everyone : ∀ b ∈ ring.backends, b.addr ∈ dead
  · simpa using all.mpr everyone
  · obtain ⟨x,picked,_⟩ := some_ (by simpa using everyone)
    simp at picked

theorem step_pick (by_ : UnstableSort) (s s' : Clocked) (client : String) (dead : List SocketAddr)
    (first second : Nat) : step by_ s (.pick client dead first second) = some s' ↔
      (s.now ≤ first ∧ first ≤ second) ∧ s' = ⟨(s.state.pick client dead first second).2,second⟩ := by
  simp [step,eq_comm]

theorem step_now (by_ : UnstableSort) (s : Clocked) (e : Event) (s' : Clocked) (taken : step by_ s e = some s') :
    s.now ≤ s'.now := by
  cases e with
  | setBackends | invalidate =>
    obtain rfl := Option.some.inj taken
    exact Nat.le_refl _
  | pick client dead first second =>
    obtain ⟨order,rfl⟩ := (step_pick ..).mp taken
    exact Nat.le_trans order.1 order.2

structure Sane (by_ : UnstableSort) (ttl : Nat) (s : Clocked) : Prop where
  built : Built by_ s.state.ring
  sane : s.state.poisoned = false
  lasting : s.state.ttl = ttl

theorem step_sane (by_ : UnstableSort) (s : Clocked) (e : Event) (s' : Clocked) (sane : Sane by_ ttl s)
    (fits : Fits s.state e) (taken : step by_ s e = some s') : Sane by_ ttl s' := by
  cases e with
  | setBackends backends =>
    obtain rfl := Option.some.inj taken
    exact ⟨⟨backends,rfl⟩,sane.sane,sane.lasting⟩
  | invalidate client =>
    obtain rfl := Option.some.inj taken
    simpa [ProxyState.invalidate,sane.sane] using Sane.mk (s := { s with state := { s.state with
      sticky := Function.update s.state.sticky client none } }) sane.built sane.sane sane.lasting
  | pick client dead first second =>
    obtain ⟨_,rfl⟩ := (step_pick ..).mp taken
    obtain ⟨picked,after,eq,picks⟩ := pick_picks s.state client dead first second
    rw [eq]
    cases picks with
    | cached | nobody | unrecorded => exact ⟨sane.built,sane.sane,sane.lasting⟩
    | recorded => exact ⟨sane.built,sane.sane,sane.lasting⟩
    | panicked missed routed _ full => exact absurd (fits missed (by simp [routed])) full

theorem initial_sane (by_ : UnstableSort) (ttl now : Nat) : Sane by_ ttl (initial ttl now) :=
  ⟨built_default by_,rfl,rfl⟩

def Remembers (client : String) (addr : SocketAddr) (exp : Nat) (s : Clocked) : Prop :=
  s.state.sticky client = some (addr,exp)

/-- A step leaves the entry of a client alone, unless it forgets it or comes too late. -/
theorem step_remembers (by_ : UnstableSort) (s : Clocked) (e : Event) (s' : Clocked) (sane : Sane by_ ttl s)
    (remembers : Remembers client addr exp s) (kept : e ≠ .invalidate client)
    (available : Available addr client ⟨s,e,s'⟩) (taken : step by_ s e = some s') (fresh : s'.now < exp) :
    Remembers client addr exp s' := by
  cases e with
  | setBackends backends =>
    obtain rfl := Option.some.inj taken
    exact remembers
  | invalidate other =>
    obtain rfl := Option.some.inj taken
    have different : client ≠ other := by rintro rfl; exact kept rfl
    simpa [Remembers,ProxyState.invalidate,sane.sane,different] using remembers
  | pick other dead first second =>
    obtain ⟨order,rfl⟩ := (step_pick ..).mp taken
    by_cases same : other = client
    · subst same
      obtain ⟨alive,member⟩ := available dead first second rfl
      have early : first < exp := Nat.lt_of_le_of_lt order.2 fresh
      have found : s.state.hit other dead first = some addr :=
        (hit_eq_some s.state).mpr ⟨sane.sane,alive,member,exp,remembers,early⟩
      simpa [Remembers,ProxyState.pick,found] using remembers
    · obtain ⟨picked,after,eq,picks⟩ := pick_picks s.state other dead first second
      rw [eq]
      cases picks with
      | cached | nobody | unrecorded | panicked => exact remembers
      | recorded => simpa [Remembers,Ne.symm same] using remembers

theorem run_remembers (by_ : UnstableSort) (run : Run (step by_) m middle s) (sane : Sane by_ ttl m)
    (remembers : Remembers client addr exp m) (fits : ∀ v ∈ middle, Fits v.pre.state v.event)
    (kept : ∀ v ∈ middle, v.event ≠ .invalidate client)
    (available : ∀ v ∈ middle, Available addr client v) :
    Sane by_ ttl s ∧ (s.now < exp → Remembers client addr exp s) := by
  induction run with
  | nil => exact ⟨sane,fun _ => remembers⟩
  | @snoc middle m e m' _ taken ih =>
    have last : (⟨m,e,m'⟩ : Taken Clocked Event) ∈ middle ++ [⟨m,e,m'⟩] := by simp
    obtain ⟨sane',entry⟩ := ih (fun v member => fits v (List.mem_append_left _ member))
      (fun v member => kept v (List.mem_append_left _ member))
      (fun v member => available v (List.mem_append_left _ member))
    refine ⟨step_sane by_ m e m' sane' (fits _ last) taken,fun fresh => ?_⟩
    have order := step_now by_ m e m' taken
    have earlier : m.now < exp := by omega
    exact step_remembers by_ m e m' sane' (entry earlier) (kept _ last) (available _ last) taken fresh

theorem pick_recorded (by_ : UnstableSort) (s s' : Clocked) (sane : Sane by_ ttl s)
    (missed : s.state.hit client dead first = none)
    (answer : (s.state.pick client dead first second).1 = .returned (some x))
    (taken : step by_ s (.pick client dead first second) = some s') :
    Remembers client x.addr (second + ttl) s' := by
  obtain ⟨_,rfl⟩ := (step_pick ..).mp taken
  obtain ⟨picked,after,eq,picks⟩ := pick_picks s.state client dead first second
  rw [eq] at answer ⊢
  cases picks with
  | cached found => simp [missed] at found
  | nobody => simp at answer
  | unrecorded _ _ poisoned => simp [sane.sane] at poisoned
  | panicked => simp at answer
  | recorded =>
    obtain rfl : _ = x := by simpa using answer
    simp [Remembers,sane.lasting]

theorem run_sticky (by_ : UnstableSort) (ttl now : Nat) (run : Run (step by_) (initial ttl now) past s)
    (fits : ∀ t ∈ past, Fits t.pre.state t.event) : Sticky ttl past := by
  rintro before t middle u after rfl client dead first second x begun missed answer
    dead' first' second' again early kept available here
  obtain ⟨front,taken,rest⟩ := run.split
  obtain ⟨toU,takenU,_⟩ := rest.split
  have sane := front.invariant (P := Sane by_ ttl) (initial_sane by_ ttl now) (step_sane by_)
    fun v member => fits v (by simp [member])
  have fitsT := fits t (by simp)
  rw [begun] at taken fitsT
  have remembers := pick_recorded by_ t.pre t.post sane missed answer taken
  obtain ⟨saneU,entry⟩ := run_remembers by_ toU (step_sane by_ _ _ _ sane fitsT taken) remembers
    (fun v member => fits v (by simp [member])) kept available
  rw [again] at takenU
  have order : u.pre.now ≤ first' := ((step_pick ..).mp takenU).1.1
  obtain ⟨alive,member⟩ := here dead' first' second' again
  have found : u.pre.state.hit client dead' first' = some x.addr :=
    (hit_eq_some u.pre.state).mpr ⟨saneU.sane,alive,member,_,entry (by omega),early⟩
  exact ⟨⟨x.addr,""⟩,by simp [ProxyState.pick,found],rfl⟩

/-- The first pick that does not fit is not sound. -/
theorem run_fits (by_ : UnstableSort) (ttl now : Nat) (run : Run (step by_) (initial ttl now) past s)
    (sound : AllSound past) : (∀ t ∈ past, Fits t.pre.state t.event) ∧ Sane by_ ttl s := by
  induction run with
  | nil => exact ⟨by simp,initial_sane by_ ttl now⟩
  | @snoc past m e m' _ taken ih =>
    obtain ⟨before,sane⟩ := ih fun t member => sound t (List.mem_append_left _ member)
    have last : Fits m.state e := by
      cases e with
      | setBackends | invalidate => trivial
      | pick client dead first second =>
        by_contra full
        have answer := sound ⟨m,_,m'⟩ (by simp) client dead first second rfl
        rw [pick_unsound m.state sane.sane full] at answer
        exact not_sound_panicked m.state.ring answer
    refine ⟨?_,step_sane by_ m e m' sane last taken⟩
    exact List.forall_mem_append.mpr ⟨before,List.forall_mem_singleton.mpr last⟩

/-- Picks are sound and clients stay with their backends, in every history, if and only
if the expiry of every routed pick fits in an `Instant`. -/
theorem sticky_routing_iff (by_ : UnstableSort) (ttl now : Nat) (past : List (Taken Clocked Event))
    (s : Clocked) (run : Run (step by_) (initial ttl now) past s) :
    (AllSound past ∧ Sticky ttl past) ↔ ∀ t ∈ past, Fits t.pre.state t.event := by
  constructor
  · intro both
    exact (run_fits by_ ttl now run both.1).1
  · intro fits
    refine ⟨?_,run_sticky by_ ttl now run fits⟩
    intro t member client dead first second begun
    have sane := run.invariant_before (P := Sane by_ ttl) (initial_sane by_ ttl now) (step_sane by_) fits member
    exact pick_sound t.pre.state sane.built (begun ▸ fits t member)

/-- A pick changes nothing but the cache. -/
theorem pick_keeps (s : ProxyState) (client : String) (dead : List SocketAddr) (first second : Nat) :
    (s.pick client dead first second).2.ring = s.ring ∧
    (s.pick client dead first second).2.ttl = s.ttl := by
  obtain ⟨picked,after,eq,picks⟩ := pick_picks s client dead first second
  rw [eq]
  cases picks <;> exact ⟨rfl,rfl⟩

/-- The pods behind a proxy, and one call of `pick` after another. -/
theorem run_picks (ttl : Nat) (client : String) (times : first ≤ second) :
    let s : Clocked := ⟨(ProxyState.new ttl).setBackends stableSort pods,0⟩
    let m : Clocked := ⟨(s.state.pick client [] first first).2,first⟩
    ∃ s', Run (step stableSort) (initial ttl 0) ([⟨initial ttl 0,.setBackends pods,s⟩] ++
      ⟨s,.pick client [] first first,m⟩ :: ([] ++ ⟨m,.pick client [] second second,s'⟩ :: [])) s' :=
  ⟨_,.cons rfl (.cons ((step_pick ..).mpr ⟨⟨Nat.zero_le _,Nat.le_refl _⟩,rfl⟩)
    (.one ((step_pick ..).mpr ⟨⟨times,Nat.le_refl _⟩,rfl⟩)))⟩

/-- With an hour to live, the second pick of a client goes where the first one went. -/
theorem sticky_routing_hour :
    let s := (ProxyState.new 3600000000000).setBackends stableSort pods
    ∃ x y, (s.pick "10.0.0.1" [] 1 1).1 = .returned (some x) ∧
      ((s.pick "10.0.0.1" [] 1 1).2.pick "10.0.0.1" [] 2 2).1 = .returned (some y) ∧ y.addr = x.addr := by
  obtain ⟨s',run⟩ := run_picks 3600000000000 "10.0.0.1" (Nat.le_succ 1)
  obtain ⟨sound,sticky⟩ := (sticky_routing_iff stableSort 3600000000000 0 _ _ run).mpr (by
    simp [Fits,ProxyState.setBackends,ProxyState.new,instantLimit,pick_keeps])
  obtain ⟨x,picked,_,member⟩ := (sound _ (List.mem_cons_of_mem _ (List.mem_cons_self ..)) _ _ _ _ rfl).2
    ⟨⟨.v4 0x7f000001 3001,"pod-0"⟩,List.mem_cons_self ..,List.not_mem_nil⟩
  have available : ∀ s', Available x.addr "10.0.0.1"
      ⟨⟨(((ProxyState.new 3600000000000).setBackends stableSort pods).pick "10.0.0.1" [] 1 1).2,1⟩,
        .pick "10.0.0.1" [] 2 2,s'⟩ := by
    rintro s' dead first second ⟨⟩
    refine ⟨List.not_mem_nil,?_⟩
    rw [(pick_keeps ..).1]
    exact member
  obtain ⟨y,again,same⟩ := sticky _ _ _ _ _ rfl _ _ _ _ x rfl rfl picked _ _ _ rfl (by omega)
    (by simp) (by simp) (available s')
  exact ⟨x,y,picked,again,same⟩

/-- The longest time to live that `--sticky-ttl-secs` takes: the first pick panics. -/
theorem pick_overflows : ¬ ∀ (by_ : UnstableSort) (ttl now : Nat) (past : List (Taken Clocked Event))
    (s : Clocked), Run (step by_) (initial ttl now) past s → AllSound past ∧ Sticky ttl past := by
  intro always
  obtain ⟨s',run⟩ := run_picks (18446744073709551615 * 1000000000) "10.0.0.1" (Nat.le_succ 1)
  have sound := (always _ _ _ _ _ run).1 _ (List.mem_cons_of_mem _ (List.mem_cons_self ..)) _ _ _ _ rfl
  have full : ¬ Fits ((ProxyState.new (18446744073709551615 * 1000000000)).setBackends stableSort pods)
      (.pick "10.0.0.1" [] 1 1) := by
    intro fits
    have found : (Ring.fromBackends stableSort pods).routeExcluding "10.0.0.1" [] ≠ none := by
      intro none_
      have all := (Ring.routeExcluding_eq_none stableSort pods "10.0.0.1" []).mp none_
      exact List.not_mem_nil (all _ (List.mem_cons_self ..))
    have room := fits rfl (Option.isSome_iff_ne_none.mpr found)
    simp [ProxyState.setBackends,ProxyState.new,instantLimit] at room
  rw [pick_unsound _ rfl full] at sound
  exact not_sound_panicked _ sound

end Malkuth.Proxy
