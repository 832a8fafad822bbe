import Malkuth.PoolRing

/-! Where a pod stands, in the registry and in the ring of the proxy, while its child is
being stopped. `supervise` deregisters a pod after `stop_draining`, so a pod that was routed
when its restart was requested is routed until its child is gone. -/
namespace Malkuth.Pool

open Transition Proxy

/-- A client may be routed to this pod. -/
def Routed (s : State) (pod : Nat) : Prop :=
  ∃ c, s.proxy = some c ∧ ∃ b ∈ c.state.ring.backends, b.id = "pod-" ++ toString pod

def Registered (s : State) (pod : Nat) : Prop := pod ∈ s.metaMap

/-- No pod is routed between the start of `stop_draining` on its child and the end of it. -/
def DeregisteredFirst (s : State) : Prop :=
  ∀ pod killed, (s.pods pod).point = .stopDraining killed → ¬ Routed s pod

/-- Where a pod may stand at each point of its task; a pod without a port is never
registered. Nothing is said of the stop itself. -/
def Placed (port : UInt16) (point : Point) (registered routed : Prop) : Prop :=
  match point with
  | .spawning | .retrying | .resting => ¬ registered ∧ ¬ routed
  | .waitReady | .probing | .pausing | .registering => port ≠ 0 ∧ ¬ registered ∧ ¬ routed
  | .publishing .registered | .setting .registered _ => port ≠ 0 ∧ registered
  | .selecting => if port = 0 then ¬ registered ∧ ¬ routed else registered ∧ routed
  | .publishing .deregistered | .setting .deregistered _ => ¬ registered ∧ (port = 0 → ¬ routed)
  | .stopDraining _ | .deregistering => port = 0 → ¬ registered ∧ ¬ routed

/-- What a new ring does to a pod: it is routed if it is registered. -/
theorem Placed.refreshed (placed : Placed port point registered routed) :
    Placed port point registered registered := by
  cases point with
  | publishing update | setting update => cases update <;> simp_all [Placed]
  | selecting =>
    simp only [Placed] at placed ⊢
    split <;> simp_all
  | _ => simp_all [Placed]

theorem Shows.routed_iff (shows_ : Shows mgr s backends) (pod : Nat) :
    (∃ b ∈ backends, b.id = "pod-" ++ toString pod) ↔ Registered s pod := by
  constructor
  · rintro ⟨b,member,name⟩
    obtain ⟨e,entry,rfl⟩ := List.mem_map.mp (shows_.mem_iff.mp member)
    obtain rfl : e.1 = pod := podId_injective name
    exact AList.mem_keys.mp (List.mem_map_of_mem entry)
  · intro registered
    obtain ⟨e,entry,rfl⟩ := List.mem_map.mp (AList.mem_keys.mpr registered)
    exact ⟨_,shows_.mem_iff.mpr (List.mem_map_of_mem entry),rfl⟩

/-- The own moves of a task that touch nothing shared. -/
theorem acts_placed (acts : Pod.Acts port p a p') (placed : Placed port p.point registered routed) :
    Placed port p'.point registered routed := by
  cases acts with
  | spawned here =>
    simp only [here,Placed] at placed
    by_cases none_ : port = 0 <;> simp [Placed,none_,placed]
  | ready here | probed here =>
    simp only [here,Placed] at placed
    simp only [Pod.unselect]
    split <;> exact placed
  | park => exact placed
  | restartBranch here | exited here =>
    intro none_
    cases point : p.point <;> simp_all [Point.Selects,Placed]
  | drainTimeout here | drained here =>
    simp only [here,Placed] at placed
    exact placed
  | spawnFailed here | retry here | paused here | rested here =>
    simp only [here,Placed] at placed
    exact placed

def Stands (mgr : PodManager) (s : State) : Prop :=
  ∀ pod port, mgr.ports.lookup pod = some port →
    Placed port (s.pods pod).point (Registered s pod) (Routed s pod)

theorem routed_congr (s s' : State) (pod : Nat) (present : s.proxy = some c) (present' : s'.proxy = some c')
    (ring : c'.state.ring = c.state.ring) : Routed s' pod ↔ Routed s pod := by
  simp [Routed,present,present',ring]

/-- A task that changes the registry, and then goes to publish it. -/
theorem updated_placed {s : State} {i pod : Nat} (present : s.proxy = some c) (placed : Placed port (s.pods pod).point before routed)
    (other : i ≠ pod → (after ↔ before))
    (own : i = pod → Placed port (.publishing update) after routed) :
    Placed port ((s.setPod i { s.pods i with point := s.publish update }).pods pod).point after routed := by
  have publishing : s.publish update = .publishing update := by simp [State.publish,present]
  unfold State.setPod
  by_cases same : i = pod
  · subst same
    simpa [publishing] using own rfl
  · simpa [Ne.symm same,other same] using placed

theorem step_stands (steps : Steps mgr by_ s e s') (locked : Locked mgr s) (present : s.proxy = some c)
    (stands : Stands mgr s) : Stands mgr s' := by
  intro pod port known
  have placed := stands pod port known
  cases steps with
  | requested =>
    apply setPod_pods (P := fun p => Placed port p.point _ _) placed
    rintro rfl
    exact placed
  | nobody => exact placed
  | @client _ _ c' present' foreign taken =>
    rw [routed_congr s { s with proxy := some c' } pod present' rfl (client_ring taken foreign)]
    exact placed
  | acts known' acts =>
    apply setPod_pods (P := fun p => Placed port p.point _ _) placed
    rintro rfl
    obtain rfl := Option.some.inj (known'.symm.trans known)
    exact acts_placed acts placed
  | register known' here =>
    refine updated_placed (s := s) present placed ?_ ?_
    · intro different
      simp [Registered,Ne.symm different]
    · rintro rfl
      simp only [here,Placed] at placed
      exact ⟨placed.1,by simp [Registered]⟩
  | deregister known' here =>
    refine updated_placed (s := s) present placed ?_ ?_
    · intro different
      simp [Registered,Ne.symm different]
    · rintro rfl
      simp only [here,Placed] at placed
      exact ⟨by simp [Registered],fun none_ => (placed none_).2⟩
  | @lock _ _ update _ known' here =>
    apply setPod_pods (P := fun p => Placed port p.point _ _) placed
    rintro rfl
    rw [here] at placed
    cases update <;> exact placed
  | @setBackends i _ update backends known' here =>
    have shows_ := (locked _ _ _ here).2
    have routed : Routed { s.setPod i { s.pods i with point := .published update } with
        proxy := s.proxy.map fun c => { c with state := c.state.setBackends by_ backends }
        lock := none } pod ↔ Registered s pod := by
      rw [← shows_.routed_iff]
      simp [Routed,present,ProxyState.setBackends,Ring.fromBackends]
    rw [routed]
    have fresh := placed.refreshed
    apply setPod_pods (P := fun p => Placed port p.point _ _) fresh
    rintro rfl
    rw [here] at placed fresh
    cases update with
    | registered =>
      obtain ⟨ported,registered⟩ := placed
      simp only [Point.published,Placed,ported,if_false]
      exact ⟨registered,registered⟩
    | deregistered => exact ⟨placed.1,placed.1⟩

/-- The branch in which a routed pod is stopped: its restart is requested while it serves. -/
def stopsRouted (mgr : PodManager) (t : Taken State Event) : Bool :=
  match t.event with
  | .act pod .restartBranch => (t.pre.pods pod).point = .selecting && mgr.ports.lookup pod ≠ some 0
  | _ => false

theorem run_stands (run : Run (step mgr by_) (initial (some (Proxy.initial ttl now))) past s) :
    Stands mgr s := by
  induction run with
  | nil =>
    intro pod port known
    simp [initial,Pod.initial,Placed,Registered,Routed,Proxy.initial,ProxyState.new,Ring.default]
  | snoc before taken ih =>
    obtain ⟨locked,c,present,_⟩ := run_current before
    exact step_stands (step_steps mgr by_ _ _ _ taken) locked present ih

/-- A pod comes back to the registry, and so to the ring, by registering itself. -/
theorem step_withdrawn (steps : Steps mgr by_ s e s') (locked : Locked mgr s) (present : s.proxy = some c)
    (out : ¬ Registered s pod ∧ ¬ Routed s pod) (other : e ≠ .act pod .register) :
    ¬ Registered s' pod ∧ ¬ Routed s' pod := by
  cases steps with
  | requested | nobody | acts | lock => exact out
  | @client _ _ c' present' foreign taken =>
    refine ⟨out.1,?_⟩
    rw [routed_congr s { s with proxy := some c' } pod present' rfl (client_ring taken foreign)]
    exact out.2
  | @register i =>
    have different : pod ≠ i := by
      rintro rfl
      exact other rfl
    exact ⟨by simpa [Registered,different] using out.1,out.2⟩
  | deregister => exact ⟨by simp [Registered,show pod ∉ s.metaMap from out.1],out.2⟩
  | setBackends _ here =>
    have shows_ := (locked _ _ _ here).2
    refine ⟨out.1,?_⟩
    rintro ⟨c',ring,found⟩
    simp only [present,Option.map_some,Option.some.injEq] at ring
    subst ring
    exact out.1 ((shows_.routed_iff pod).mp found)

/-- `stop_draining` starts in the restart branch of a `select!`. -/
theorem step_stopping (steps : Steps mgr by_ s e s') (stopping : (s'.pods pod).point = .stopDraining killed) :
    (∃ before, (s.pods pod).point = .stopDraining before) ∨
    (e = .act pod .restartBranch ∧ (s.pods pod).point.Selects ∧ ∃ port, mgr.ports.lookup pod = some port) := by
  cases steps with
  | requested =>
    rcases setPod_point (s := s) stopping with ⟨rfl,here⟩ | ⟨_,here⟩ <;> exact .inl ⟨killed,here⟩
  | nobody | client => exact .inl ⟨killed,stopping⟩
  | acts known acts =>
    rcases setPod_point (s := s) stopping with ⟨rfl,here⟩ | ⟨_,here⟩
    · cases acts with
      | restartBranch selects => exact .inr ⟨rfl,selects,_,known⟩
      | drainTimeout was => exact .inl ⟨false,was⟩
      | park => exact .inl ⟨killed,here⟩
      | spawned | ready | probed => simp only [Pod.unselect] at here; split at here <;> simp at here
      | _ => simp [Pod.unselect] at here
    · exact .inl ⟨killed,here⟩
  | register | deregister =>
    rcases setPod_point (s := s) stopping with ⟨_,here⟩ | ⟨_,here⟩
    · simp only [State.publish] at here
      split at here <;> simp [Point.published] at here
    · exact .inl ⟨killed,here⟩
  | lock =>
    rcases setPod_point (s := s) stopping with ⟨_,here⟩ | ⟨_,here⟩
    · simp at here
    · exact .inl ⟨killed,here⟩
  | @setBackends _ _ update =>
    rcases setPod_point (s := s) stopping with ⟨_,here⟩ | ⟨_,here⟩
    · cases update <;> simp [Point.published] at here
    · exact .inl ⟨killed,here⟩

/-- A pod that leaves a `select!` of its readiness loop, or has no port, is not routed. -/
theorem Placed.out (placed : Placed port point registered routed) (selects : point.Selects)
    (safe : point = .selecting → port = 0) : ¬ registered ∧ ¬ routed := by
  cases point <;> simp_all [Placed,Point.Selects]

def Withdrawn (s : State) : Prop :=
  ∀ pod killed, (s.pods pod).point = .stopDraining killed → ¬ Registered s pod ∧ ¬ Routed s pod

theorem step_stopped_out (steps : Steps mgr by_ s e s') (locked : Locked mgr s) (present : s.proxy = some c)
    (stands : Stands mgr s) (withdrawn : Withdrawn s) (safe : stopsRouted mgr ⟨s,e,s'⟩ = false) :
    Withdrawn s' := by
  intro pod killed stopping
  rcases step_stopping steps stopping with ⟨before,here⟩ | ⟨rfl,selects,port,known⟩
  · refine step_withdrawn steps locked present (withdrawn pod before here) ?_
    rintro rfl
    cases steps with
    | acts _ acts => cases acts
    | register _ registering => simp [here] at registering
  · have out := (stands pod port known).out selects fun selecting => by
      simpa [stopsRouted,selecting,known] using safe
    exact step_withdrawn steps locked present out (by simp)

theorem run_withdrawn (run : Run (step mgr by_) (initial (some (Proxy.initial ttl now))) past s)
    (safe : ∀ t ∈ past, stopsRouted mgr t = false) : Withdrawn s := by
  induction run with
  | nil =>
    intro pod killed stopping
    simp [initial,Pod.initial] at stopping
  | @snoc past s e s' before taken ih =>
    obtain ⟨locked,c,present,_⟩ := run_current before
    rw [List.forall_mem_append,List.forall_mem_singleton] at safe
    exact step_stopped_out (step_steps mgr by_ s s' e taken) locked present (run_stands before)
      (ih safe.1) safe.2

/-- A pod that serves is still routed when its child is told to stop. -/
theorem stopsRouted_routed (taken : step mgr by_ s e = some s') (stands : Stands mgr s)
    (stops : stopsRouted mgr ⟨s,e,s'⟩ = true) : ¬ DeregisteredFirst s' := by
  intro first
  unfold stopsRouted at stops
  split at stops
  next pod event =>
    obtain rfl : e = .act pod .restartBranch := event
    have ⟨selecting,ported⟩ : (s.pods pod).point = .selecting ∧ mgr.ports.lookup pod ≠ some 0 := by
      simpa using stops
    cases step_steps mgr by_ s s' _ taken with
    | @acts _ port _ _ known acts =>
      have nonzero : port ≠ 0 := by
        rintro rfl
        exact ported known
      have placed := stands pod port known
      simp only [selecting,Placed,nonzero,if_false] at placed
      cases acts
      exact first pod false (by simp [State.setPod]) placed.2
  next => contradiction

/-- From the start of `stop_draining` on a pod's child until the child is gone the pod is out
of the ring, in every state of a run, if and only if the run never takes the restart branch
of the `select!` in which a pod with a port serves. -/
theorem drain_deregistered_iff (mgr : PodManager) (by_ : UnstableSort) (ttl now : Nat)
    (past : List (Taken State Event)) (s : State)
    (run : Run (step mgr by_) (initial (some (Proxy.initial ttl now))) past s) :
    (∀ t ∈ past, DeregisteredFirst t.post) ↔ ∀ t ∈ past, stopsRouted mgr t = false := by
  constructor
  · intro first t member
    by_contra serving
    have stops : stopsRouted mgr t = true := by simpa using serving
    obtain ⟨before,front,taken,_⟩ := run.upTo member
    exact stopsRouted_routed taken (run_stands front) stops (first t member)
  · intro safe t member
    obtain ⟨before,front,taken,earlier⟩ := run.upTo member
    have out := run_withdrawn (front.snoc taken) fun u member => safe u (earlier u member)
    exact fun pod killed stopping => (out pod killed stopping).2

/-- Pod 0 serves while pod 1 is restarted before it has become ready. -/
theorem drain_deregistered_unready : ∃ past s,
    Run (step pair stableSort) (initial (some (Proxy.initial 0 0))) past s ∧
    (s.pods 0).point = .selecting ∧ (s.pods 1).point = .stopDraining false ∧
    ∀ t ∈ past, DeregisteredFirst t.post := by
  obtain ⟨past,s,run,serves,stops,safe⟩ := exists_run (step pair stableSort)
    (initial (some (Proxy.initial 0 0)))
    [.act 0 (.spawned 7),.act 1 (.spawned 8),.act 0 (.ready true),.act 1 (.ready false),.act 0 .register,
      .act 0 (.lock [⟨0,⟨3001⟩⟩]),.act 0 .setBackends,.restartOne 1,.act 1 .restartBranch]
    (fun past s => (s.pods 0).point = .selecting ∧ (s.pods 1).point = .stopDraining false ∧
      ∀ t ∈ past, stopsRouted pair t = false) (by decide +kernel)
  exact ⟨past,s,run,serves,stops,(drain_deregistered_iff pair stableSort 0 0 past s run).mpr safe⟩

/-- A pod that serves is restarted: it is told to stop and still in the ring. -/
theorem drained_while_routed : ¬ ∀ (mgr : PodManager) (by_ : UnstableSort) (ttl now : Nat) past s,
    Run (step mgr by_) (initial (some (Proxy.initial ttl now))) past s →
    ∀ t ∈ past, DeregisteredFirst t.post := by
  intro first
  obtain ⟨past,s,run,t,member,stops,routed⟩ := exists_run (step pair stableSort)
    (initial (some (Proxy.initial 0 0)))
    [.act 0 (.spawned 7),.act 0 (.ready true),.act 0 .register,.act 0 (.lock [⟨0,⟨3001⟩⟩]),
      .act 0 .setBackends,.restartOne 0,.act 0 .restartBranch]
    (fun past _ => ∃ t ∈ past, (t.post.pods 0).point = .stopDraining false ∧
      t.post.proxy.any (fun c => c.state.ring.backends.map Backend.id = ["pod-0"]) = true) (by decide +kernel)
  obtain ⟨c,present,ring⟩ := (Option.any_eq_true ..).mp routed
  have ring : c.state.ring.backends.map Backend.id = ["pod-0"] := by simpa using ring
  obtain ⟨b,found,name⟩ := List.mem_map.mp (ring ▸ List.mem_singleton_self "pod-0" :
    "pod-0" ∈ c.state.ring.backends.map Backend.id)
  exact first pair stableSort 0 0 past s run t member 0 false stops ⟨c,present,b,found,name⟩

end Malkuth.Pool
