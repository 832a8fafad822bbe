import Malkuth.StickyRouting
import Malkuth.Pool
import Malkuth.Text

/-! The ring of the proxy and the registry of the pool. Every task changes the registry in
one critical section and publishes it in another, so between the two the ring may be behind;
it never goes back, since the list that is published is computed under the lock. -/
namespace Malkuth.Pool

open Transition Proxy

/-- The backends of the registry, in some order of the map. -/
def Shows (mgr : PodManager) (s : State) (backends : List Backend) : Prop :=
  backends.Perm (backendsFrom mgr.hostIp s.metaMap.entries)

def Point.Publishes : Point → Prop
  | .publishing _ | .setting _ _ => True
  | _ => False

def Changes (t : Taken State Event) : Prop := ¬ t.post.metaMap.entries.Perm t.pre.metaMap.entries

/-- The task of this pod has changed the registry and not published since. -/
def Unpublished (pod : Nat) (past : List (Taken State Event)) : Prop :=
  ∃ before t after, past = before ++ t :: after ∧
    (t.event = .act pod .register ∨ t.event = .act pod .deregister) ∧ Changes t ∧
    ∀ u ∈ after, u.event ≠ .act pod .setBackends

theorem Unpublished.snoc (unpublished : Unpublished pod past) (other : t.event ≠ .act pod .setBackends) :
    Unpublished pod (past ++ [t]) := by
  obtain ⟨before,u,after,rfl,update,changes,since⟩ := unpublished
  have still : ∀ v ∈ after ++ [t], v.event ≠ .act pod .setBackends :=
    List.forall_mem_append.mpr ⟨since,List.forall_mem_singleton.mpr other⟩
  exact ⟨before,u,after ++ [t],by simp,update,changes,still⟩

theorem unpublished_last (update : t.event = .act pod .register ∨ t.event = .act pod .deregister)
    (changes : Changes t) : Unpublished pod (past ++ [t]) :=
  ⟨past,t,[],rfl,update,changes,by simp⟩

theorem Shows.perm (shows_ : Shows mgr s backends) (same : s'.metaMap.entries.Perm s.metaMap.entries) :
    Shows mgr s' backends :=
  shows_.trans (same.map _).symm

/-- The task that holds the lock of `meta` has the list of the registry as it is. -/
def Locked (mgr : PodManager) (s : State) : Prop :=
  ∀ i update backends, (s.pods i).point = .setting update backends →
    s.lock = some i ∧ Shows mgr s backends

theorem Pod.Acts.not_setting (acts : Pod.Acts port p a p') (update : Update) (backends : List Backend) :
    p'.point ≠ .setting update backends := by
  cases acts with
  | spawned | ready | probed => simp only [Pod.unselect]; split <;> simp
  | park here =>
    intro point
    simp [show p.point = _ from point,Point.Selects] at here
  | _ => simp [Pod.unselect]

/-- Nobody holds the lock while the registry is changed. -/
theorem Locked.none_setting (locked : Locked mgr s) (free : s.lock = none) :
    (s.pods i).point ≠ .setting update backends := by
  intro here
  simp [(locked i update backends here).1] at free

theorem publish_not_setting (s : State) (update u : Update) (backends : List Backend) :
    s.publish update ≠ .setting u backends := by
  unfold State.publish
  split
  · simp
  · cases update <;> simp [Point.published]

theorem step_locked (steps : Steps mgr by_ s e s') (locked : Locked mgr s) : Locked mgr s' := by
  cases steps with
  | requested =>
    intro j update backends setting
    rcases setPod_point (s := s) setting with ⟨rfl,here⟩ | ⟨_,here⟩ <;> exact locked _ update backends here
  | nobody | client => exact locked
  | acts _ acts =>
    intro j update backends setting
    rcases setPod_point (s := s) setting with ⟨_,here⟩ | ⟨_,here⟩
    · exact absurd here (acts.not_setting update backends)
    · exact locked j update backends here
  | register _ _ free | deregister _ _ free =>
    intro j update backends setting
    rcases setPod_point (s := s) setting with ⟨_,here⟩ | ⟨_,here⟩
    · exact absurd here (publish_not_setting s _ update backends)
    · exact absurd here (locked.none_setting free)
  | lock _ _ free perm =>
    intro j update backends setting
    rcases setPod_point (s := s) setting with ⟨rfl,here⟩ | ⟨_,here⟩
    · obtain ⟨rfl,rfl⟩ := Point.setting.inj here
      exact ⟨rfl,perm.map _⟩
    · exact absurd here (locked.none_setting free)
  | @setBackends i _ old _ _ left =>
    intro j update backends setting
    rcases setPod_point (s := s) setting with ⟨_,here⟩ | ⟨different,here⟩
    · cases old <;> simp [Point.published] at here
    · -- the task that leaves was the only one at `set_backends`
      have mine := (locked i _ _ left).1
      rw [(locked j _ _ here).1] at mine
      exact absurd (Option.some.inj mine).symm different

/-- A task leaves `publish_backends` by setting the backends. -/
theorem step_publishes (steps : Steps mgr by_ s e s') (publishes : (s.pods pod).point.Publishes)
    (other : e ≠ .act pod .setBackends) : (s'.pods pod).point.Publishes := by
  cases steps with
  | requested =>
    apply setPod_pods (P := fun p => p.point.Publishes) publishes
    rintro rfl
    exact publishes
  | nobody | client => exact publishes
  | acts _ acts =>
    apply setPod_pods (P := fun p => p.point.Publishes) publishes
    rintro rfl
    cases acts with
    | park => exact publishes
    | restartBranch here | exited here =>
      generalize (s.pods _).point = point at publishes here
      cases point <;> simp_all [Point.Publishes,Point.Selects]
    | _ here => simp [here,Point.Publishes] at publishes
  | register _ here | deregister _ here =>
    apply setPod_pods (P := fun p => p.point.Publishes) publishes
    rintro rfl
    simp [here,Point.Publishes] at publishes
  | lock =>
    apply setPod_pods (P := fun p => p.point.Publishes) publishes
    rintro rfl
    trivial
  | setBackends =>
    apply setPod_pods (P := fun p => p.point.Publishes) publishes
    rintro rfl
    exact absurd rfl other

theorem client_ring (taken : Proxy.step by_ c call = some c') (foreign : ∀ backends, call ≠ .setBackends backends) :
    c'.state.ring = c.state.ring := by
  cases call with
  | setBackends backends => exact absurd rfl (foreign backends)
  | pick =>
    obtain ⟨_,rfl⟩ := (step_pick ..).mp taken
    exact (pick_keeps ..).1
  | invalidate =>
    obtain rfl := Option.some.inj taken
    simp only [ProxyState.invalidate]
    split <;> rfl

/-- The ring shows the registry, or a task has changed the registry and is about to publish. -/
def Current (mgr : PodManager) (past : List (Taken State Event)) (s : State) : Prop :=
  ∃ c, s.proxy = some c ∧ (Shows mgr s c.state.ring.backends ∨
    ∃ pod, Unpublished pod past ∧ (s.pods pod).point.Publishes)

/-- A step that leaves the ring alone, and the registry up to its order. -/
theorem Current.kept (current : Current mgr past s) (steps : Steps mgr by_ s e s')
    (calm : ∀ pod, e ≠ .act pod .setBackends) (proxy : ∀ c, s.proxy = some c →
      ∃ c', s'.proxy = some c' ∧ c'.state.ring = c.state.ring)
    (same : s'.metaMap.entries.Perm s.metaMap.entries) : Current mgr (past ++ [⟨s,e,s'⟩]) s' := by
  obtain ⟨c,present,agrees⟩ := current
  obtain ⟨c',present',ring⟩ := proxy c present
  refine ⟨c',present',?_⟩
  rw [ring]
  rcases agrees with shows_ | ⟨pod,unpublished,publishes⟩
  · exact .inl (shows_.perm same)
  · exact .inr ⟨pod,unpublished.snoc (calm pod),step_publishes steps publishes (calm pod)⟩

theorem publish_publishes (s : State) (present : s.proxy = some c) (update : Update) :
    (s.publish update).Publishes := by
  simp [State.publish,present,Point.Publishes]

/-- A step of a task that changes the registry, or finds it as it wants it. -/
theorem Current.updated (current : Current mgr past s) (steps : Steps mgr by_ s e s')
    (update : e = .act pod .register ∨ e = .act pod .deregister) (proxy : s'.proxy = s.proxy)
    (point : ∃ kind, (s'.pods pod).point = s.publish kind) : Current mgr (past ++ [⟨s,e,s'⟩]) s' := by
  by_cases same : s'.metaMap.entries.Perm s.metaMap.entries
  · refine current.kept steps ?_ (fun c present => ⟨c,proxy.trans present,rfl⟩) same
    intro i
    rcases update with rfl | rfl <;> simp
  · obtain ⟨c,present,_⟩ := current
    refine ⟨c,proxy.trans present,.inr ⟨pod,unpublished_last update same,?_⟩⟩
    obtain ⟨kind,here⟩ := point
    rw [here]
    exact publish_publishes s present kind

theorem step_current (steps : Steps mgr by_ s e s') (locked : Locked mgr s) (current : Current mgr past s) :
    Current mgr (past ++ [⟨s,e,s'⟩]) s' := by
  have self : ∀ c, s.proxy = some c → ∃ c', s.proxy = some c' ∧ c'.state.ring = c.state.ring :=
    fun c present => ⟨c,present,rfl⟩
  have moves := steps
  cases moves with
  | requested | nobody => exact current.kept steps (by simp) self (.refl _)
  | @acts i _ a _ _ acts =>
    refine current.kept steps ?_ self (.refl _)
    rintro pod ⟨⟩
    cases acts
  | register =>
    exact current.updated steps (.inl rfl) rfl ⟨.registered,by simp [State.setPod]⟩
  | deregister =>
    exact current.updated steps (.inr rfl) rfl ⟨.deregistered,by simp [State.setPod]⟩
  | lock => exact current.kept steps (by simp) self (.refl _)
  | setBackends _ here =>
    -- the list was computed under the lock, so it shows the registry as it still is
    obtain ⟨c,present,_⟩ := current
    have shows_ := (locked _ _ _ here).2
    exact ⟨{ c with state := c.state.setBackends by_ _ },by simp [present],.inl shows_⟩
  | client present foreign taken =>
    refine current.kept steps (by simp) ?_ (.refl _)
    intro c₀ present₀
    obtain rfl := Option.some.inj (present.symm.trans present₀)
    exact ⟨_,rfl,client_ring taken foreign⟩

theorem run_current (run : Run (step mgr by_) (initial (some (Proxy.initial ttl now))) past s) :
    Locked mgr s ∧ Current mgr past s := by
  induction run with
  | nil =>
    refine ⟨?_,_,rfl,.inl ?_⟩
    · intro i update backends here
      simp [initial,Pod.initial] at here
    · exact .refl _
  | snoc _ taken ih =>
    have steps := step_steps mgr by_ _ _ _ taken
    exact ⟨step_locked steps ih.1,step_current steps ih.1 ih.2⟩

/-- Exactly the registered pods, each of them once. -/
def Exactly (mgr : PodManager) (s : State) (backends : List Backend) : Prop :=
  (backends.map Backend.id).Nodup ∧ ∀ b, b ∈ backends ↔
    ∃ pod m, s.metaMap.lookup pod = some m ∧ b = ⟨.new mgr.hostIp m.port,"pod-" ++ toString pod⟩

theorem podId_injective : Function.Injective fun pod : Nat => "pod-" ++ toString pod := by
  intro i j same
  have shown : Nat.repr i = Nat.repr j := (String.append_right_inj "pod-").mp same
  have digits : Text.display i = Text.display j := by
    simpa [Nat.repr,Text.display] using congrArg String.toList shown
  exact Option.some.inj ((Text.digits_display i).symm.trans (digits ▸ Text.digits_display j))

theorem Shows.exactly (shows_ : Shows mgr s backends) : Exactly mgr s backends := by
  constructor
  · have ids : (backendsFrom mgr.hostIp s.metaMap.entries).map Backend.id =
        s.metaMap.keys.map fun pod => "pod-" ++ toString pod := by
      simp [backendsFrom,AList.keys,List.keys]
    rw [(shows_.map Backend.id).nodup_iff,ids]
    exact s.metaMap.keys_nodup.map podId_injective
  · intro b
    rw [shows_.mem_iff]
    constructor
    · intro member
      obtain ⟨e,entry,rfl⟩ := List.mem_map.mp member
      exact ⟨e.1,e.2,AList.mem_lookup_iff.mpr entry,rfl⟩
    · rintro ⟨pod,m,found,rfl⟩
      exact List.mem_map.mpr ⟨⟨pod,m⟩,AList.mem_lookup_iff.mp found,rfl⟩

/-- In every reachable state the ring is a list of the registry, or some task has changed
the registry and is still to publish it; with no task inside `publish_backends` the ring
has exactly the registered pods. -/
theorem ring_agrees (mgr : PodManager) (by_ : UnstableSort) (ttl now : Nat) (past : List (Taken State Event))
    (s : State) (run : Run (step mgr by_) (initial (some (Proxy.initial ttl now))) past s) :
    ∃ c, s.proxy = some c ∧
      (c.state.ring.backends.Perm (backendsFrom mgr.hostIp s.metaMap.entries) ∨
        ∃ pod, Unpublished pod past ∧ (s.pods pod).point.Publishes) ∧
      ((∀ pod, ¬ (s.pods pod).point.Publishes) → Exactly mgr s c.state.ring.backends) := by
  obtain ⟨_,c,present,agrees⟩ := run_current run
  refine ⟨c,present,agrees,?_⟩
  intro idle
  rcases agrees with shows_ | ⟨pod,_,publishes⟩
  · exact shows_.exactly
  · exact absurd publishes (idle pod)

def pair : PodManager := ⟨.v4 0x7f000001,[(0,3001),(1,3002)]⟩

/-- Both pods register before either publishes; when both have published, the ring has them. -/
theorem ring_agrees_pair : ∃ past s c, Run (step pair stableSort) (initial (some (Proxy.initial 0 0))) past s ∧
    s.proxy = some c ∧ c.state.ring.backends.map Backend.id = ["pod-1","pod-0"] ∧
    Exactly pair s c.state.ring.backends := by
  obtain ⟨past,s,run,ring,first,second⟩ := exists_run (step pair stableSort) (initial (some (Proxy.initial 0 0)))
    [.act 0 (.spawned 7),.act 1 (.spawned 8),.act 0 (.ready true),.act 1 (.ready true),.act 0 .register,
      .act 1 .register,.act 0 (.lock [⟨0,⟨3001⟩⟩,⟨1,⟨3002⟩⟩]),.act 0 .setBackends,
      .act 1 (.lock [⟨1,⟨3002⟩⟩,⟨0,⟨3001⟩⟩]),.act 1 .setBackends]
    (fun _ s => s.proxy.map (fun c => c.state.ring.backends.map Backend.id) = some ["pod-1","pod-0"] ∧
      (s.pods 0).point = .selecting ∧ (s.pods 1).point = .selecting) (by decide +kernel)
  obtain ⟨c,present,_,exact_⟩ := ring_agrees pair stableSort 0 0 past s run
  refine ⟨past,s,c,run,present,by simpa [present] using ring,exact_ ?_⟩
  intro pod
  by_cases known : pod = 0 ∨ pod = 1
  · rcases known with rfl | rfl
    · simp [first,Point.Publishes]
    · simp [second,Point.Publishes]
  · have unknown : pair.ports.lookup pod = none := by
      obtain ⟨zero,one⟩ := not_or.mp known
      simp [pair,List.lookup_cons,beq_eq_false_iff_ne.mpr zero,beq_eq_false_iff_ne.mpr one]
    simp [(run_unborn unknown run).1,Point.Publishes]

end Malkuth.Pool
