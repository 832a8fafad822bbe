import Malkuth.FileLock
import Malkuth.LeaseStanding

/-! `LeaseLock` of `lease.rs` on all the keys under one root. Every call works on the two files of
its own key, by the steps that it takes there; keys with the same files share them. `key` tells
of every owner the key of the one call that it is made for. -/
namespace Malkuth.LeaseKeys

open LockPaths Lease Transition

structure Store where
  file : Path → File
  now : Nat
  acquirer : String → Acquirer

def Store.point (s : Store) (o : String) : Point := (s.acquirer o).point

def Store.view (root : Path) (s : Store) (k : Key) : State :=
  ⟨s.file (leasePath root k),s.file (tmpPath root k),s.now,s.acquirer⟩

def Store.put (root : Path) (s : Store) (k : Key) (m : State) : Store where
  file := Function.update (Function.update s.file (leasePath root k) m.lease) (tmpPath root k) m.tmp
  now := m.now
  acquirer := m.acquirer

def actor : Event → Option String
  | .tick _ => none
  | .begin o _ | .go o _ | .renew o _ | .finish o _ => some o

def step (root : Path) (key : String → Key) (s : Store) (e : Event) : Option Store :=
  match e with
  | .tick ms => if s.now + ms < 2^64 then some { s with now := s.now + ms } else none
  | .begin o _ | .go o _ | .renew o _ | .finish o _ =>
    (Lease.step (s.view root (key o)) e).map (s.put root (key o))

def initial (now : Nat) : Store := ⟨fun _ => .absent,now,fun _ => ⟨.idle,0,none⟩⟩

/-- The record that decides, where this step refuses the call. -/
def looked (m : State) (o : String) (io : Io) : Option LeaseRecord :=
  match m.point o with
  | .deciding seen => seen
  | .confirming => m.seen io
  | _ => none

/-- An `acquire` on the second key answers `Contended` for a record of the first. -/
def Contends (root : Path) (key : String → Key) (t : Taken Store Event) (k₁ k₂ : Key) : Prop :=
  ∃ o io rec, t.event = .go o io ∧ key o = k₂ ∧ t.post.point o = .refused ∧
    looked (t.pre.view root k₂) o io = some rec ∧ key rec.owner = k₁

/-- A call on the first key changes a file of the second. -/
def Overwrites (root : Path) (key : String → Key) (t : Taken Store Event) (k₁ k₂ : Key) : Prop :=
  ∃ o, actor t.event = some o ∧ key o = k₁ ∧
    (t.post.file (leasePath root k₂) ≠ t.pre.file (leasePath root k₂) ∨
      t.post.file (tmpPath root k₂) ≠ t.pre.file (tmpPath root k₂))

def NeverContends (root : Path) (k₁ k₂ : Key) : Prop :=
  ∀ key now past s, Run (step root key) (initial now) past s → ∀ t ∈ past, ¬ Contends root key t k₁ k₂

def NeverOverwrites (root : Path) (k₁ k₂ : Key) : Prop :=
  ∀ key now past s, Run (step root key) (initial now) past s → ∀ t ∈ past, ¬ Overwrites root key t k₁ k₂

theorem step_actor (root : Path) (key : String → Key) (s : Store) (acts : actor e = some o) :
    step root key s e = (Lease.step (s.view root (key o)) e).map (s.put root (key o)) := by
  cases e with
  | tick => cases acts
  | begin | go | renew | finish => obtain rfl := Option.some.inj acts; rfl

section Files

variable {root : Path} {k k' : Key}

theorem view_put (s : Store) (same : Alike k' k) (m : State) : (s.put root k m).view root k' = m := by
  rw [Store.view,(leasePath_eq_iff root k' k).mpr same,(tmpPath_eq_iff root k' k).mpr same]
  simp [Store.put,leasePath_ne_tmpPath]

theorem view_alike (s : Store) (same : Alike k' k) : s.view root k' = s.view root k := by
  rw [Store.view,Store.view,(leasePath_eq_iff root k' k).mpr same,(tmpPath_eq_iff root k' k).mpr same]

/-- The files of another key are left alone. -/
theorem put_apart (root : Path) (s : Store) (apart : ¬ Alike k k') (m : State) :
    (s.put root k m).file (leasePath root k') = s.file (leasePath root k') ∧
    (s.put root k m).file (tmpPath root k') = s.file (tmpPath root k') := by
  have leases : leasePath root k' ≠ leasePath root k := fun same => apart ((leasePath_eq_iff root k k').mp same.symm)
  have tmps : tmpPath root k' ≠ tmpPath root k := fun same => apart ((tmpPath_eq_iff root k k').mp same.symm)
  simp [Store.put,leases,tmps,leasePath_ne_tmpPath,(leasePath_ne_tmpPath root k k').symm]

end Files

theorem neverOverwrites (apart : ¬ Alike k₁ k₂) : NeverOverwrites root k₁ k₂ := by
  rintro key now past s run t member ⟨o,acts,rfl,changed⟩
  have taken := run.enabled member
  rw [step_actor root key t.pre acts] at taken
  obtain ⟨m,_,eq⟩ := Option.map_eq_some_iff.mp taken
  obtain ⟨lease,tmp⟩ := put_apart root t.pre apart m
  rw [← eq] at changed
  rcases changed with changed | changed
  · exact changed lease
  · exact changed tmp

def carried : Point → Option LeaseRecord
  | .deciding seen => seen
  | .writing rec | .held (.writing rec) | .stopping (.writing rec) _ => some rec
  | _ => none

/-- All records around are of these owners. -/
structure Among (owners : String → Prop) (m : State) : Prop where
  lease : ∀ rec, m.lease.parsed = some rec → owners rec.owner
  tmp : ∀ rec, m.tmp.parsed = some rec → owners rec.owner
  carried : ∀ o, owners o → ∀ rec, carried (m.point o) = some rec → owners rec.owner

section Among

variable {owners : String → Prop} {m m' : State}

theorem Among.move (among : Among owners m) (base : State) (points : ∀ q, base.point q = m.point q)
    (lease : ∀ rec, base.lease.parsed = some rec → owners rec.owner)
    (tmp : ∀ rec, base.tmp.parsed = some rec → owners rec.owner)
    (hand : ∀ rec, LeaseKeys.carried p = some rec → owners rec.owner) : Among owners (base.move o p) := by
  refine ⟨lease,tmp,?_⟩
  intro q owner rec carries
  rw [move_point] at carries
  split at carries
  · exact hand rec carries
  · rw [points] at carries
    exact among.carried q owner rec carries

theorem Among.move_self (among : Among owners m)
    (hand : ∀ rec, LeaseKeys.carried p = some rec → owners rec.owner) : Among owners (m.move o p) :=
  among.move m (fun _ => rfl) among.lease among.tmp hand

theorem Among.seen {rec : LeaseRecord} (among : Among owners m) (io : Io) (seen : m.seen io = some rec) : owners rec.owner := by
  cases io with
  | ok => exact among.lease rec seen
  | failed | partway => cases seen

theorem Among.rename (among : Among owners m) (renamed : m.rename = some m') :
    (∀ rec, m'.lease.parsed = some rec → owners rec.owner) ∧ ∀ rec, m'.tmp.parsed = some rec → owners rec.owner := by
  have tmp := among.tmp
  unfold State.rename at renamed
  split at renamed
  · cases renamed
  next eq =>
    obtain rfl := Option.some.inj renamed
    simp [File.parsed]
  next rec eq =>
    obtain rfl := Option.some.inj renamed
    rw [eq] at tmp
    exact ⟨tmp,by simp [File.parsed]⟩

theorem Among.writeTmp {rec : LeaseRecord} (among : Among owners m) (io : Io) (own : owners rec.owner) :
    ∀ rec', (m.writeTmp rec io).tmp.parsed = some rec' → owners rec'.owner := by
  cases io with
  | ok =>
    rintro rec' ⟨⟩
    exact own
  | failed => exact among.tmp
  | partway => rintro rec' ⟨⟩

theorem advance_among (among : Among owners m) (own : owners o) (taken : m.advance o io = some m') :
    Among owners m' := by
  have hand := among.carried o own
  cases point : m.point o with
  | reading =>
    obtain rfl : _ = m' := by simpa [State.advance,point] using taken
    exact among.move_self fun rec seen => among.seen io seen
  | deciding seen =>
    obtain rfl : _ = m' := by simpa [State.advance,point] using taken
    refine among.move_self fun rec carries => ?_
    split at carries <;> cases carries
  | stamping =>
    obtain rfl : _ = m' := by simpa [State.advance,point] using taken
    refine among.move_self fun rec carries => ?_
    obtain rfl := Option.some.inj carries
    exact own
  | writing rec =>
    obtain rfl : _ = m' := by simpa [State.advance,point] using taken
    rw [point] at hand
    refine among.move _ (by simp [State.point]) (by simpa using among.lease) (among.writeTmp io (hand rec rfl)) ?_
    intro rec' carries
    split at carries <;> cases carries
  | renamingTmp =>
    simp only [State.advance,point] at taken
    split at taken
    next renamed =>
      obtain rfl := Option.some.inj taken
      exact among.move _ (rename_point m _ renamed) (among.rename renamed).1 (among.rename renamed).2 (by simp [LeaseKeys.carried])
    · obtain rfl := Option.some.inj taken
      exact among.move_self (by simp [LeaseKeys.carried])
  | confirming =>
    obtain rfl : _ = m' := by simpa [State.advance,point] using taken
    refine among.move_self fun rec carries => ?_
    split at carries <;> cases carries
  | stopping renewal ending =>
    cases renewal with
    | asleep =>
      obtain rfl : _ = m' := by simpa [State.advance,point] using taken
      exact among.move_self (by simp [LeaseKeys.carried])
    | awake | writing | renamingTmp => simp [State.advance,point] at taken
  | releaseReading ending =>
    obtain rfl : _ = m' := by simpa [State.advance,point] using taken
    refine among.move_self fun rec carries => ?_
    split at carries
    · cases carries
    · cases ending <;> cases carries
  | removing ending =>
    have ends : LeaseKeys.carried ending.done = none := by cases ending <;> rfl
    simp only [State.advance,point] at taken
    split at taken
    · obtain rfl := Option.some.inj taken
      exact among.move { m with lease := .absent } (fun _ => rfl) (by simp [File.parsed]) among.tmp (by simp [ends])
    · obtain rfl := Option.some.inj taken
      exact among.move_self (by simp [ends])
  | idle | refused | failed | held | released | dropped => simp [State.advance,point] at taken

/-- What the renew thread does to the files and has in hand. -/
theorem renewal_among (among : Among owners m) (own : owners o) (io : Io) (r : Renewal)
    (hand : ∀ rec, r = .writing rec → owners rec.owner) :
    (∀ rec, (m.renewal o io r).1.lease.parsed = some rec → owners rec.owner) ∧
    (∀ rec, (m.renewal o io r).1.tmp.parsed = some rec → owners rec.owner) ∧
    ∀ rec, (m.renewal o io r).2 = .writing rec → owners rec.owner := by
  cases r with
  | asleep => exact ⟨among.lease,among.tmp,by simp [State.renewal]⟩
  | awake =>
    refine ⟨among.lease,among.tmp,?_⟩
    rintro rec ⟨⟩
    exact own
  | writing rec =>
    refine ⟨by simpa [State.renewal] using among.lease,among.writeTmp io (hand rec rfl),?_⟩
    intro rec' writes
    simp only [State.renewal] at writes
    split at writes <;> cases writes
  | renamingTmp =>
    simp only [State.renewal]
    split
    next renamed => exact ⟨(among.rename renamed).1,(among.rename renamed).2,by simp⟩
    · exact ⟨among.lease,among.tmp,by simp⟩

theorem carried_held (carries : LeaseKeys.carried (.held r) = some rec) : r = .writing rec := by
  cases r with
  | writing => cases carries; rfl
  | asleep | awake | renamingTmp => cases carries

theorem carried_stopping (carries : LeaseKeys.carried (.stopping r ending) = some rec) : r = .writing rec := by
  cases r with
  | writing => cases carries; rfl
  | asleep | awake | renamingTmp => cases carries

theorem renew_among (among : Among owners m) (own : owners o) (taken : m.renew o io = some m') : Among owners m' := by
  have hand := among.carried o own
  cases point : m.point o with
  | held r =>
    obtain rfl : _ = m' := by simpa [State.renew,point] using taken
    obtain ⟨lease,tmp,next⟩ := renewal_among among own io r fun rec writes => hand rec (by rw [point,writes]; rfl)
    exact among.move _ (fun q => renewal_point m o q io r) lease tmp fun rec carries => next rec (carried_held carries)
  | stopping r ending =>
    cases awake : r with
    | asleep => simp [State.renew,point,awake] at taken
    | awake | writing | renamingTmp =>
      obtain rfl : _ = m' := by simpa [State.renew,point,awake] using taken
      rw [← awake]
      obtain ⟨lease,tmp,next⟩ := renewal_among among own io r fun rec writes => hand rec (by rw [point,writes]; rfl)
      exact among.move _ (fun q => renewal_point m o q io r) lease tmp fun rec carries =>
        next rec (carried_stopping carries)
  | idle | reading | deciding | stamping | writing | renamingTmp | confirming | refused | failed
  | releaseReading | removing | released | dropped => simp [State.renew,point] at taken

theorem finish_among (among : Among owners m) (own : owners o) (taken : m.finish o ending = some m') :
    Among owners m' := by
  have hand := among.carried o own
  cases point : m.point o with
  | held r =>
    obtain rfl : m.move o (.stopping r ending) = m' := by simpa [State.finish,point] using taken
    refine among.move_self fun rec carries => hand rec ?_
    rw [point]
    cases r <;> exact carries
  | released =>
    cases ending with
    | release => simp [State.finish,point] at taken
    | drop =>
      obtain rfl : _ = m' := by simpa [State.finish,point] using taken
      exact among.move_self (by simp [LeaseKeys.carried])
  | idle | reading | deciding | stamping | writing | renamingTmp | confirming | refused | failed
  | stopping | releaseReading | removing | dropped => simp [State.finish,point] at taken

theorem begin_moved (taken : Lease.step m (.begin o ttlMs) = some m') : ∃ base : State, m' = base.move o .reading ∧
    base.lease = m.lease ∧ base.tmp = m.tmp ∧ base.now = m.now ∧ ∀ q, base.point q = m.point q := by
  obtain ⟨_,begun⟩ := Option.ite_none_right_eq_some.mp taken
  refine ⟨{ m with acquirer := Function.update m.acquirer o { m.acquirer o with ttlMs := ttlMs } },?_,rfl,rfl,rfl,?_⟩
  · rw [← Option.some.inj begun]
    simp [State.move]
  · intro q
    by_cases same : q = o
    · subst same
      simp [State.point]
    · simp [State.point,same]

/-- A step of one of the owners brings in no other one's record. -/
theorem step_among (among : Among owners m) (acts : actor e = some o) (own : owners o)
    (taken : Lease.step m e = some m') : Among owners m' := by
  cases e with
  | tick => cases acts
  | begin q ttlMs =>
    obtain ⟨base,rfl,lease,tmp,_,points⟩ := begin_moved taken
    refine among.move base points ?_ ?_ (by simp [LeaseKeys.carried])
    · rw [lease]
      exact among.lease
    · rw [tmp]
      exact among.tmp
  | go q io =>
    obtain rfl := Option.some.inj acts
    exact advance_among among own taken
  | renew q io =>
    obtain rfl := Option.some.inj acts
    exact renew_among among own taken
  | finish q ending =>
    obtain rfl := Option.some.inj acts
    exact finish_among among own taken

/-- The steps of an owner leave the programs of the others where they are, and the clock. -/
theorem step_other (acts : actor e = some o) (taken : Lease.step m e = some m') :
    m'.now = m.now ∧ ∀ q, q ≠ o → m'.point q = m.point q := by
  cases e with
  | tick => cases acts
  | begin q ttlMs =>
    obtain rfl := Option.some.inj acts
    obtain ⟨base,rfl,_,_,now,points⟩ := begin_moved taken
    refine ⟨now,fun p different => ?_⟩
    rw [move_point,if_neg different,points]
  | go q io =>
    obtain rfl := Option.some.inj acts
    obtain ⟨_,p,moved,_⟩ := advance_moved m m' q io taken
    exact ⟨moved.now,fun _ => moved.other⟩
  | renew q io =>
    obtain rfl := Option.some.inj acts
    obtain ⟨p,moved,_⟩ := renew_moved m m' q io taken
    exact ⟨moved.now,fun _ => moved.other⟩
  | finish q ending =>
    obtain rfl := Option.some.inj acts
    obtain ⟨p,moved,_⟩ := finish_moved m m' q ending taken
    exact ⟨moved.now,fun _ => moved.other⟩

end Among

section Runs

variable {root : Path} {key : String → Key}

/-- In the files of a key, and in the hands of the calls that share them, are records of such calls. -/
def Sorted (root : Path) (key : String → Key) (s : Store) : Prop :=
  ∀ k, Among (fun o => Alike (key o) k) (s.view root k)

theorem initial_sorted (now : Nat) : Sorted root key (initial now) := by
  intro k
  refine ⟨?_,?_,?_⟩ <;> simp [Store.view,initial,File.parsed,State.point,carried]

theorem step_sorted (s : Store) (e : Event) (s' : Store) (sorted : Sorted root key s)
    (taken : step root key s e = some s') : Sorted root key s' := by
  intro k
  cases acts : actor e with
  | none =>
    cases e with
    | tick ms =>
      obtain ⟨_,begun⟩ := Option.ite_none_right_eq_some.mp taken
      obtain rfl := Option.some.inj begun
      exact ⟨(sorted k).lease,(sorted k).tmp,(sorted k).carried⟩
    | begin | go | renew | finish => cases acts
  | some o =>
    rw [step_actor root key s acts] at taken
    obtain ⟨m,moved,rfl⟩ := Option.map_eq_some_iff.mp taken
    have before := sorted k
    by_cases mine : Alike (key o) k
    · rw [view_put s mine.symm]
      rw [view_alike s mine] at moved
      exact step_among before acts mine moved
    · obtain ⟨lease,tmp⟩ := put_apart root s mine m
      refine ⟨?_,?_,?_⟩
      · rw [Store.view,lease]
        exact before.lease
      · rw [Store.view,tmp]
        exact before.tmp
      · intro q shares rec carries
        have different : q ≠ o := by
          rintro rfl
          exact mine shares
        have same : m.point q = (s.view root k).point q := (step_other acts moved).2 q different
        exact before.carried q shares rec (same ▸ carries)

theorem neverContends (apart : ¬ Alike k₁ k₂) : NeverContends root k₁ k₂ := by
  rintro key now past s run t member ⟨o,io,rec,_,own,_,look,rfl⟩
  have sorted := (run.always_taken (initial_sorted now) step_sorted member).1 k₂
  apply apart
  unfold looked at look
  split at look
  next seen point => exact sorted.carried o (own ▸ Alike.refl _) rec (by rw [point]; exact look)
  · exact sorted.seen io look
  · cases look

/-- Steps on one lease file are steps of all calls whose keys have that file. -/
theorem step_lifts (root : Path) (shared : ∀ o, Alike (key o) k) (s : Store) (e : Event) (m : State)
    (taken : Lease.step (s.view root k) e = some m) :
    ∃ s', step root key s e = some s' ∧ s'.view root k = m := by
  cases acts : actor e with
  | none =>
    cases e with
    | tick ms =>
      obtain ⟨room,begun⟩ := Option.ite_none_right_eq_some.mp taken
      exact ⟨_,if_pos room,Option.some.inj begun⟩
    | begin | go | renew | finish => cases acts
  | some o =>
    refine ⟨s.put root (key o) m,?_,view_put s (shared o).symm m⟩
    rw [step_actor root key s acts,view_alike s (shared o),taken]
    rfl

theorem run_lifts (root : Path) (shared : ∀ o, Alike (key o) k) (now : Nat)
    (run : Run Lease.step (Lease.initial .absent .absent now) past m) :
    ∃ past' s, Run (step root key) (initial now) past' s ∧ s.view root k = m := by
  induction run with
  | nil => exact ⟨[],initial now,.nil,rfl⟩
  | snoc _ taken ih =>
    obtain ⟨past',s,before,same⟩ := ih
    obtain ⟨s',next,view⟩ := step_lifts root shared s _ _ (same ▸ taken)
    exact ⟨_,s',before.snoc next,view⟩

end Runs

def refusal : List Event :=
  List.flatten [[.begin "pid7-0-0" 1000],goes "pid7-0-0" 6,[.begin "pid7-1-0" 1000,.go "pid7-1-0" .ok]]

def keyed (k₁ k₂ : Key) (o : String) : Key := if o = "pid7-0-0" then k₁ else k₂

theorem keyed_shared (alike : Alike k₁ k₂) (o : String) : Alike (keyed k₁ k₂ o) k₂ := by
  unfold keyed
  split
  · exact alike
  · exact .refl k₂

theorem not_neverContends (alike : Alike k₁ k₂) : ¬ NeverContends root k₁ k₂ := by
  obtain ⟨past,m,run,point,now⟩ := exists_run Lease.step (Lease.initial .absent .absent 0) refusal
    (fun _ m => m.point "pid7-1-0" = .deciding (some ⟨"pid7-0-0",1000⟩) ∧ m.now = 0) (by decide +kernel)
  have refuses : Lease.step m (.go "pid7-1-0" .ok) = some (m.move "pid7-1-0" .refused) := by
    simp [Lease.step,State.advance,point,blocked,now]
  obtain ⟨past',s,before,view⟩ := run_lifts root (keyed_shared alike) 0 run
  obtain ⟨s',next,after⟩ := step_lifts root (keyed_shared alike) s _ _ (view ▸ refuses)
  intro never
  refine never (keyed k₁ k₂) 0 _ s' (before.snoc next) _ (List.mem_append_right _ (List.mem_singleton_self _))
    ⟨"pid7-1-0",.ok,⟨"pid7-0-0",1000⟩,rfl,if_neg (by decide),?_,?_,if_pos rfl⟩
  · have refused : (s'.view root k₂).point "pid7-1-0" = .refused := by
      rw [after,move_point,if_pos rfl]
    exact refused
  · rw [view,looked,point]

def writing : List Event := .begin "pid7-0-0" 1000 :: goes "pid7-0-0" 3

theorem not_neverOverwrites (alike : Alike k₁ k₂) : ¬ NeverOverwrites root k₁ k₂ := by
  obtain ⟨past,m,run,point,tmp⟩ := exists_run Lease.step (Lease.initial .absent .absent 0) writing
    (fun _ m => m.point "pid7-0-0" = .writing ⟨"pid7-0-0",1000⟩ ∧ m.tmp = .absent) (by decide +kernel)
  have writes : Lease.step m (.go "pid7-0-0" .ok) =
      some ((m.writeTmp ⟨"pid7-0-0",1000⟩ .ok).move "pid7-0-0" .renamingTmp) := by
    simp [Lease.step,State.advance,point]
  obtain ⟨past',s,before,view⟩ := run_lifts root (keyed_shared alike) 0 run
  obtain ⟨s',next,after⟩ := step_lifts root (keyed_shared alike) s _ _ (view ▸ writes)
  intro never
  refine never (keyed k₁ k₂) 0 _ s' (before.snoc next) _ (List.mem_append_right _ (List.mem_singleton_self _))
    ⟨"pid7-0-0",rfl,if_pos rfl,.inr ?_⟩
  have old : s.file (tmpPath root k₂) = .absent := (congrArg State.tmp view).trans tmp
  have new : s'.file (tmpPath root k₂) = .record ⟨"pid7-0-0",1000⟩ := congrArg State.tmp after
  rw [old,new]
  simp

/-- What one holds of a key says nothing about the other. -/
structure Independent (root : Path) (k₁ k₂ : Key) : Prop where
  lockFiles : lockPath root k₁ ≠ lockPath root k₂
  leaseFiles : leasePath root k₁ ≠ leasePath root k₂
  tmpFiles : tmpPath root k₁ ≠ tmpPath root k₂
  leaseTmp : leasePath root k₁ ≠ tmpPath root k₂ ∧ leasePath root k₂ ≠ tmpPath root k₁
  lockContends : FileLock.NeverContends root k₁ k₂
  leaseContends : NeverContends root k₁ k₂
  overwrites : NeverOverwrites root k₁ k₂

/-- Two keys are independent, in both backends, if and only if they differ in more than the
characters that become `_` and are not the empty key and `default`. Otherwise each of them can
be refused for the other's sake, and lose its record to it. -/
theorem independent_iff (root : Path) (k₁ k₂ : Key) :
    (Independent root k₁ k₂ ↔ ¬ Alike k₁ k₂) ∧
    (Alike k₁ k₂ →
      ¬ FileLock.NeverContends root k₁ k₂ ∧ ¬ NeverContends root k₁ k₂ ∧ ¬ NeverOverwrites root k₁ k₂) := by
  refine ⟨⟨?_,?_⟩,?_⟩
  · intro independent alike
    exact independent.lockFiles ((lockPath_eq_iff root k₁ k₂).mpr alike)
  · intro apart
    exact ⟨fun same => apart ((lockPath_eq_iff root k₁ k₂).mp same),
      fun same => apart ((leasePath_eq_iff root k₁ k₂).mp same),
      fun same => apart ((tmpPath_eq_iff root k₁ k₂).mp same),
      ⟨leasePath_ne_tmpPath root k₁ k₂,leasePath_ne_tmpPath root k₂ k₁⟩,
      (FileLock.neverContends_iff root k₁ k₂).mpr apart,neverContends apart,neverOverwrites apart⟩
  · intro alike
    exact ⟨fun never => (FileLock.neverContends_iff root k₁ k₂).mp never alike,
      not_neverContends alike,not_neverOverwrites alike⟩

theorem slash_shares : ¬ ∀ root k₁ k₂, k₁ ≠ k₂ → Independent root k₁ k₂ := by
  intro independent
  have own := (independent "/locks".toList "a/b".toList "a_b".toList (by decide)).lockFiles
  exact own (by decide)

end Malkuth.LeaseKeys
