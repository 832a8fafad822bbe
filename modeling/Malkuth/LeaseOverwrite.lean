import Malkuth.LeaseExclusion

/-! What the guards of `lease.rs` do to each other's leases. The renew thread rewrites the
lease file without looking at it, and `release` and `drop` look at it before they remove
it, so each of them may come too late; the wall clock may be set to anything. -/
namespace Malkuth.Lease

open Transition

/-- The steps of the lease's users, and of a wall clock that may also go back. -/
inductive WallEvent where
  | act (e : Event)
  | setClock (ms : Nat)

def wallStep (s : State) : WallEvent → Option State
  | .act e => step s e
  | .setClock ms => if ms < 2^64 then some { s with now := ms } else none

def State.guardian (s : State) : Event → Option String
  | .renew o _ => some o
  | .go o _ =>
    match s.point o with
    | .removing _ => some o
    | _ => none
  | _ => none

/-- A guard's step overwrites or removes the unexpired record of another owner. -/
def Destroys (s : State) (e : Event) : Prop :=
  ∃ o f rec, s.guardian e = some o ∧ s.replacement e = some f ∧ s.lease = .record rec ∧
    rec.owner ≠ o ∧ s.now < rec.expiresAtMs

/-- The owner's last record has not expired, or nobody has replaced it since. -/
def State.stillOwn (s : State) (o : String) : Bool :=
  (s.acquirer o).installed.any fun rec => decide (s.now < rec.expiresAtMs ∨ s.lease = .record rec)

/-- No guard comes too late or renames a temp file that is not its own, no acquirer
renames over a lease that has become someone else's since it looked, and the clock does
not go back. -/
def State.timely (s : State) : WallEvent → Bool
  | .setClock ms => decide (s.now ≤ ms)
  | .act e =>
    match s.replacement e, s.guardian e, e with
    | some f, some o, _ => s.stillOwn o && decide (f = .absent ∨ f.owner = some o)
    | some _, none, .go o _ => !blocked s.now o s.lease.parsed
    | _, _, _ => true

/-- Points at which a guard may still replace the lease file. -/
def Point.guards : Point → Bool
  | .held _ | .stopping _ _ | .removing _ => true
  | _ => false

theorem rename_point (s s' : State) (renamed : s.rename = some s') (o : String) :
    s'.point o = s.point o := by
  cases tmp : s.tmp with
  | absent => simp [State.rename,tmp] at renamed
  | garbled =>
    obtain rfl : _ = s' := by simpa [State.rename,tmp] using renamed
    rfl
  | record rec =>
    obtain rfl : _ = s' := by simpa [State.rename,tmp] using renamed
    by_cases own : o = rec.owner
    · subst own; simp [State.point]
    · simp [State.point,own]

theorem renewal_point (s : State) (o other : String) (io : Io) (r : Renewal) :
    (s.renewal o io r).1.point other = s.point other := by
  cases r with
  | asleep | awake => rfl
  | writing rec => simp [State.renewal,State.point]
  | renamingTmp =>
    simp only [State.renewal]
    split
    next renamed => exact rename_point s _ renamed other
    · rfl

def State.Claims (s : State) (e : Event) (o : String) : Prop :=
  (s.point o).guards = true ∨ (s.replacement e = none ∧ ∃ rec, s.lease = .record rec ∧ rec.owner = o)

/-- Moving one program makes no guard but perhaps its own. -/
theorem move_claims (s base : State) (e : Event) (o other : String) (p : Point)
    (points : ∀ q, base.point q = s.point q) (own : p.guards = true → s.Claims e o)
    (guards : ((base.move o p).point other).guards = true) : s.Claims e other := by
  rw [move_point] at guards
  by_cases same : other = o
  · subst same; exact own (by simpa using guards)
  · left; simpa [same,points] using guards

theorem advance_claims (s s' : State) (o other : String) (io : Io) (taken : s.advance o io = some s')
    (guards : (s'.point other).guards = true) : s.Claims (.go o io) other := by
  cases point : s.point o with
  | reading | stamping =>
    obtain rfl : _ = s' := by simpa [State.advance,point] using taken
    exact move_claims s s _ o other _ (fun _ => rfl) (by simp [Point.guards]) guards
  | deciding seen =>
    obtain rfl : _ = s' := by simpa [State.advance,point] using taken
    refine move_claims s s _ o other _ (fun _ => rfl) ?_ guards
    split <;> simp [Point.guards]
  | writing rec =>
    obtain rfl : _ = s' := by simpa [State.advance,point] using taken
    refine move_claims s _ _ o other _ (by simp [State.point]) ?_ guards
    split <;> simp [Point.guards]
  | renamingTmp =>
    simp only [State.advance,point] at taken
    split at taken
    next renamed =>
      obtain rfl := Option.some.inj taken
      exact move_claims s _ _ o other _ (rename_point s _ renamed) (by simp [Point.guards]) guards
    · obtain rfl := Option.some.inj taken
      exact move_claims s s _ o other _ (fun _ => rfl) (by simp [Point.guards]) guards
  | confirming =>
    simp only [State.advance,point,Option.some.injEq] at taken
    subst taken
    refine move_claims s s _ o other _ (fun _ => rfl) ?_ guards
    intro guarding
    split at guarding
    next own => exact .inr ⟨by cases io <;> simp [State.replacement,point],seen_owner s io o own⟩
    next => simp [Point.guards] at guarding
  | stopping renewal ending =>
    cases renewal with
    | asleep =>
      obtain rfl : _ = s' := by simpa [State.advance,point] using taken
      exact move_claims s s _ o other _ (fun _ => rfl) (by simp [Point.guards]) guards
    | awake | writing | renamingTmp => simp [State.advance,point] at taken
  | releaseReading ending =>
    simp only [State.advance,point,Option.some.injEq] at taken
    subst taken
    refine move_claims s s _ o other _ (fun _ => rfl) ?_ guards
    intro guarding
    split at guarding
    next own => exact .inr ⟨by cases io <;> simp [State.replacement,point],seen_owner s io o own⟩
    next => cases ending <;> simp [Ending.done,Point.guards] at guarding
  | removing ending =>
    have plain : ending.done.guards = true → s.Claims (.go o io) o := by
      cases ending <;> simp [Ending.done,Point.guards]
    cases io with
    | ok =>
      obtain rfl : _ = s' := by simpa [State.advance,point] using taken
      exact move_claims s { s with lease := .absent } _ o other _ (fun _ => rfl) plain guards
    | failed | partway =>
      obtain rfl : _ = s' := by simpa [State.advance,point] using taken
      exact move_claims s s _ o other _ (fun _ => rfl) plain guards
  | idle | refused | failed | held | released | dropped => simp [State.advance,point] at taken

theorem renew_claims (s s' : State) (o other : String) (io : Io) (taken : s.renew o io = some s')
    (guards : (s'.point other).guards = true) : s.Claims (.renew o io) other := by
  cases point : s.point o with
  | held r =>
    obtain rfl : _ = s' := by simpa [State.renew,point] using taken
    refine move_claims s _ _ o other _ (fun q => renewal_point s o q io r) (fun _ => .inl ?_) guards
    simp [point,Point.guards]
  | stopping r ending =>
    cases r with
    | asleep => simp [State.renew,point] at taken
    | awake | writing rec | renamingTmp =>
      obtain rfl : _ = s' := by simpa [State.renew,point] using taken
      refine move_claims s _ _ o other _ (fun q => renewal_point s o q io _) (fun _ => .inl ?_) guards
      simp [point,Point.guards]
  | idle | reading | deciding | stamping | writing | renamingTmp | confirming | refused | failed
  | releaseReading | removing | released | dropped => simp [State.renew,point] at taken

/-- A step makes a guard only of an owner that has read its own record. -/
theorem step_claims (s s' : State) (e : Event) (o : String) (taken : step s e = some s')
    (guards : (s'.point o).guards = true) : s.Claims e o := by
  cases e with
  | tick ms =>
    simp only [step] at taken
    split at taken
    · obtain rfl := Option.some.inj taken; exact .inl guards
    · contradiction
  | begin other ttlMs =>
    simp only [step] at taken
    split at taken
    · obtain rfl := Option.some.inj taken
      by_cases same : o = other
      · subst same; simp [State.point,Point.guards] at guards
      · left; simpa [State.point,same] using guards
    · contradiction
  | go other io => exact advance_claims s s' other o io taken guards
  | renew other io => exact renew_claims s s' other o io taken guards
  | finish other ending =>
    cases point : s.point other with
    | held r =>
      obtain rfl : _ = s' := by simpa [step,State.finish,point] using taken
      exact move_claims s s _ other o _ (fun _ => rfl) (fun _ => .inl (by simp [point,Point.guards])) guards
    | released =>
      cases ending with
      | release => simp [step,State.finish,point] at taken
      | drop =>
        obtain rfl : _ = s' := by simpa [step,State.finish,point] using taken
        exact move_claims s s _ other o _ (fun _ => rfl) (by simp [Point.guards]) guards
    | idle | reading | deciding | stamping | writing | renamingTmp | confirming | refused | failed
    | stopping | releaseReading | removing | dropped => simp [step,State.finish,point] at taken

/-- While a guard's last record is unexpired, it is the one in the lease file. -/
structure Kept (s : State) : Prop extends Records s where
  sole : ∀ o rec, (s.point o).guards = true → (s.acquirer o).installed = some rec →
    s.now < rec.expiresAtMs → s.lease = .record rec

theorem initial_kept (lease tmp : File) (now : Nat) : Kept (initial lease tmp now) where
  toRecords := (initial_invariant lease tmp now).records
  sole := by simp [initial,State.point,Point.guards]

theorem quiet_kept (s s' : State) (e : Event) (kept : Kept s) (quiet : Quiet s s')
    (claims : ∀ o, (s'.point o).guards = true → s.Claims e o) : Kept s' where
  toRecords := kept.quiet quiet
  sole := by
    intro o rec guards installed live
    rw [quiet.lease]
    have before : (s.acquirer o).installed = some rec := quiet.installed o ▸ installed
    rcases claims o guards with already | ⟨_,seen,here,owner⟩
    · exact kept.sole o rec already before (Nat.lt_of_le_of_lt quiet.now live)
    · subst owner
      rw [kept.recorded seen here] at before
      rw [here,Option.some.inj before]

/-- A guard that is in time finds its own record in the lease file. -/
theorem Kept.finds_own (kept : Kept s) (guards : (s.point o).guards = true) (own : s.stillOwn o = true) :
    ∃ rec, s.lease = .record rec ∧ rec.owner = o := by
  obtain ⟨rec,installed,still⟩ := (Option.any_eq_true ..).mp own
  refine ⟨rec,?_,kept.own o rec installed⟩
  rcases of_decide_eq_true still with live | here
  · exact kept.sole o rec guards installed live
  · exact here

/-- The owner of a replacing step, and what being timely says about it. -/
theorem replacement_timely (s : State) (e : Event) (replaced : s.replacement e = some f)
    (timely : s.timely (.act e) = true) :
    (∃ o ending, e = .go o .ok ∧ s.point o = .removing ending ∧ s.stillOwn o = true ∧ f = .absent) ∨
    (∃ o, s.guardian e = some o ∧ (s.point o).guards = true ∧ s.stillOwn o = true ∧ f.owner = some o) ∨
    (∃ o, s.guardian e = none ∧ s.point o = .renamingTmp ∧ blocked s.now o s.lease.parsed = false) := by
  cases e with
  | tick | begin | finish => simp [State.replacement] at replaced
  | go o io =>
    cases io with
    | failed | partway => simp [State.replacement] at replaced
    | ok =>
      cases point : s.point o with
      | renamingTmp =>
        have taking : s.guardian (.go o .ok) = none := by simp [State.guardian,point]
        exact .inr (.inr ⟨o,taking,point,by simpa [State.timely,replaced,taking] using timely⟩)
      | removing ending =>
        have ours : s.guardian (.go o .ok) = some o := by simp [State.guardian,point]
        obtain rfl : .absent = f := by simpa [State.replacement,point] using replaced
        have own : s.stillOwn o = true := by simpa [State.timely,replaced,ours] using timely
        exact .inl ⟨o,ending,rfl,point,own,rfl⟩
      | _ => simp [State.replacement,point] at replaced
  | renew o io =>
    cases io with
    | failed | partway => simp [State.replacement] at replaced
    | ok =>
      have present : f ≠ .absent ∧ (s.point o).guards = true := by
        simp only [State.replacement] at replaced
        split at replaced
        next point =>
          split at replaced
          · contradiction
          next present =>
            exact ⟨Option.some.inj replaced ▸ present,by simp [point,Point.guards]⟩
        next point =>
          split at replaced
          · contradiction
          next present =>
            exact ⟨Option.some.inj replaced ▸ present,by simp [point,Point.guards]⟩
        · contradiction
      have both : s.stillOwn o = true ∧ f.owner = some o := by
        simpa [State.timely,replaced,State.guardian,present.1] using timely
      exact .inr (.inl ⟨o,rfl,present.2,both.1,both.2⟩)

/-- A replaced file is kept if nobody else guards the one before. -/
theorem replaces_kept (s s' : State) (f : File) (kept : Kept s) (replaces : Replaces s s' f)
    (alone : ∀ o rec, (s'.point o).guards = true → (s.acquirer o).installed = some rec →
      s.now < rec.expiresAtMs → f.owner = some o) : Kept s' where
  toRecords := kept.replaces replaces
  sole := by
    intro o rec guards installed live
    rw [replaces.lease]
    rw [replaces.installed,installedBy] at installed
    rw [replaces.now] at live
    cases f with
    | absent =>
      have mine := alone o rec guards (by simpa [File.parsed] using installed) live
      simp [File.owner,File.parsed] at mine
    | garbled =>
      have mine := alone o rec guards (by simpa [File.parsed] using installed) live
      simp [File.owner,File.parsed] at mine
    | record new =>
      by_cases owner : new.owner = o
      · simpa [File.parsed,owner] using installed
      · have mine := alone o rec guards (by simpa [File.parsed,owner] using installed) live
        simp [File.owner,File.parsed,owner] at mine

theorem step_kept (s s' : State) (e : Event) (kept : Kept s) (timely : s.timely (.act e) = true)
    (taken : step s e = some s') : Kept s' := by
  have claims := fun o => step_claims s s' e o taken
  rcases step_effect s s' e taken with ⟨_,quiet⟩ | ⟨f,replaced,replaces⟩
  · exact quiet_kept s s' e kept quiet claims
  · apply replaces_kept s s' f kept replaces
    intro o rec guards installed live
    have already : (s.point o).guards = true := by
      rcases claims o guards with already | ⟨none,_⟩
      · exact already
      · simp [replaced] at none
    have here := kept.sole o rec already installed live
    have owner := kept.own o rec installed
    rcases replacement_timely s e replaced timely with
      ⟨other,ending,rfl,removing,still,rfl⟩ | ⟨other,_,guarding,still,new⟩ | ⟨other,_,point,open_⟩
    · -- the guard that removes its own record is no guard afterwards
      obtain ⟨found,file,same⟩ := kept.finds_own (by simp [removing,Point.guards]) still
      rw [here,File.record.injEq] at file
      obtain rfl : o = other := by rw [← owner,file,same]
      obtain rfl : _ = s' := by simpa [step,State.advance,removing] using taken
      rw [move_point] at guards
      cases ending <;> simp [Ending.done,Point.guards] at guards
    · obtain ⟨found,file,same⟩ := kept.finds_own guarding still
      rw [here,File.record.injEq] at file
      obtain rfl : o = other := by rw [← owner,file,same]
      exact new
    · by_cases same : rec.owner = other
      · rw [← owner,same,point] at already
        simp [Point.guards] at already
      · simp [blocked,here,File.parsed,live,same] at open_

theorem wallStep_kept (s : State) (e : WallEvent) (s' : State) (kept : Kept s)
    (timely : s.timely e = true) (taken : wallStep s e = some s') : Kept s' := by
  cases e with
  | act e => exact step_kept s s' e kept timely taken
  | setClock ms =>
    simp only [wallStep] at taken
    split at taken
    · obtain rfl := Option.some.inj taken
      have later : s.now ≤ ms := by simpa [State.timely] using timely
      exact ⟨⟨kept.own,kept.recorded⟩,fun o rec guards installed live =>
        kept.sole o rec guards installed (Nat.lt_of_le_of_lt later live)⟩
    · contradiction

/-- A guard whose step is timely destroys no lease. -/
theorem Kept.spares (kept : Kept s) (timely : s.timely (.act e) = true) : ¬ Destroys s e := by
  rintro ⟨o,f,rec,ours,replaced,here,other,live⟩
  rcases replacement_timely s e replaced timely with
    ⟨o',ending,rfl,removing,still,_⟩ | ⟨o',guardian,guarding,still,_⟩ | ⟨o',none,_⟩
  · obtain ⟨found,file,same⟩ := kept.finds_own (by simp [removing,Point.guards]) still
    obtain rfl : o' = o := by simpa [State.guardian,removing] using ours
    rw [here,File.record.injEq] at file
    exact other (by rw [file,same])
  · obtain ⟨found,file,same⟩ := kept.finds_own guarding still
    obtain rfl : o' = o := by simpa [guardian] using ours
    rw [here,File.record.injEq] at file
    exact other (by rw [file,same])
  · simp [none] at ours

/-- No renewal and no removal destroys another owner's live lease, in every run in which
the guards' steps come in time, each renames its own temp file, acquirers rename over no
lease that is live by then, and the clock does not go back. -/
theorem never_destroys (lease tmp : File) (now : Nat) (past : List (Taken State WallEvent)) (s : State)
    (run : Run wallStep (initial lease tmp now) past s)
    (timely : ∀ t ∈ past, t.pre.timely t.event = true) (t : Taken State WallEvent) (member : t ∈ past)
    (e : Event) (acts : t.event = .act e) : ¬ Destroys t.pre e := by
  have kept := run.invariant_before (P := Kept) (initial_kept lease tmp now) wallStep_kept timely member
  exact kept.spares (acts ▸ timely t member)

/-- Events of one owner's program and of its renew thread, every call succeeding. -/
def acts (events : List Event) : List WallEvent := events.map .act

def renews (o : String) (n : Nat) : List Event := List.replicate n (.renew o .ok)

def renewedThenLost : List WallEvent :=
  List.flatten [acts (List.flatten [[.begin "pid7-0-0" 10],goes "pid7-0-0" 6]),[.setClock 5],
    acts (renews "pid7-0-0" 4),[.setClock 100],
    acts (List.flatten [[.begin "pid7-1-100" 10],goes "pid7-1-100" 6,[.finish "pid7-0-0" .release],
      goes "pid7-0-0" 2,[.finish "pid7-1-100" .release],goes "pid7-1-100" 3])]

theorem never_destroys_released : ∃ past s, Run wallStep (initial .absent .absent 0) past s ∧
    s.lease = .absent ∧ s.point "pid7-0-0" = .released ∧ s.point "pid7-1-100" = .released ∧
    ∀ t ∈ past, ∀ e, t.event = .act e → ¬ Destroys t.pre e := by
  obtain ⟨past,s,run,timely,gone,ended⟩ := exists_run wallStep (initial .absent .absent 0) renewedThenLost
    (fun past s => (∀ t ∈ past, t.pre.timely t.event = true) ∧ s.lease = .absent ∧
      s.point "pid7-0-0" = .released ∧ s.point "pid7-1-100" = .released) (by decide +kernel)
  exact ⟨past,s,run,gone,ended.1,ended.2,never_destroys .absent .absent 0 past s run timely⟩

def lateRenewal : List WallEvent :=
  List.flatten [acts (List.flatten [[.begin "pid7-0-0" 10],goes "pid7-0-0" 6]),[.setClock 20],
    acts (List.flatten [[.begin "pid7-1-20" 1000],goes "pid7-1-20" 6,renews "pid7-0-0" 3])]

theorem renewal_destroys : ¬ ∀ lease tmp now past s, Run wallStep (initial lease tmp now) past s →
    ∀ t ∈ past, ∀ e, t.event = .act e → ¬ Destroys t.pre e := by
  intro spares
  obtain ⟨before,t,after,s,run,acts,replaced,here,clock⟩ := exists_run_cut wallStep
    (initial .absent .absent 0) lateRenewal (.act (.renew "pid7-0-0" .ok)) []
    (fun _ t _ _ => t.pre.replacement (.renew "pid7-0-0" .ok) = some (.record ⟨"pid7-0-0",30⟩) ∧
      t.pre.lease = .record ⟨"pid7-1-20",1020⟩ ∧ t.pre.now = 20) (by decide +kernel)
  apply spares .absent .absent 0 _ s run t (by simp) _ acts
  exact ⟨"pid7-0-0",_,_,rfl,replaced,here,by decide,by rw [clock]; decide⟩

end Malkuth.Lease
