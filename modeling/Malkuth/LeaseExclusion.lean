import Malkuth.Lease

/-! Who holds the lease of `lease.rs`. The re-read of `try_take` only tells an
acquirer that its record was in place at that moment; what keeps it alone is that
nobody replaces or removes that record while it is live. -/
namespace Malkuth.Lease

open Transition

/-- Told that it holds the lease, not released, and its last record is unexpired. -/
def Holds (s : State) (o : String) : Prop :=
  (s.point o).isHeld = true ∧ ∃ rec, (s.acquirer o).installed = some rec ∧ s.now < rec.expiresAtMs

instance (s : State) (o : String) : Decidable (Holds s o) :=
  decidable_of_iff ((s.point o).isHeld = true ∧
    (s.acquirer o).installed.any (fun rec => decide (s.now < rec.expiresAtMs)) = true)
    (by simp [Holds,Option.any_eq_true])

/-- The acquirer whose unexpired record is in the lease file and who has been told so. -/
def State.confirmedOwner (s : State) : Option String :=
  s.lease.parsed.bind fun rec =>
    if s.now < rec.expiresAtMs ∧ (s.point rec.owner).isHeld = true then some rec.owner else none

/-- What a step is about to put in place of the lease file, if it touches it. -/
def State.replacement (s : State) : Event → Option File
  | .go o .ok =>
    match s.point o with
    | .renamingTmp => if s.tmp = .absent then none else some s.tmp
    | .removing _ => some .absent
    | _ => none
  | .renew o .ok =>
    match s.point o with
    | .held .renamingTmp | .stopping .renamingTmp _ => if s.tmp = .absent then none else some s.tmp
    | _ => none
  | _ => none

/-- The step does not take the lease file away from a confirmed owner. -/
def Respects (s : State) (e : Event) : Prop :=
  ∀ o f, s.confirmedOwner = some o → s.replacement e = some f → f.owner = some o

instance (s : State) (e : Event) : Decidable (Respects s e) :=
  decidable_of_iff (∀ o ∈ s.confirmedOwner, ∀ f ∈ s.replacement e, f.owner = some o)
    (by simp [Respects]; exact ⟨fun h o f ho hf => h o ho f hf,fun h o ho f hf => h o f ho hf⟩)

/-- `installed` after a rename of `f`; garbled bytes belong to nobody. -/
def installedBy (f : File) (s : State) (o : String) : Option LeaseRecord :=
  match f.parsed with
  | some rec => if rec.owner = o then some rec else (s.acquirer o).installed
  | none => (s.acquirer o).installed

/-- A step that leaves the lease file and every `installed` alone. An acquirer that
becomes a holder has just read its own record there. -/
structure Quiet (s s' : State) : Prop where
  lease : s'.lease = s.lease
  installed : ∀ o, (s'.acquirer o).installed = (s.acquirer o).installed
  now : s.now ≤ s'.now
  held : ∀ o, (s'.point o).isHeld = true →
    (s.point o).isHeld = true ∨ ∃ rec, s.lease = .record rec ∧ rec.owner = o

structure Replaces (s s' : State) (f : File) : Prop where
  lease : s'.lease = f
  installed : ∀ o, (s'.acquirer o).installed = installedBy f s o
  now : s'.now = s.now
  held : ∀ o, (s'.point o).isHeld = true → (s.point o).isHeld = true

@[simp] theorem move_lease (s : State) (o p) : (s.move o p).lease = s.lease := rfl
@[simp] theorem move_now (s : State) (o p) : (s.move o p).now = s.now := rfl

@[simp] theorem move_installed (s : State) (o p other) :
    ((s.move o p).acquirer other).installed = (s.acquirer other).installed := by
  by_cases same : other = o
  · subst other; simp [State.move]
  · simp [State.move,same]

theorem move_point (s : State) (o p other) :
    (s.move o p).point other = if other = o then p else s.point other := by
  by_cases same : other = o
  · subst other; simp [State.move,State.point]
  · simp [State.move,State.point,same]

@[simp] theorem writeTmp_lease (s : State) (rec io) : (s.writeTmp rec io).lease = s.lease := by
  cases io <;> rfl
@[simp] theorem writeTmp_now (s : State) (rec io) : (s.writeTmp rec io).now = s.now := by
  cases io <;> rfl
@[simp] theorem writeTmp_acquirer (s : State) (rec io) :
    (s.writeTmp rec io).acquirer = s.acquirer := by
  cases io <;> rfl

theorem move_held (s : State) (o other : String) (p : Point)
    (isHeld : ((s.move o p).point other).isHeld = true) :
    (other = o ∧ p.isHeld = true) ∨ (s.point other).isHeld = true := by
  rw [move_point] at isHeld
  by_cases same : other = o
  · exact .inl ⟨same,by simpa [same] using isHeld⟩
  · exact .inr (by simpa [same] using isHeld)

/-- Moving an acquirer is quiet unless it makes a holder out of a non-holder. -/
theorem quiet_move (s base : State) (o : String) (p : Point) (lease : base.lease = s.lease)
    (now : base.now = s.now) (acquirer : base.acquirer = s.acquirer)
    (held : p.isHeld = true → (s.point o).isHeld = true ∨ ∃ rec, s.lease = .record rec ∧ rec.owner = o) :
    Quiet s (base.move o p) where
  lease := by simp [lease]
  installed := by simp [acquirer]
  now := by simp [now]
  held := by
    intro other isHeld
    rcases move_held base o other p isHeld with ⟨rfl,becomes⟩ | still
    · exact held becomes
    · left; simpa [State.point,acquirer] using still

/-- A successful rename installs the temp file, whoever wrote it. -/
theorem rename_replaces (s s' : State) (renamed : s.rename = some s') (o : String) (p : Point)
    (held : p.isHeld = true → (s.point o).isHeld = true) :
    s.tmp ≠ .absent ∧ Replaces s (s'.move o p) s.tmp := by
  cases tmp : s.tmp with
  | absent => simp [State.rename,tmp] at renamed
  | garbled =>
    obtain rfl : _ = s' := by simpa [State.rename,tmp] using renamed
    refine ⟨by simp,rfl,by simp [installedBy,File.parsed],rfl,?_⟩
    intro other isHeld
    rcases move_held _ o other p isHeld with ⟨rfl,becomes⟩ | still
    · exact held becomes
    · simpa [State.point] using still
  | record rec =>
    obtain rfl : _ = s' := by simpa [State.rename,tmp] using renamed
    refine ⟨by simp,rfl,?_,rfl,?_⟩
    · intro other
      by_cases owner : rec.owner = other
      · subst owner; simp [installedBy,File.parsed]
      · simp [installedBy,File.parsed,owner,Ne.symm owner]
    · intro other isHeld
      rcases move_held _ o other p isHeld with ⟨rfl,becomes⟩ | still
      · exact held becomes
      · by_cases owner : other = rec.owner
        · subst owner; simpa [State.point] using still
        · simpa [State.point,owner] using still

/-- Reading the lease file back tells an acquirer whose record is there. -/
theorem seen_owner (s : State) (io : Io) (o : String)
    (own : (s.seen io).map LeaseRecord.owner = some o) : ∃ rec, s.lease = .record rec ∧ rec.owner = o := by
  obtain ⟨rec,seen,owner⟩ := Option.map_eq_some_iff.mp own
  cases io with
  | ok =>
    cases lease : s.lease <;> simp_all [State.seen,File.parsed]
  | failed => simp [State.seen] at seen
  | partway => simp [State.seen] at seen

theorem rename_none (s : State) (renamed : s.rename = none) : s.tmp = .absent := by
  cases tmp : s.tmp <;> simp_all [State.rename]

def Effect (s s' : State) (e : Event) : Prop :=
  (s.replacement e = none ∧ Quiet s s') ∨ ∃ f, s.replacement e = some f ∧ Replaces s s' f

/-- A move of the program that leaves the lease file alone and makes no holder. -/
theorem settle_effect (s : State) (o : String) (io : Io) (p : Point)
    (silent : s.replacement (.go o io) = none) (plain : p.isHeld = false) :
    Effect s (s.move o p) (.go o io) :=
  .inl ⟨silent,quiet_move s s o p rfl rfl rfl (by simp [plain])⟩

theorem advance_rename_effect (s s' : State) (o : String) (io : Io) (point : s.point o = .renamingTmp)
    (taken : s.advance o io = some s') : Effect s s' (.go o io) := by
  simp only [State.advance,point] at taken
  cases io with
  | ok =>
    cases renamed : s.rename with
    | none =>
      obtain rfl : _ = s' := by simpa [renamed] using taken
      exact settle_effect s o _ _ (by simp [State.replacement,point,rename_none s renamed]) rfl
    | some s'' =>
      obtain rfl : _ = s' := by simpa [renamed] using taken
      obtain ⟨present,replaces⟩ := rename_replaces s s'' renamed o .confirming (by simp [Point.isHeld])
      exact .inr ⟨s.tmp,by simp [State.replacement,point,present],replaces⟩
  | failed | partway =>
    obtain rfl : _ = s' := by simpa using taken
    exact settle_effect s o _ _ rfl rfl

theorem advance_remove_effect (s s' : State) (o : String) (io : Io) (point : s.point o = .removing ending)
    (taken : s.advance o io = some s') : Effect s s' (.go o io) := by
  simp only [State.advance,point] at taken
  cases io with
  | ok =>
    obtain rfl : _ = s' := by simpa using taken
    refine .inr ⟨.absent,by simp [State.replacement,point],by simp,?_,by simp,?_⟩
    · simp [installedBy,File.parsed]
    · intro other isHeld
      rcases move_held _ o other _ isHeld with ⟨_,becomes⟩ | still
      · cases ending <;> simp [Ending.done,Point.isHeld] at becomes
      · simpa [State.point] using still
  | failed | partway =>
    obtain rfl : _ = s' := by simpa using taken
    exact settle_effect s o _ _ rfl (by cases ending <;> rfl)

theorem advance_effect (s s' : State) (o : String) (io : Io) (taken : s.advance o io = some s') :
    Effect s s' (.go o io) := by
  cases point : s.point o with
  | reading | stamping =>
    obtain rfl : _ = s' := by simpa [State.advance,point] using taken
    exact settle_effect s o io _ (by cases io <;> simp [State.replacement,point]) rfl
  | deciding seen =>
    obtain rfl : _ = s' := by simpa [State.advance,point] using taken
    apply settle_effect s o io _ (by cases io <;> simp [State.replacement,point])
    split <;> rfl
  | writing rec =>
    obtain rfl : _ = s' := by simpa [State.advance,point] using taken
    refine .inl ⟨by cases io <;> simp [State.replacement,point],
      quiet_move s _ o _ (by simp) (by simp) (by simp) ?_⟩
    split <;> simp [Point.isHeld]
  | renamingTmp => exact advance_rename_effect s s' o io point taken
  | confirming =>
    simp only [State.advance,point,Option.some.injEq] at taken
    subst taken
    refine .inl ⟨by cases io <;> simp [State.replacement,point],quiet_move s s o _ rfl rfl rfl ?_⟩
    intro isHeld
    split at isHeld
    next own => exact .inr (seen_owner s io o own)
    next => simp [Point.isHeld] at isHeld
  | stopping renewal ending =>
    cases renewal with
    | asleep =>
      obtain rfl : _ = s' := by simpa [State.advance,point] using taken
      exact settle_effect s o io _ (by cases io <;> simp [State.replacement,point]) rfl
    | awake | writing | renamingTmp => simp [State.advance,point] at taken
  | releaseReading ending =>
    obtain rfl : _ = s' := by simpa [State.advance,point] using taken
    apply settle_effect s o io _ (by cases io <;> simp [State.replacement,point])
    split
    · rfl
    · cases ending <;> rfl
  | removing ending => exact advance_remove_effect s s' o io point taken
  | idle | refused | failed | held | released | dropped => simp [State.advance,point] at taken

/-- The renew thread of a guard, under either program point that runs it. -/
theorem renewal_effect (s : State) (o : String) (io : Io) (r : Renewal) (p : Renewal → Point)
    (held : ∀ r', (p r').isHeld = true → (s.point o).isHeld = true)
    (foretold : s.replacement (.renew o io) =
      if io = .ok ∧ r = .renamingTmp ∧ s.tmp ≠ .absent then some s.tmp else none) :
    Effect s ((s.renewal o io r).1.move o (p (s.renewal o io r).2)) (.renew o io) := by
  cases r with
  | asleep =>
    exact .inl ⟨by simpa using foretold,quiet_move s s o _ rfl rfl rfl fun h => .inl (held _ h)⟩
  | awake =>
    exact .inl ⟨by simpa using foretold,quiet_move s s o _ rfl rfl rfl fun h => .inl (held _ h)⟩
  | writing rec =>
    exact .inl ⟨by simpa using foretold,
      quiet_move s _ o _ (writeTmp_lease ..) (writeTmp_now ..) (writeTmp_acquirer ..)
        fun h => .inl (held _ h)⟩
  | renamingTmp =>
    have plain (silent : s.replacement (.renew o io) = none) :
        Effect s (s.move o (p .asleep)) (.renew o io) :=
      .inl ⟨silent,quiet_move s s o _ rfl rfl rfl fun h => .inl (held _ h)⟩
    cases io with
    | ok =>
      cases renamed : s.rename with
      | none =>
        simpa [State.renewal,renamed] using plain (by simpa [rename_none s renamed] using foretold)
      | some s'' =>
        obtain ⟨present,replaces⟩ := rename_replaces s s'' renamed o (p .asleep) (held _)
        exact .inr ⟨s.tmp,by simpa [present] using foretold,by simpa [State.renewal,renamed] using replaces⟩
    | failed => exact plain (by simpa using foretold)
    | partway => exact plain (by simpa using foretold)

theorem renew_effect (s s' : State) (o : String) (io : Io) (taken : s.renew o io = some s') :
    Effect s s' (.renew o io) := by
  cases point : s.point o with
  | held r =>
    obtain rfl : _ = s' := by simpa [State.renew,point] using taken
    apply renewal_effect s o io r .held (by simp [point,Point.isHeld])
    cases io <;> cases r <;> simp [State.replacement,point]
  | stopping r ending =>
    cases r with
    | asleep => simp [State.renew,point] at taken
    | awake | writing rec | renamingTmp =>
      obtain rfl : _ = s' := by simpa [State.renew,point] using taken
      apply renewal_effect s o io _ (.stopping · ending) (by simp [Point.isHeld])
      cases io <;> simp [State.replacement,point]
  | idle | reading | deciding | stamping | writing | renamingTmp | confirming | refused | failed
  | releaseReading | removing | released | dropped => simp [State.renew,point] at taken

theorem finish_quiet (s s' : State) (o : String) (ending : Ending)
    (taken : s.finish o ending = some s') : Quiet s s' := by
  cases point : s.point o with
  | held r =>
    have moved : s.move o (.stopping r ending) = s' := by simpa [State.finish,point] using taken
    subst moved
    exact quiet_move s s o _ rfl rfl rfl (by simp [Point.isHeld])
  | released =>
    cases ending with
    | release => simp [State.finish,point] at taken
    | drop =>
      obtain rfl : _ = s' := by simpa [State.finish,point] using taken
      exact quiet_move s s o _ rfl rfl rfl (by simp [Point.isHeld])
  | idle | reading | deciding | stamping | writing | renamingTmp | confirming | refused | failed
  | stopping | releaseReading | removing | dropped => simp [State.finish,point] at taken

/-- Every step is quiet or replaces the lease file by what it was foretold to. -/
theorem step_effect (s s' : State) (e : Event) (taken : step s e = some s') : Effect s s' e := by
  cases e with
  | tick ms =>
    simp only [step] at taken
    split at taken
    · obtain rfl := Option.some.inj taken
      exact .inl ⟨rfl,rfl,fun _ => rfl,Nat.le_add_right ..,fun _ h => .inl h⟩
    · contradiction
  | begin o ttlMs =>
    simp only [step] at taken
    split at taken
    next idle =>
      obtain rfl := Option.some.inj taken
      refine .inl ⟨rfl,rfl,?_,Nat.le_refl _,?_⟩
      · intro other
        by_cases same : other = o <;> simp [same]
      · intro other isHeld
        by_cases same : other = o
        · simp [State.point,same,Point.isHeld] at isHeld
        · exact .inl (by simpa [State.point,same] using isHeld)
    next => contradiction
  | go o io => exact advance_effect s s' o io taken
  | renew o io => exact renew_effect s s' o io taken
  | finish o ending => exact .inl ⟨rfl,finish_quiet s s' o ending taken⟩

/-- The lease file's record is the last one its owner installed. -/
structure Records (s : State) : Prop where
  own : ∀ o rec, (s.acquirer o).installed = some rec → rec.owner = o
  recorded : ∀ rec, s.lease = .record rec → (s.acquirer rec.owner).installed = some rec

theorem Records.quiet (records : Records s) (quiet : Quiet s s') : Records s' where
  own := by
    intro o rec installed
    exact records.own o rec (quiet.installed o ▸ installed)
  recorded := by
    intro rec here
    rw [quiet.installed]
    exact records.recorded rec (quiet.lease ▸ here)

theorem Records.replaces (records : Records s) (replaces : Replaces s s' f) : Records s' where
  own := by
    intro o rec installed
    rw [replaces.installed,installedBy] at installed
    split at installed
    next found _ =>
      split at installed
      next owner => rw [← Option.some.inj installed]; exact owner
      next => exact records.own o rec installed
    next => exact records.own o rec installed
  recorded := by
    intro rec here
    rw [replaces.lease] at here
    simp [replaces.installed,installedBy,here,File.parsed]

/-- The lease file's record is the last one its owner installed, and every live
holder's record is the one in the file. -/
structure Invariant (s : State) : Prop where
  own : ∀ o rec, (s.acquirer o).installed = some rec → rec.owner = o
  recorded : ∀ rec, s.lease = .record rec → (s.acquirer rec.owner).installed = some rec
  sole : ∀ o rec, (s.point o).isHeld = true → (s.acquirer o).installed = some rec →
    s.now < rec.expiresAtMs → s.lease = .record rec

theorem Invariant.records (valid : Invariant s) : Records s := ⟨valid.own,valid.recorded⟩

theorem initial_invariant (lease tmp : File) (now : Nat) : Invariant (initial lease tmp now) where
  own := by
    intro o rec installed
    have found := Option.filter_eq_some_iff.mp installed
    simpa using found.2
  recorded := by
    intro rec here
    have parsed : lease.parsed = some rec := by rw [show lease = .record rec from here]; rfl
    simp [initial,parsed]
  sole := by simp [initial,State.point,Point.isHeld]

theorem quiet_invariant (s s' : State) (valid : Invariant s) (quiet : Quiet s s') : Invariant s' where
  own := (valid.records.quiet quiet).own
  recorded := (valid.records.quiet quiet).recorded
  sole := by
    intro o rec held installed live
    rw [quiet.lease]
    have before : (s.acquirer o).installed = some rec := quiet.installed o ▸ installed
    rcases quiet.held o held with already | ⟨seen,here,owner⟩
    · exact valid.sole o rec already before (Nat.lt_of_le_of_lt quiet.now live)
    · -- the acquirer has just read its own record back
      subst owner
      rw [valid.recorded seen here] at before
      rw [here,Option.some.inj before]

theorem confirmedOwner_of_holder (s : State) (o : String) (rec : LeaseRecord) (valid : Invariant s)
    (held : (s.point o).isHeld = true) (installed : (s.acquirer o).installed = some rec)
    (live : s.now < rec.expiresAtMs) : s.confirmedOwner = some o := by
  have here := valid.sole o rec held installed live
  have owner := valid.own o rec installed
  simp [State.confirmedOwner,here,File.parsed,owner,live,held]

theorem replaces_invariant (s s' : State) (f : File) (valid : Invariant s)
    (replaces : Replaces s s' f) (respects : ∀ o, s.confirmedOwner = some o → f.owner = some o) :
    Invariant s' where
  own := (valid.records.replaces replaces).own
  recorded := (valid.records.replaces replaces).recorded
  sole := by
    intro o rec held installed live
    rw [replaces.lease]
    rw [replaces.installed,installedBy] at installed
    rw [replaces.now] at live
    have before := replaces.held o held
    -- a holder whose record is not the new one still has its old one in the file
    have displaced (old : (s.acquirer o).installed = some rec) : f.owner = some o :=
      respects o (confirmedOwner_of_holder s o rec valid before old live)
    cases f with
    | absent => simpa [File.owner,File.parsed] using displaced (by simpa [File.parsed] using installed)
    | garbled => simpa [File.owner,File.parsed] using displaced (by simpa [File.parsed] using installed)
    | record new =>
      by_cases owner : new.owner = o
      · simpa [File.parsed,owner] using installed
      · have mine := displaced (by simpa [File.parsed,owner] using installed)
        simp [File.owner,File.parsed,owner] at mine

theorem step_invariant (s : State) (e : Event) (s' : State) (valid : Invariant s)
    (respects : Respects s e) (taken : step s e = some s') : Invariant s' := by
  rcases step_effect s s' e taken with ⟨_,quiet⟩ | ⟨f,foretold,replaces⟩
  · exact quiet_invariant s s' valid quiet
  · exact replaces_invariant s s' f valid replaces fun o owner => respects o f owner foretold

theorem Invariant.unique (valid : Invariant s) (first : Holds s a) (second : Holds s b) : a = b := by
  obtain ⟨heldA,recA,installedA,liveA⟩ := first
  obtain ⟨heldB,recB,installedB,liveB⟩ := second
  have fileA := valid.sole a recA heldA installedA liveA
  have fileB := valid.sole b recB heldB installedB liveB
  rw [fileA] at fileB
  cases fileB
  exact (valid.own a recA installedA).symm.trans (valid.own b recA installedB)

/-- Mutual exclusion in every run in which no rename or removal takes the lease file
away from an acquirer that has been told it holds it and whose record is unexpired. -/
theorem at_most_one_holder (lease tmp : File) (now : Nat) (past : List (Taken State Event)) (s : State)
    (run : Run step (initial lease tmp now) past s)
    (respects : ∀ t ∈ past, Respects t.pre t.event) (a b : String)
    (first : Holds s a) (second : Holds s b) : a = b :=
  (run.invariant (initial_invariant lease tmp now) step_invariant respects).unique first second

def goes (o : String) (n : Nat) : List Event := List.replicate n (.go o .ok)

def takeover : List Event :=
  List.flatten [[.begin "pid7-0-0" 10],goes "pid7-0-0" 6,[.begin "pid7-1-0" 10],goes "pid7-1-0" 2,
    [.tick 10,.begin "pid7-2-10" 10],goes "pid7-2-10" 6]

theorem at_most_one_holder_takeover : ∃ past s, Run step (initial .absent .absent 0) past s ∧
    (∀ t ∈ past, Respects t.pre t.event) ∧ Holds s "pid7-2-10" ∧
    ∀ b, Holds s b → b = "pid7-2-10" := by
  obtain ⟨past,s,run,respects,holds⟩ := exists_run step (initial .absent .absent 0) takeover
    (fun past s => (∀ t ∈ past, Respects t.pre t.event) ∧ Holds s "pid7-2-10") (by decide +kernel)
  exact ⟨past,s,run,respects,holds,fun b other =>
    at_most_one_holder .absent .absent 0 past s run respects b "pid7-2-10" other holds⟩

/-- Both read the absent lease file before either renames; each then finds its own
record when it reads back. -/
def race : List Event :=
  List.flatten [[.begin "pid7-0-0" 1000,.begin "pid7-1-0" 1000,.go "pid7-0-0" .ok,.go "pid7-1-0" .ok],
    goes "pid7-0-0" 5,goes "pid7-1-0" 5]

theorem two_holders : ¬ ∀ lease tmp now past s, Run step (initial lease tmp now) past s →
    ∀ a b, Holds s a → Holds s b → a = b := by
  intro exclusive
  obtain ⟨past,s,run,first,second⟩ := exists_run step (initial .absent .absent 0) race
    (fun _ s => Holds s "pid7-0-0" ∧ Holds s "pid7-1-0") (by decide +kernel)
  exact absurd (exclusive _ _ _ past s run _ _ first second) (by decide)

end Malkuth.Lease
