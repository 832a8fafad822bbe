import Malkuth.DbDumps
import Malkuth.Retention
import Malkuth.Transition

/-! The rounds of `run_forever`: every database is dumped in turn, into a temporary file which is
then renamed or encrypted, and the directory is rotated. The tools write while others look and may
fail after any part of their output, every removal may fail, and the process may be killed, with its tools, at any
point and start over. Only this process writes into the directory. -/
namespace Malkuth.DbBackup.Rounds

open Transition

structure Config where
  host : List Char
  key : Bool
  retain : Nat
  /-- What `discover_uris` gave. -/
  uris : List (List Char)

/-- What a file holds: the archive of a database or a part of it, something encrypted or a part
of that, or something that was there before. -/
inductive Content where
  | archive (uri : List Char) (whole : Bool)
  | age (inside : Content) (whole : Bool)
  | other (n : Nat)
  deriving DecidableEq

structure Job where
  uri : List Char
  stamp : Stamp
  deriving DecidableEq

def Config.dump (cfg : Config) (job : Job) : Dump := runBackup cfg.host cfg.key job.uri job.stamp

def Config.finalPath (cfg : Config) (job : Job) : Name := (cfg.dump job).name

def Config.tmp (cfg : Config) (job : Job) : Name :=
  '.' :: ((cfg.dump job).label ++ '-' :: (job.stamp.text ++ ".tmp".toList))

/-- `dumping` while `pg_dump` runs, `sealing` while `age` does. `failed` and `sealed` remove the
temporary file next, and `unsealed` what `age` left. -/
inductive Point where
  | next (left : List (List Char))
  | dumping (job : Job) (left : List (List Char))
  | dumped (job : Job) (left : List (List Char))
  | sealing (job : Job) (left : List (List Char))
  | sealed (job : Job) (left : List (List Char)) (done : Bool)
  | unsealed (job : Job) (left : List (List Char))
  | failed (job : Job) (left : List (List Char))
  | resting
  deriving DecidableEq

structure State where
  entries : List Name
  content : Name → Content
  point : Point

def State.at (s : State) (point : Point) : State := { s with point := point }

def State.write (s : State) (name : Name) (content : Content) : State :=
  { s with
    entries := if name ∈ s.entries then s.entries else s.entries ++ [name]
    content := Function.update s.content name content }

def State.unlink (s : State) (name : Name) : State := { s with entries := s.entries.filter (· ≠ name) }

inductive Event where
  | begin (stamp : Stamp) (spawned : Bool)
  | pgWrites
  | pgExits (success : Bool)
  | spawnAge (spawned : Bool)
  | ageWrites
  | ageExits (success : Bool)
  | rename (done : Bool)
  | remove (done : Bool)
  | rotate (world : World)
  | wake
  | kill

/-- The file that is removed next. -/
def Config.removes (cfg : Config) : Point → Option Name
  | .failed job _ | .sealed job _ _ => some (cfg.tmp job)
  | .unsealed job _ => some (cfg.finalPath job)
  | _ => none

/-- Where the removal leads. -/
def Point.removed : Point → Point
  | .failed _ left | .sealed _ left true | .unsealed _ left => .next left
  | .sealed job left false => .unsealed job left
  | point => point

def step (cfg : Config) (s : State) : Event → Option State
  | .begin stamp spawned =>
    match s.point with
    | .next (uri :: left) => some (s.at (if spawned then .dumping ⟨uri,stamp⟩ left else .next left))
    | _ => none
  | .pgWrites =>
    match s.point with
    | .dumping job _ => some (s.write (cfg.tmp job) (.archive job.uri false))
    | _ => none
  | .pgExits success =>
    match s.point with
    | .dumping job left =>
      some (if success then (s.write (cfg.tmp job) (.archive job.uri true)).at (.dumped job left) else s.at (.failed job left))
    | _ => none
  | .spawnAge spawned =>
    match s.point with
    | .dumped job left => if cfg.key then some (s.at (if spawned then .sealing job left else .failed job left)) else none
    | _ => none
  | .ageWrites =>
    match s.point with
    | .sealing job _ => some (s.write (cfg.finalPath job) (.age (s.content (cfg.tmp job)) false))
    | _ => none
  | .ageExits success =>
    match s.point with
    | .sealing job left =>
      some (if success then (s.write (cfg.finalPath job) (.age (s.content (cfg.tmp job)) true)).at (.sealed job left true)
        else s.at (.sealed job left false))
    | _ => none
  | .rename done =>
    match s.point with
    | .dumped job left =>
      if cfg.key then none
      else some (if done then ((s.write (cfg.finalPath job) (s.content (cfg.tmp job))).unlink (cfg.tmp job)).at (.next left)
        else s.at (.failed job left))
    | _ => none
  | .remove done =>
    (cfg.removes s.point).map fun name => (if done then s.unlink name else s).at s.point.removed
  | .rotate world =>
    match s.point with
    | .next [] => some { s with entries := DbBackup.rotate world cfg.retain s.entries, point := .resting }
    | _ => none
  | .wake =>
    match s.point with
    | .resting => some (s.at (.next cfg.uris))
    | _ => none
  | .kill => some (s.at (.next cfg.uris))

/-! What is left of a job that has not ended. -/

def Config.whole (cfg : Config) (uri : List Char) : Content :=
  if cfg.key then .age (.archive uri true) true else .archive uri true

/-- The files of a job under way that are not what they are to become, or not to stay. -/
def Config.unfinished (cfg : Config) : Point → List Name
  | .dumping job _ | .dumped job _ | .failed job _ | .sealed job _ true => [cfg.tmp job]
  | .sealing job _ | .sealed job _ false => [cfg.tmp job,cfg.finalPath job]
  | .unsealed job _ => [cfg.finalPath job]
  | .next _ | .resting => []

abbrev History := List (Taken State Event)

/-- The process was killed over the file, or could not remove it. -/
def Left (cfg : Config) (past : History) (name : Name) : Prop :=
  ∃ t ∈ past, (t.event = .kill ∧ name ∈ cfg.unfinished t.pre.point) ∨
    (t.event = .remove false ∧ cfg.removes t.pre.point = some name)

/-- What a file may hold: what it held at the start, a whole dump, or, if its job is under way or
was left so, a part of one. -/
inductive Holds (cfg : Config) (start : State) (under : Prop) : Name → Content → Prop where
  | kept : name ∈ start.entries → Holds cfg start under name (start.content name)
  | made (job : Job) : job.uri ∈ cfg.uris → Holds cfg start under (cfg.finalPath job) (cfg.whole job.uri)
  | plain (job : Job) : job.uri ∈ cfg.uris → under → Holds cfg start under (cfg.tmp job) (.archive job.uri whole)
  | cut (job : Job) : job.uri ∈ cfg.uris → cfg.key = true → under →
      Holds cfg start under (cfg.finalPath job) (.age (.archive job.uri true) false)

theorem Holds.imp {p q : Prop} (imp : p → q) (holds : Holds cfg start p name content) :
    Holds cfg start q name content := by
  cases holds with
  | kept inside => exact .kept inside
  | made job known => exact .made job known
  | plain job known under => exact .plain job known (imp under)
  | cut job known key under => exact .cut job known key (imp under)

theorem isDump_final (cfg : Config) (job : Job) : isDump (cfg.finalPath job) = true := (groupOf_name _).1

theorem not_isDump_tmp (cfg : Config) (job : Job) : isDump (cfg.tmp job) = false := by
  obtain ⟨base,eq⟩ : ∃ base, cfg.tmp job = base ++ ".tmp".toList :=
    ⟨'.' :: ((cfg.dump job).label ++ '-' :: job.stamp.text),by simp [Config.tmp]⟩
  rw [Bool.eq_false_iff]
  intro dump
  rcases (Bool.or_eq_true ..).mp dump with ends | ends
  · obtain ⟨front,same⟩ := List.isSuffixOf_iff_suffix.mp ends
    have backwards := congrArg List.reverse (same.trans eq)
    simp at backwards
  · obtain ⟨front,same⟩ := List.isSuffixOf_iff_suffix.mp ends
    have backwards := congrArg List.reverse (same.trans eq)
    simp at backwards

theorem final_ne_tmp (cfg : Config) (job other : Job) : cfg.finalPath job ≠ cfg.tmp other := by
  intro same
  have dump := isDump_final cfg job
  rw [same,not_isDump_tmp] at dump
  contradiction

def Ready (cfg : Config) (s : State) : Prop :=
  match s.point with
  | .next left => left ⊆ cfg.uris
  | .dumping job left | .failed job left | .unsealed job left => job.uri ∈ cfg.uris ∧ left ⊆ cfg.uris
  | .dumped job left => job.uri ∈ cfg.uris ∧ left ⊆ cfg.uris ∧ s.content (cfg.tmp job) = .archive job.uri true
  | .sealing job left =>
    job.uri ∈ cfg.uris ∧ left ⊆ cfg.uris ∧ cfg.key = true ∧ s.content (cfg.tmp job) = .archive job.uri true
  | .sealed job left _ => job.uri ∈ cfg.uris ∧ left ⊆ cfg.uris ∧ cfg.key = true
  | .resting => True

inductive Steps (cfg : Config) (s : State) : Event → State → Prop where
  | skipped : s.point = .next (uri :: left) → Steps cfg s (.begin stamp false) (s.at (.next left))
  | begun : s.point = .next (uri :: left) → Steps cfg s (.begin stamp true) (s.at (.dumping ⟨uri,stamp⟩ left))
  | wrote (job : Job) : s.point = .dumping job left →
      Steps cfg s .pgWrites (s.write (cfg.tmp job) (.archive job.uri false))
  | dumped (job : Job) : s.point = .dumping job left → Steps cfg s (.pgExits true)
      ((s.write (cfg.tmp job) (.archive job.uri true)).at (.dumped job left))
  | undumped (job : Job) : s.point = .dumping job left → Steps cfg s (.pgExits false) (s.at (.failed job left))
  | sealing (job : Job) : s.point = .dumped job left → cfg.key = true →
      Steps cfg s (.spawnAge true) (s.at (.sealing job left))
  | unspawned (job : Job) : s.point = .dumped job left → cfg.key = true →
      Steps cfg s (.spawnAge false) (s.at (.failed job left))
  | seals (job : Job) : s.point = .sealing job left →
      Steps cfg s .ageWrites (s.write (cfg.finalPath job) (.age (s.content (cfg.tmp job)) false))
  | sealed (job : Job) : s.point = .sealing job left → Steps cfg s (.ageExits true)
      ((s.write (cfg.finalPath job) (.age (s.content (cfg.tmp job)) true)).at (.sealed job left true))
  | unsealed (job : Job) : s.point = .sealing job left → Steps cfg s (.ageExits false) (s.at (.sealed job left false))
  | renamed (job : Job) : s.point = .dumped job left → cfg.key = false → Steps cfg s (.rename true)
      (((s.write (cfg.finalPath job) (s.content (cfg.tmp job))).unlink (cfg.tmp job)).at (.next left))
  | unrenamed (job : Job) : s.point = .dumped job left → cfg.key = false →
      Steps cfg s (.rename false) (s.at (.failed job left))
  | removed : cfg.removes s.point = some name → Steps cfg s (.remove true) ((s.unlink name).at s.point.removed)
  | unremoved : cfg.removes s.point = some name → Steps cfg s (.remove false) (s.at s.point.removed)
  | rotated (world : World) : s.point = .next [] → Steps cfg s (.rotate world)
      { s with entries := DbBackup.rotate world cfg.retain s.entries, point := .resting }
  | woken : s.point = .resting → Steps cfg s .wake (s.at (.next cfg.uris))
  | killed : Steps cfg s .kill (s.at (.next cfg.uris))

theorem step_steps (cfg : Config) (s s' : State) (e : Event) (taken : step cfg s e = some s') : Steps cfg s e s' := by
  cases e with
  | kill => obtain rfl := Option.some.inj taken; exact .killed
  | remove done =>
    obtain ⟨name,removes,rfl⟩ := Option.map_eq_some_iff.mp taken
    cases done with
    | true => exact .removed removes
    | false => exact .unremoved removes
  | «begin» stamp spawned =>
    simp only [step] at taken
    split at taken
    next uri left here =>
      obtain rfl := Option.some.inj taken
      cases spawned with
      | true => exact .begun here
      | false => exact .skipped here
    next => cases taken
  | pgWrites =>
    simp only [step] at taken
    split at taken
    next job left here => obtain rfl := Option.some.inj taken; exact .wrote job here
    next => cases taken
  | pgExits success =>
    simp only [step] at taken
    split at taken
    next job left here =>
      obtain rfl := Option.some.inj taken
      cases success with
      | true => exact .dumped job here
      | false => exact .undumped job here
    next => cases taken
  | spawnAge spawned =>
    simp only [step] at taken
    split at taken
    next job left here =>
      split at taken
      next key =>
        obtain rfl := Option.some.inj taken
        cases spawned with
        | true => exact .sealing job here key
        | false => exact .unspawned job here key
      next => cases taken
    next => cases taken
  | ageWrites =>
    simp only [step] at taken
    split at taken
    next job left here => obtain rfl := Option.some.inj taken; exact .seals job here
    next => cases taken
  | ageExits success =>
    simp only [step] at taken
    split at taken
    next job left here =>
      obtain rfl := Option.some.inj taken
      cases success with
      | true => exact .sealed job here
      | false => exact .unsealed job here
    next => cases taken
  | rename done =>
    simp only [step] at taken
    split at taken
    next job left here =>
      split at taken
      next => cases taken
      next plain =>
        obtain rfl := Option.some.inj taken
        have noKey := Bool.eq_false_iff.mpr plain
        cases done with
        | true => exact .renamed job here noKey
        | false => exact .unrenamed job here noKey
    next => cases taken
  | rotate world =>
    simp only [step] at taken
    split at taken
    next here => obtain rfl := Option.some.inj taken; exact .rotated world here
    next => cases taken
  | wake =>
    simp only [step] at taken
    split at taken
    next here => obtain rfl := Option.some.inj taken; exact .woken here
    next => cases taken

theorem mem_write (s : State) (name : Name) (content : Content) :
    n ∈ (s.write name content).entries ↔ n ∈ s.entries ∨ n = name := by
  unfold State.write
  dsimp only
  split
  next inside =>
    constructor
    · exact .inl
    · rintro (old | rfl)
      · exact old
      · exact inside
  next => simp

theorem mem_unlink (s : State) (name : Name) : n ∈ (s.unlink name).entries ↔ n ∈ s.entries ∧ n ≠ name := by
  simp [State.unlink]

@[simp] theorem content_write (s : State) (name : Name) (content : Content) :
    (s.write name content).content = Function.update s.content name content := rfl

theorem rotate_sublist (world : World) (retain : Nat) (entries : List Name) :
    (DbBackup.rotate world retain entries).Sublist entries := by
  have one : ∀ dir name, (removeFile world dir name).Sublist dir := by
    intro dir name
    unfold removeFile
    split
    · exact List.filter_sublist
    · exact .refl _
  have many : ∀ (names dir : List Name), (names.foldl (removeFile world) dir).Sublist dir := by
    intro names
    induction names with
    | nil => exact fun dir => .refl _
    | cons name names ih => exact fun dir => (ih _).trans (one dir name)
  unfold DbBackup.rotate
  generalize world.order _ = groups
  have all : ∀ dir, (groups.foldl
      (fun dir group => (stale retain (byGroup entries group)).foldl (removeFile world) dir) dir).Sublist dir := by
    induction groups with
    | nil => exact fun dir => .refl _
    | cons group groups ih => exact fun dir => (ih _).trans (many _ dir)
  exact all entries

/-- What is fresh in its group is kept, whatever can be removed. -/
theorem rotate_spares (world : World) (retain : Nat) (entries : List Name) (inside : n ∈ entries)
    (fresh : n ∉ stale retain (entries.filter (inGroup (groupOf n)))) : n ∈ DbBackup.rotate world retain entries := by
  have nowhere : ∀ group, n ∉ stale retain (byGroup entries group) := by
    intro group gone
    rw [byGroup_eq] at gone
    have own := (stale_inGroup gone).2
    obtain rfl : groupOf n = group := by simpa using (Bool.and_eq_true_iff.mp own).2
    exact fresh gone
  have one : ∀ dir name, n ≠ name → n ∈ dir → n ∈ removeFile world dir name := by
    intro dir name other here
    unfold removeFile
    split
    · exact List.mem_filter.mpr ⟨here,by simpa using other⟩
    · exact here
  have many : ∀ names : List Name, n ∉ names → ∀ dir, n ∈ dir → n ∈ names.foldl (removeFile world) dir := by
    intro names
    induction names with
    | nil => exact fun _ dir here => here
    | cons name names ih =>
      intro other dir here
      obtain ⟨first,rest⟩ := not_or.mp (List.mem_cons.not.mp other)
      exact ih rest _ (one dir name first here)
  unfold DbBackup.rotate
  generalize world.order _ = groups
  have all : ∀ dir, n ∈ dir → n ∈ groups.foldl
      (fun dir group => (stale retain (byGroup entries group)).foldl (removeFile world) dir) dir := by
    induction groups with
    | nil => exact fun dir here => here
    | cons group groups ih => exact fun dir here => ih _ (many _ (nowhere group) dir here)
  exact all entries inside

/-- Of two dumps of one label, the one whose name sorts later. Only the names count: an encrypted
dump that was cut off is one of the newer ones too. -/
def newer (n m : Name) : Bool := inGroup (groupOf n) m && decide (n < m)

/-- A dump that is rotated out leaves as many newer ones behind as are retained. -/
theorem rotate_leaves (world : World) (retain : Nat) (entries : List Name) (distinct : entries.Nodup)
    (inside : n ∈ entries) (gone : n ∉ DbBackup.rotate world retain entries) :
    retain ≤ ((DbBackup.rotate world retain entries).filter (newer n)).length := by
  let group := entries.filter (inGroup (groupOf n))
  have old : n ∈ stale retain group := by
    by_contra fresh
    exact gone (rotate_spares world retain entries inside fresh)
  have many : retain < group.length := by
    rw [stale_eq] at old
    by_contra few
    rw [Nat.sub_eq_zero_of_le (Nat.le_of_not_lt few)] at old
    simp at old
  have fresh := length_fresh retain group (distinct.filter _)
  calc retain = (group.filter (· ∉ stale retain group)).length := by rw [fresh,Nat.min_eq_left (Nat.le_of_lt many)]
    _ ≤ ((DbBackup.rotate world retain entries).filter (newer n)).length := by
      refine (((distinct.filter _).filter _).subperm fun m member => ?_).length_le
      obtain ⟨within,kept⟩ := List.mem_filter.mp member
      obtain ⟨here,own⟩ := List.mem_filter.mp within
      have spared : m ∉ stale retain group := by simpa using kept
      have label : groupOf m = groupOf n := by simpa using (Bool.and_eq_true_iff.mp own).2
      have later : n < m := by
        have order := stale_le retain group old within spared
        have differ : n ≠ m := by
          rintro rfl
          exact spared old
        exact lt_of_le_of_ne order differ
      refine List.mem_filter.mpr ⟨rotate_spares world retain entries here ?_,?_⟩
      · rw [label]
        exact spared
      · simp [newer,own,later]

structure Books (cfg : Config) (start : State) (past : History) (s : State) : Prop where
  ready : Ready cfg s
  distinct : s.entries.Nodup
  files : ∀ n ∈ s.entries, Holds cfg start (n ∈ cfg.unfinished s.point ∨ Left cfg past n) n (s.content n)

theorem Left.snoc (left : Left cfg past n) (t : Taken State Event) : Left cfg (past ++ [t]) n := by
  obtain ⟨u,member,was⟩ := left
  exact ⟨u,List.mem_append_left _ member,was⟩

theorem Left.last (past : History) (t : Taken State Event) (was : (t.event = .kill ∧ n ∈ cfg.unfinished t.pre.point) ∨
    (t.event = .remove false ∧ cfg.removes t.pre.point = some n)) : Left cfg (past ++ [t]) n :=
  ⟨t,List.mem_append_right _ (List.mem_singleton_self _),was⟩

/-- A file that a step does not touch, and that it does not leave unfinished behind its back. -/
theorem Books.kept {s' : State} (books : Books cfg start past s) (t : Taken State Event) (inside : n ∈ s.entries)
    (same : s'.content n = s.content n)
    (carried : n ∈ cfg.unfinished s.point → n ∈ cfg.unfinished s'.point ∨ Left cfg (past ++ [t]) n) :
    Holds cfg start (n ∈ cfg.unfinished s'.point ∨ Left cfg (past ++ [t]) n) n (s'.content n) := by
  rw [same]
  refine (books.files n inside).imp ?_
  rintro (under | left)
  · exact carried under
  · exact .inr (left.snoc t)

/-- A step that writes nothing. -/
theorem Books.moves (books : Books cfg start past s) (e : Event) (point : Point) (ready : Ready cfg (s.at point))
    (carried : ∀ n ∈ cfg.unfinished s.point,
      n ∈ cfg.unfinished point ∨ Left cfg (past ++ [⟨s,e,s.at point⟩]) n) :
    Books cfg start (past ++ [⟨s,e,s.at point⟩]) (s.at point) :=
  ⟨ready,books.distinct,fun n inside => books.kept _ inside rfl (carried n)⟩

theorem nodup_write (s : State) (name : Name) (content : Content) (distinct : s.entries.Nodup) :
    (s.write name content).entries.Nodup := by
  unfold State.write
  dsimp only
  split
  next => exact distinct
  next new =>
    rw [List.nodup_append]
    refine ⟨distinct,List.nodup_singleton _,?_⟩
    rintro n inside m only rfl
    rw [List.mem_singleton.mp only] at inside
    exact new inside

/-- A step that writes one file. -/
theorem Books.writes (books : Books cfg start past s) (e : Event) (name : Name) (content : Content) (point : Point)
    (ready : Ready cfg ((s.write name content).at point)) (carried : ∀ n ∈ cfg.unfinished s.point, n ≠ name → n ∈ cfg.unfinished point)
    (holds : Holds cfg start (name ∈ cfg.unfinished point) name content) :
    Books cfg start (past ++ [⟨s,e,(s.write name content).at point⟩]) ((s.write name content).at point) := by
  refine ⟨ready,nodup_write s name content books.distinct,fun n member => ?_⟩
  by_cases own : n = name
  · subst own
    have here : ((s.write n content).at point).content n = content := by simp [State.at]
    rw [here]
    exact holds.imp .inl
  · have inside : n ∈ s.entries := ((mem_write s name content).mp member).resolve_right own
    exact books.kept _ inside (by simp [State.at,own]) fun under => .inl (carried n under own)

/-- A step that removes one file. -/
theorem Books.unlinks (books : Books cfg start past s) (e : Event) (name : Name) (point : Point)
    (ready : Ready cfg ((s.unlink name).at point)) (carried : ∀ n ∈ cfg.unfinished s.point, n ≠ name → n ∈ cfg.unfinished point) :
    Books cfg start (past ++ [⟨s,e,(s.unlink name).at point⟩]) ((s.unlink name).at point) := by
  refine ⟨ready,books.distinct.filter _,fun n member => ?_⟩
  obtain ⟨inside,other⟩ := (mem_unlink s name).mp member
  exact books.kept _ inside rfl fun under => .inl (carried n under other)

theorem Books.snoc (books : Books cfg start past s) (taken : step cfg s e = some s') :
    Books cfg start (past ++ [⟨s,e,s'⟩]) s' := by
  have ready := books.ready
  unfold Ready at ready
  cases step_steps cfg s s' e taken with
  | skipped here =>
    rw [here] at ready
    exact books.moves _ _ (fun _ member => ready (List.mem_cons_of_mem _ member)) (by simp [here,Config.unfinished])
  | begun here =>
    rw [here] at ready
    exact books.moves _ _ ⟨ready List.mem_cons_self,fun _ member => ready (List.mem_cons_of_mem _ member)⟩
      (by simp [here,Config.unfinished])
  | wrote job here =>
    rw [here] at ready
    have point : s.write (cfg.tmp job) (.archive job.uri false) =
        (s.write (cfg.tmp job) (.archive job.uri false)).at s.point := rfl
    rw [point]
    refine books.writes _ _ _ _ ?_ (fun _ under _ => under) (.plain job ready.1 (by simp [here,Config.unfinished]))
    simpa [Ready,State.at,State.write,here] using ready
  | dumped job here =>
    rw [here] at ready
    refine books.writes _ _ _ _ ⟨ready.1,ready.2,by simp [State.at]⟩ ?_ (.plain job ready.1 (by simp [Config.unfinished]))
    simp [here,Config.unfinished]
  | undumped job here =>
    rw [here] at ready
    exact books.moves _ _ ready fun n under => .inl (by simpa [here,Config.unfinished] using under)
  | sealing job here key =>
    rw [here] at ready
    refine books.moves _ _ ⟨ready.1,ready.2.1,key,ready.2.2⟩ fun n under => .inl ?_
    simp_all [Config.unfinished]
  | unspawned job here key =>
    rw [here] at ready
    exact books.moves _ _ ⟨ready.1,ready.2.1⟩ fun n under => .inl (by simpa [here,Config.unfinished] using under)
  | seals job here =>
    rw [here] at ready
    obtain ⟨known,rest,key,whole⟩ := ready
    have point : s.write (cfg.finalPath job) (.age (s.content (cfg.tmp job)) false) =
        (s.write (cfg.finalPath job) (.age (s.content (cfg.tmp job)) false)).at s.point := rfl
    rw [point]
    refine books.writes _ _ _ _ ?_ (fun _ under _ => under) ?_
    · have other := (final_ne_tmp cfg job job).symm
      simp [Ready,State.at,State.write,here,known,rest,key,whole,Function.update_of_ne other]
    · rw [whole]
      exact .cut job known key (by simp [here,Config.unfinished])
  | sealed job here =>
    rw [here] at ready
    obtain ⟨known,rest,key,whole⟩ := ready
    refine books.writes _ _ _ _ ⟨known,rest,key⟩ ?_ ?_
    · simp [here,Config.unfinished]
    · have done : cfg.whole job.uri = .age (s.content (cfg.tmp job)) true := by rw [Config.whole,if_pos key,whole]
      rw [← done]
      exact .made job known
  | unsealed job here =>
    rw [here] at ready
    exact books.moves _ _ ⟨ready.1,ready.2.1,ready.2.2.1⟩ fun n under => .inl (by simpa [here,Config.unfinished] using under)
  | @renamed left job here noKey =>
    rw [here] at ready
    obtain ⟨known,rest,whole⟩ := ready
    refine ⟨rest,(nodup_write s _ _ books.distinct).filter _,fun n member => ?_⟩
    obtain ⟨inside,other⟩ := (mem_unlink _ _).mp member
    by_cases own : n = cfg.finalPath job
    · subst own
      have done : cfg.whole job.uri = s.content (cfg.tmp job) := by simp [Config.whole,noKey,whole]
      have here : ((((s.write (cfg.finalPath job) (s.content (cfg.tmp job))).unlink (cfg.tmp job)).at (.next left)).content
          (cfg.finalPath job)) = cfg.whole job.uri := by simp [State.at,State.unlink,done]
      rw [here]
      exact .made job known
    · refine books.kept _ (((mem_write ..).mp inside).resolve_right own) (by simp [State.at,State.unlink,own]) fun under => ?_
      rw [here] at under
      exact absurd (List.mem_singleton.mp under) other
  | unrenamed job here noKey =>
    rw [here] at ready
    exact books.moves _ _ ⟨ready.1,ready.2.1⟩ fun n under => .inl (by simpa [here,Config.unfinished] using under)
  | @removed name removes =>
    cases here : s.point with
    | failed job left | unsealed job left =>
      rw [here] at ready removes
      obtain rfl := Option.some.inj removes
      exact books.unlinks _ _ _ ready.2 (by simp [here,Config.unfinished])
    | sealed job left done =>
      rw [here] at ready removes
      obtain rfl := Option.some.inj removes
      cases done with
      | true => exact books.unlinks _ _ _ ready.2.1 (by simp [here,Config.unfinished])
      | false => exact books.unlinks _ _ _ ⟨ready.1,ready.2.1⟩ (by simp [here,Config.unfinished,Point.removed])
    | _ => simp [here,Config.removes] at removes
  | @unremoved name removes =>
    have stays : ∀ n, cfg.removes s.point = some n → Left cfg (past ++ [⟨s,.remove false,s.at s.point.removed⟩]) n :=
      fun n same => .last past _ (.inr ⟨rfl,same⟩)
    cases here : s.point with
    | failed job left | unsealed job left =>
      rw [here] at ready stays
      exact books.moves _ _ ready.2 (by simpa [here,Config.unfinished] using .inr (stays _ rfl))
    | sealed job left done =>
      rw [here] at ready stays
      cases done with
      | true => exact books.moves _ _ ready.2.1 (by simpa [here,Config.unfinished] using .inr (stays _ rfl))
      | false => exact books.moves _ _ ⟨ready.1,ready.2.1⟩ (by simpa [here,Config.unfinished,Point.removed] using .inr (stays _ rfl))
    | _ => simp [here,Config.removes] at removes
  | rotated world here =>
    have spared := rotate_sublist world cfg.retain s.entries
    refine ⟨trivial,spared.nodup books.distinct,fun n member => ?_⟩
    exact books.kept _ (spared.subset member) rfl (by simp [here,Config.unfinished])
  | woken here => exact books.moves _ _ (fun _ member => member) (by simp [here,Config.unfinished])
  | killed => exact books.moves _ _ (fun _ member => member) fun n under => .inr (.last past _ (.inl ⟨rfl,under⟩))

/-! No dump is given up before its time. -/

def finished (cfg : Config) (t : Taken State Event) : Option Name :=
  match t.event,t.pre.point with
  | .rename true,.dumped job _ | .ageExits true,.sealing job _ => some (cfg.finalPath job)
  | _,_ => none

/-- A dump that was there at the start, or was finished since. -/
def Seen (cfg : Config) (start : State) (past : History) (n : Name) : Prop :=
  isDump n = true ∧ (n ∈ start.entries ∨ ∃ t ∈ past, finished cfg t = some n)

/-- A file of this name may still be removed as the failure of the job. -/
def Config.pending (cfg : Config) : Point → Option Name
  | .dumping job _ | .dumped job _ | .failed job _ => if cfg.key then some (cfg.finalPath job) else none
  | .sealing job _ | .sealed job _ false | .unsealed job _ => some (cfg.finalPath job)
  | .sealed _ _ true | .next _ | .resting => none

def settled (cfg : Config) (s : State) : List Name :=
  s.entries.filter fun n => isDump n && cfg.pending s.point != some n

/-- A job does not start under the name of an encrypted dump that is there. -/
def fresh (cfg : Config) (t : Taken State Event) : Bool :=
  match t.event,t.pre.point with
  | .begin stamp true,.next (uri :: _) => !cfg.key || decide (cfg.finalPath ⟨uri,stamp⟩ ∉ t.pre.entries)
  | _,_ => true

theorem mem_settled (cfg : Config) (s : State) :
    n ∈ settled cfg s ↔ n ∈ s.entries ∧ isDump n = true ∧ cfg.pending s.point ≠ some n := by
  simp [settled]

/-- Only a rotation takes a dump out that is not its own failure. -/
theorem settled_grows (taken : step cfg s e = some s') (new : fresh cfg ⟨s,e,s'⟩ = true)
    (other : ∀ world, e ≠ .rotate world) : ∀ n ∈ settled cfg s, n ∈ settled cfg s' := by
  intro n member
  obtain ⟨inside,dump,apart⟩ := (mem_settled cfg s).mp member
  have notTmp : ∀ job, n ≠ cfg.tmp job := by
    rintro job rfl
    rw [not_isDump_tmp] at dump
    contradiction
  have written : ∀ name content, n ∈ (s.write name content).entries := fun name content =>
    (mem_write s name content).mpr (.inl inside)
  rw [mem_settled]
  cases step_steps cfg s s' e taken with
  | rotated world => exact absurd rfl (other world)
  | begun here =>
    refine ⟨inside,dump,fun same => ?_⟩
    simp only [State.at,Config.pending,Option.ite_none_right_eq_some,Option.some.injEq] at same
    obtain ⟨key,rfl⟩ := same
    simp [fresh,here,key,inside] at new
  | wrote job here => exact ⟨written ..,dump,apart⟩
  | seals job here => exact ⟨written ..,dump,apart⟩
  | dumped job here =>
    rw [here] at apart
    exact ⟨written _ (.archive job.uri true),dump,apart⟩
  | sealed job here =>
    exact ⟨written _ (.age (s.content (cfg.tmp job)) true),dump,by simp [Config.pending,State.at]⟩
  | renamed job here noKey =>
    exact ⟨(mem_unlink ..).mpr ⟨written ..,notTmp job⟩,dump,by simp [Config.pending,State.at]⟩
  | @removed name removes =>
    have stays : n ≠ name ∧ cfg.pending s.point.removed ≠ some n := by
      cases here : s.point with
      | failed job left =>
        rw [here] at removes
        obtain rfl := Option.some.inj removes
        exact ⟨notTmp job,by simp [Config.pending,Point.removed]⟩
      | sealed job left done =>
        rw [here] at removes apart
        obtain rfl := Option.some.inj removes
        cases done with
        | true => exact ⟨notTmp job,by simp [Config.pending,Point.removed]⟩
        | false => exact ⟨notTmp job,apart⟩
      | unsealed job left =>
        rw [here] at removes apart
        obtain rfl := Option.some.inj removes
        exact ⟨fun same => apart (congrArg some same.symm),by simp [Config.pending,Point.removed]⟩
      | _ => simp [here,Config.removes] at removes
    exact ⟨(mem_unlink ..).mpr ⟨inside,stays.1⟩,dump,stays.2⟩
  | unremoved removes =>
    refine ⟨inside,dump,?_⟩
    cases here : s.point with
    | sealed job left done =>
      rw [here] at apart
      cases done with
      | true => simp [Config.pending,Point.removed,State.at]
      | false => exact apart
    | failed | unsealed => simp [Config.pending,Point.removed,State.at]
    | _ => simp [here,Config.removes] at removes
  | undumped job here | unspawned job here key | unsealed job here | unrenamed job here noKey =>
    rw [here] at apart
    exact ⟨inside,dump,apart⟩
  | sealing job here key => exact ⟨inside,dump,by simpa [here,Config.pending,State.at,key] using apart⟩
  | skipped | woken | killed => exact ⟨inside,dump,by simp [Config.pending,State.at]⟩

/-- Every dump that was seen is still settled, or enough newer ones are. -/
def Keeps (cfg : Config) (start : State) (past : History) (s : State) : Prop :=
  ∀ n, Seen cfg start past n → Retention.Covered newer cfg.retain (settled cfg s) n

theorem newer_trans (n : Name) : ∀ m k, newer n m = true → newer m k = true → newer n k = true := by
  intro m k first second
  simp only [newer,inGroup,Bool.and_eq_true,beq_iff_eq,decide_eq_true_eq] at first second ⊢
  obtain ⟨⟨_,same⟩,later⟩ := first
  obtain ⟨⟨dump,own⟩,latest⟩ := second
  exact ⟨⟨dump,own.trans same⟩,lt_trans later latest⟩

theorem finished_settled (taken : step cfg s e = some s') (done : finished cfg ⟨s,e,s'⟩ = some n) : n ∈ settled cfg s' := by
  rw [mem_settled]
  cases step_steps cfg s s' e taken with
  | sealed job here =>
    simp only [finished,here,Option.some.injEq] at done
    subst done
    have inside := (mem_write s (cfg.finalPath job) (.age (s.content (cfg.tmp job)) true)).mpr (.inr rfl)
    exact ⟨inside,isDump_final cfg job,by simp [Config.pending,State.at]⟩
  | renamed job here noKey =>
    simp only [finished,here,Option.some.injEq] at done
    subst done
    exact ⟨(mem_unlink ..).mpr ⟨(mem_write ..).mpr (.inr rfl),final_ne_tmp cfg job job⟩,isDump_final cfg job,
      by simp [Config.pending,State.at]⟩
  | _ => simp [finished] at done

theorem Keeps.snoc (keeps : Keeps cfg start past s) (books : Books cfg start past s) (taken : step cfg s e = some s')
    (new : fresh cfg ⟨s,e,s'⟩ = true) : Keeps cfg start (past ++ [⟨s,e,s'⟩]) s' := by
  have distinct : (settled cfg s).Nodup := books.distinct.filter _
  rintro n ⟨dump,seen⟩
  by_cases done : finished cfg ⟨s,e,s'⟩ = some n
  · exact .inl (finished_settled taken done)
  have before : Seen cfg start past n := by
    refine ⟨dump,seen.imp_right ?_⟩
    rintro ⟨t,member,here⟩
    rcases List.mem_append.mp member with old | last
    · exact ⟨t,old,here⟩
    · rw [List.mem_singleton.mp last] at here
      exact absurd here done
  have covered := keeps n before
  by_cases rotates : ∃ world, e = .rotate world
  · obtain ⟨world,rfl⟩ := rotates
    cases step_steps cfg s s' _ taken with
    | rotated _ here =>
      -- nothing is pending before or after: the settled files are the dumps
      have all (m : Name) (dump : isDump m = true) : cfg.pending .resting ≠ some m := by simp [Config.pending]
      refine covered.shrink distinct (newer_trans n) fun m inside gone => ?_
      obtain ⟨was,dump,_⟩ := (mem_settled cfg s).mp inside
      have out : m ∉ DbBackup.rotate world cfg.retain s.entries := fun still =>
        gone ((mem_settled ..).mpr ⟨still,dump,all m dump⟩)
      calc cfg.retain ≤ ((DbBackup.rotate world cfg.retain s.entries).filter (newer m)).length :=
            rotate_leaves world cfg.retain s.entries books.distinct was out
        _ ≤ _ := by
          apply Retention.length_filter_mono ((rotate_sublist ..).nodup books.distinct)
          intro k still later
          have kDump : isDump k = true := by
            simp only [newer,inGroup,Bool.and_eq_true] at later
            exact later.1.1
          exact (mem_settled ..).mpr ⟨still,kDump,all k kDump⟩
  · exact covered.mono distinct (settled_grows taken new fun world same => rotates ⟨world,same⟩)

section Runs

variable {cfg : Config} {start : State} (begins : start.point = .next cfg.uris) (distinct : start.entries.Nodup)
include begins distinct

theorem run_books (run : Run (step cfg) start past s) : Books cfg start past s := by
  induction run with
  | nil =>
    refine ⟨?_,distinct,fun n inside => .kept inside⟩
    rw [Ready,begins]
    exact fun _ member => member
  | snoc _ taken ih => exact ih.snoc taken

end Runs

end Malkuth.DbBackup.Rounds
