import Malkuth.SingletonMeta

/-! Who holds the singleton lock. The metadata is written after the file is created, and the
stale-lock path removes whatever is at the path by then, so the lock keeps processes apart
only while nobody removes the file of a live one. -/
namespace Malkuth.Singleton

open Transition Text LockFile

theorem isProcessAlive_pid (cfg : Config) (s : State) (p q : Pid) (group : Bool) :
    isProcessAlive cfg s p q.val group = answersKill cfg.mayKill s.alive p q := by
  rw [isProcessAlive,dif_pos q.positive,dif_pos q.small]

/-- What `acquire` relies on: the metadata of a live process that it may signal tells it that
another instance is running. -/
theorem written_refuses (cfg : Config) (s : State) (p q : Pid) (createdAt : SystemTime) (path dir : List Char)
    (named : ∃ c ∈ dir, isWhitespace c = false) (alive : s.alive q = true) (may : cfg.mayKill p q = true)
    (group : Bool) :
    ∃ old, readMeta (LockMeta.serialize ⟨q.val,createdAt,cfg.build,path,dir⟩) = .ok old ∧
      isProcessAlive cfg s p old.pid group = true ∧ old.buildMtime = cfg.build := by
  have small := q.small
  obtain ⟨path',dir',read⟩ := deserialize_serialize ⟨q.val,createdAt,cfg.build,path,dir⟩ (by simp only; omega) named
  refine ⟨⟨q.val,createdAt,cfg.build,path',dir'⟩,?_,?_,rfl⟩
  · rw [readMeta,read]
    rfl
  · rw [isProcessAlive_pid,answersKill,alive,may]
    rfl

/-- The process has created the lock file and is writing it, or was given the guard. -/
def Point.claims : Point → Bool
  | .writing _ | .held => true
  | _ => false

/-- Returned `Ok`, alive, and its guard not dropped. -/
def Holds (s : State) (p : Pid) : Prop := s.alive p = true ∧ s.point p = .held

/-- The step does not remove the lock file of a live process that is writing it or holds the
guard. -/
def Careful (s : State) : Event → Prop
  | .remove _ io => io = true → Unclaimed Point.claims s
  | _ => True

instance (s : State) (e : Event) : Decidable (Careful s e) :=
  match e with
  | .remove _ io => inferInstanceAs (Decidable (io = true → Unclaimed Point.claims s))
  | .begin _ | .create _ _ | .write _ _ _ _ _ | .read _ _ | .check _ _ | .compare _ | .kill _ | .drop _ _
  | .die _ | .born _ => .isTrue trivial

theorem isAt_iff (s : State) (p : Pid) (a : Point) : isAt s p a = true ↔ s.alive p = true ∧ s.point p = a := by
  simp [isAt]

theorem initial_sole (text : Option (List Char)) (alive : Pid → Bool) : Sole Point.claims (initial text alive) := by
  rintro p ⟨_,claimed⟩
  simp [initial,Point.claims] at claimed

theorem openNew_sole (s : State) (p : Pid) (io : Bool) (sole : Sole Point.claims s) :
    Sole Point.claims (openNew s p io) := by
  cases io with
  | false => exact sole.move p .ioError (by simp [Point.claims])
  | true =>
    cases file : s.file with
    | none => simpa [openNew,file] using sole.create file p [] (.writing s.fresh)
    | some f => simpa [openNew,file] using sole.move p .reading (by simp [Point.claims])

theorem step_sole (cfg : Config) (s : State) (e : Event) (s' : State) (sole : Sole Point.claims s)
    (careful : Careful s e) (taken : step cfg s e = some s') : Sole Point.claims s' := by
  cases e with
  | begin p =>
    obtain ⟨_,rfl⟩ := Option.ite_some_none_eq_some.mp taken
    exact sole.move p .creating (by simp [Point.claims])
  | create p io =>
    obtain ⟨_,rfl⟩ := Option.ite_some_none_eq_some.mp taken
    exact openNew_sole s p io sole
  | write p createdAt path dir written =>
    simp only [step] at taken
    split at taken
    next inode alive point =>
      obtain rfl := Option.some.inj taken
      refine (sole.write inode _).move p _ fun _ => ?_
      simp [Race.write,point,Point.claims]
    · contradiction
  | read p io =>
    obtain ⟨_,rfl⟩ := Option.ite_some_none_eq_some.mp taken
    split
    · exact sole.move p _ (by simp [Point.claims])
    · exact sole.die p
  | check p group =>
    simp only [step] at taken
    split at taken
    · obtain rfl := Option.some.inj taken
      refine sole.move p _ ?_
      split <;> simp [Point.claims]
    · contradiction
  | compare p =>
    simp only [step] at taken
    split at taken
    · obtain rfl := Option.some.inj taken
      refine sole.move p _ ?_
      split <;> simp [Point.claims]
    · contradiction
  | kill p =>
    obtain ⟨_,rfl⟩ := Option.ite_some_none_eq_some.mp taken
    exact sole.move p .removing (by simp [Point.claims])
  | remove p io =>
    obtain ⟨_,rfl⟩ := Option.ite_some_none_eq_some.mp taken
    cases io with
    | true => exact (sole.remove (careful rfl)).move p .creating (by simp [Point.claims])
    | false => exact sole.move p .creating (by simp [Point.claims])
  | drop p io =>
    obtain ⟨here,rfl⟩ := Option.ite_some_none_eq_some.mp taken
    obtain ⟨alive,point⟩ := (isAt_iff s p .held).mp here
    cases io with
    | true => exact sole.discard ⟨alive,by simp [point,Point.claims]⟩ .outside rfl
    | false => exact sole.move p .outside (by simp [Point.claims])
  | die p =>
    obtain rfl := Option.some.inj taken
    exact sole.die p
  | born p =>
    obtain ⟨_,same⟩ := Option.ite_none_left_eq_some.mp taken
    obtain rfl := Option.some.inj same
    exact sole.born p .outside rfl

/-- In every run in which no lock file of a live process is removed by another, at most one
live process holds its guard. -/
theorem at_most_one_instance (cfg : Config) (text : Option (List Char)) (alive : Pid → Bool)
    (past : List (Taken State Event)) (s : State) (run : Run (step cfg) (initial text alive) past s)
    (careful : ∀ t ∈ past, Careful t.pre t.event) (p q : Pid) (first : Holds s p) (second : Holds s q) : p = q := by
  have sole := run.invariant (initial_sole text alive) (step_sole cfg) careful
  have claims (r : Pid) (holds : Holds s r) : Race.Claims Point.claims s r :=
    ⟨holds.1,by rw [holds.2]; rfl⟩
  exact sole.unique (claims p first) (claims q second)

def nine : Pid := ⟨9,by decide,by decide⟩

def config : Config := ⟨built,fun _ _ => true⟩

def starts (p : Pid) : List Event :=
  [.create p true,.write p .unixEpoch ['m'] ['/'] 100]

def clears (p : Pid) : List Event :=
  [.create p true,.read p true,.check p false,.remove p true] ++ starts p

def inTurn : List Event :=
  [.begin seven] ++ starts seven ++ [.begin eight,.create eight true,.read eight true,.check eight false,
    .compare eight,.die seven,.begin nine] ++ clears nine

theorem at_most_one_instance_in_turn : ∃ past s, Run (step config) (initial none fun _ => true) past s ∧
    (∀ t ∈ past, Careful t.pre t.event) ∧ s.point eight = .alreadyRunning 7 ∧ Holds s nine ∧
    ∀ p, Holds s p → p = nine := by
  obtain ⟨past,s,run,careful,refused,held⟩ := exists_run (step config) (initial none fun _ => true) inTurn
    (fun past s => (∀ t ∈ past, Careful t.pre t.event) ∧ s.point eight = .alreadyRunning 7 ∧
      s.alive nine = true ∧ s.point nine = .held) (by decide +kernel)
  exact ⟨past,s,run,careful,refused,held,fun p holds =>
    at_most_one_instance config none (fun _ => true) past s run careful p nine holds held⟩

/-- The second starter finds the file that the first has just created, still empty, takes it
for a stale one and removes it; both get their guards. -/
def race : List Event :=
  [.begin seven,.begin eight,.create seven true] ++ clears eight ++
    [.write seven .unixEpoch ['m'] ['/'] 100]

theorem two_instances : ¬ ∀ cfg text alive past s, Run (step cfg) (initial text alive) past s →
    ∀ p q, Holds s p → Holds s q → p = q := by
  intro unique
  obtain ⟨past,s,run,first,second⟩ := exists_run (step config) (initial none fun _ => true) race
    (fun _ s => (s.alive seven = true ∧ s.point seven = .held) ∧ s.alive eight = true ∧ s.point eight = .held)
    (by decide +kernel)
  exact absurd (unique config none (fun _ => true) past s run seven eight first second) (by decide)

end Malkuth.Singleton
