import Malkuth.LockFile
import Malkuth.Process
import Malkuth.Text
import Malkuth.Transition

/-! The pid file of `malkuth daemon` on unix: `acquire_daemon_lock` and `release_daemon_lock`,
a file-system call at a time, for any number of processes on one pid file. When the exclusive
create fails, a plain `File::create` follows it, which empties the file that is there. -/
namespace Malkuth.DaemonLock

open Transition Text LockFile

inductive Point where
  /-- Not in `acquire_daemon_lock`. -/
  | outside
  | reading
  | checking (oldPid : Int)
  | removing
  | creating
  /-- `or_else(|_| fs::File::create(pid_file))`. -/
  | creatingOver
  | writing (inode : Nat)
  /-- `Ok(())`: the daemon runs. -/
  | running
  | alreadyRunning (oldPid : Int)
  | cannotCreate
  | cannotWrite
  deriving DecidableEq

/-- The returned `Err`, up to the text of the I/O error. -/
def Point.error (pidFile : String) : Point → Option String
  | .alreadyRunning oldPid =>
    some ("daemon already running (pid=" ++ toString oldPid ++ "), pid_file=" ++ pidFile)
  | .cannotCreate => some ("cannot create pid file " ++ pidFile)
  | .cannotWrite => some "cannot write pid file"
  | _ => none

abbrev State := Race Pid (List Char) Point

inductive Event where
  | begin (p : Pid)
  | read (p : Pid) (io : Bool)
  | check (p : Pid)
  | remove (p : Pid) (io : Bool)
  /-- The open with `create_new`; it may fail although there is no file. -/
  | create (p : Pid) (io : Bool)
  | createOver (p : Pid) (io : Bool)
  /-- `write!` gets so many characters out. -/
  | write (p : Pid) (written : Nat)
  /-- `release_daemon_lock`, when the daemon's loop has ended. -/
  | release (p : Pid) (io : Bool)
  | die (p : Pid)
  | born (p : Pid)

def isAt (s : State) (p : Pid) (a : Point) : Bool := s.alive p && decide (s.point p = a)

def oldPid (contents : List Char) : Int := (parseI32 (trimList contents)).getD 0

def afterRead (contents : Option (List Char)) : Point :=
  match contents with
  | some text => if 0 < oldPid text then .checking (oldPid text) else .creating
  | none => .creating

/-- `kill(old_pid, 0) == 0`. -/
def answers (mayKill : Pid → Pid → Bool) (s : State) (p : Pid) (old : Int) : Bool :=
  if positive : 0 < old.toNat then
    if small : old.toNat < 2^31 then answersKill mayKill s.alive p ⟨old.toNat,positive,small⟩ else false
  else false

def openNew (s : State) (p : Pid) (io : Bool) : State :=
  match s.file, io with
  | none, true => (Race.create s p []).move p (.writing s.fresh)
  | _, _ => s.move p .creatingOver

def openOver (s : State) (p : Pid) (io : Bool) : State :=
  match s.file, io with
  | none, true => (Race.create s p []).move p (.writing s.fresh)
  | some f, true => (Race.truncate s p []).move p (.writing f.inode)
  | _, false => s.move p .cannotCreate

/-- A write at the start of the file; a short one is an error. -/
def writePid (s : State) (p : Pid) (inode written : Nat) : State :=
  let text := display p.val
  (Race.write s inode fun content => text.take written ++ content.drop (text.take written).length).move p
    (if text.length ≤ written then .running else .cannotWrite)

def removeFile (s : State) (io : Bool) : State := if io then Race.remove s else s

def step (mayKill : Pid → Pid → Bool) (s : State) : Event → Option State
  | .begin p => if isAt s p .outside then some (s.move p .reading) else none
  | .read p io =>
    if isAt s p .reading then
      some (s.move p (afterRead (if io then s.file.map File.content else none)))
    else none
  | .check p =>
    match s.alive p, s.point p with
    | true, .checking old => some (s.move p (if answers mayKill s p old then .alreadyRunning old else .removing))
    | _, _ => none
  | .remove p io => if isAt s p .removing then some ((removeFile s io).move p .creating) else none
  | .create p io => if isAt s p .creating then some (openNew s p io) else none
  | .createOver p io => if isAt s p .creatingOver then some (openOver s p io) else none
  | .write p written =>
    match s.alive p, s.point p with
    | true, .writing inode => some (writePid s p inode written)
    | _, _ => none
  | .release p io => if isAt s p .running then some ((removeFile s io).move p .outside) else none
  | .die p => some (s.die p)
  | .born p => if s.alive p then none else some (s.born p .outside)

/-- The pid file is absent or has any text: empty, a stale pid, a live one. -/
def initial (text : Option (List Char)) (alive : Pid → Bool) : State :=
  ⟨text.map fun t => ⟨0,none,t⟩,1,alive,fun _ => .outside⟩

theorem answers_pid (mayKill : Pid → Pid → Bool) (s : State) (p q : Pid) :
    answers mayKill s p q.val = answersKill mayKill s.alive p q := by
  have same : (q.val : Int).toNat = q.val := Int.toNat_natCast q.val
  simp only [answers,same]
  rw [dif_pos q.positive,dif_pos q.small]

/-- What the check relies on: the pid that a live daemon wrote is read back, and the start is
refused if the daemon may be signalled. -/
theorem written_refuses (mayKill : Pid → Pid → Bool) (s : State) (p q : Pid) (alive : s.alive q = true)
    (may : mayKill p q = true) :
    afterRead (some (display q.val)) = .checking q.val ∧ answers mayKill s p q.val = true := by
  have whole : trimList (display q.val) = display q.val := by
    have solid : ∀ d ∈ display q.val, isWhitespace d = false := fun d member =>
      isWhitespace_digit (isDigit_of_mem_display member)
    have keeps (text : List Char) (solid : ∀ d ∈ text, isWhitespace d = false) :
        text.dropWhile isWhitespace = text := by
      cases text with
      | nil => rfl
      | cons d text => simp [solid d (by simp)]
    rw [trimList,keeps _ solid,keeps _ fun d member => solid d (List.mem_reverse.mp member),List.reverse_reverse]
  have read : oldPid (display q.val) = q.val := by
    rw [oldPid,whole,parseI32_display q.small]
    rfl
  have positive : (0 : Int) < q.val := by exact_mod_cast q.positive
  refine ⟨by rw [afterRead,read,if_pos positive],?_⟩
  rw [answers_pid,answersKill,alive,may]
  rfl

/-- The process has opened the pid file to write it, or was returned `Ok`. -/
def Point.claims : Point → Bool
  | .writing _ | .running => true
  | _ => false

def Holds (s : State) (p : Pid) : Prop := s.alive p = true ∧ s.point p = .running

/-- The step does not remove or empty the pid file of a live process that is writing it or was
returned `Ok`. -/
def Careful (s : State) : Event → Prop
  | .remove _ io | .createOver _ io => io = true → Unclaimed Point.claims s
  | _ => True

instance (s : State) (e : Event) : Decidable (Careful s e) :=
  match e with
  | .remove _ io | .createOver _ io => inferInstanceAs (Decidable (io = true → Unclaimed Point.claims s))
  | .begin _ | .read _ _ | .check _ | .create _ _ | .write _ _ | .release _ _ | .die _ | .born _ => .isTrue trivial

theorem initial_sole (text : Option (List Char)) (alive : Pid → Bool) : Sole Point.claims (initial text alive) := by
  rintro p ⟨_,claimed⟩
  simp [initial,Point.claims] at claimed

theorem openNew_sole (s : State) (p : Pid) (io : Bool) (sole : Sole Point.claims s) :
    Sole Point.claims (openNew s p io) := by
  unfold openNew
  split
  next absent => exact sole.create absent p [] (.writing s.fresh)
  · exact sole.move p .creatingOver (by simp [Point.claims])

theorem openOver_sole (s : State) (p : Pid) (io : Bool) (sole : Sole Point.claims s)
    (unclaimed : io = true → Unclaimed Point.claims s) : Sole Point.claims (openOver s p io) := by
  unfold openOver
  split
  next absent => exact sole.create absent p [] (.writing s.fresh)
  next f present => exact sole.truncate (unclaimed rfl) present p [] (.writing f.inode)
  · exact sole.move p .cannotCreate (by simp [Point.claims])

theorem step_sole (mayKill : Pid → Pid → Bool) (s : State) (e : Event) (s' : State) (sole : Sole Point.claims s)
    (careful : Careful s e) (taken : step mayKill s e = some s') : Sole Point.claims s' := by
  cases e with
  | begin p =>
    obtain ⟨_,rfl⟩ := Option.ite_some_none_eq_some.mp taken
    exact sole.move p .reading (by simp [Point.claims])
  | read p io =>
    obtain ⟨_,rfl⟩ := Option.ite_some_none_eq_some.mp taken
    refine sole.move p _ ?_
    unfold afterRead
    split
    · split <;> simp [Point.claims]
    · simp [Point.claims]
  | check p =>
    simp only [step] at taken
    split at taken
    · obtain rfl := Option.some.inj taken
      refine sole.move p _ ?_
      split <;> simp [Point.claims]
    · contradiction
  | remove p io =>
    obtain ⟨_,rfl⟩ := Option.ite_some_none_eq_some.mp taken
    cases io with
    | true => exact (sole.remove (careful rfl)).move p .creating (by simp [Point.claims])
    | false => exact sole.move p .creating (by simp [Point.claims])
  | create p io =>
    obtain ⟨_,rfl⟩ := Option.ite_some_none_eq_some.mp taken
    exact openNew_sole s p io sole
  | createOver p io =>
    obtain ⟨_,rfl⟩ := Option.ite_some_none_eq_some.mp taken
    exact openOver_sole s p io sole careful
  | write p written =>
    simp only [step] at taken
    split at taken
    next inode alive point =>
      obtain rfl := Option.some.inj taken
      refine (sole.write inode _).move p _ fun _ => ?_
      simp [Race.write,point,Point.claims]
    · contradiction
  | release p io =>
    obtain ⟨here,rfl⟩ := Option.ite_some_none_eq_some.mp taken
    obtain ⟨alive,point⟩ : s.alive p = true ∧ s.point p = .running := by simpa [isAt] using here
    cases io with
    | true => exact sole.discard ⟨alive,by simp [point,Point.claims]⟩ .outside rfl
    | false => exact sole.move p .outside (by simp [Point.claims])
  | die p =>
    obtain rfl := Option.some.inj taken
    exact sole.die p
  | born p =>
    obtain ⟨_,same⟩ := Option.ite_none_left_eq_some.mp taken
    obtain rfl := Option.some.inj same
    exact sole.born p .outside rfl

/-- In every run in which nobody removes or empties the pid file of a live daemon, at most one
live process runs as the daemon. -/
theorem at_most_one_daemon (mayKill : Pid → Pid → Bool) (text : Option (List Char)) (alive : Pid → Bool)
    (past : List (Taken State Event)) (s : State) (run : Run (step mayKill) (initial text alive) past s)
    (careful : ∀ t ∈ past, Careful t.pre t.event) (p q : Pid) (first : Holds s p) (second : Holds s q) : p = q := by
  have sole := run.invariant (initial_sole text alive) (step_sole mayKill) careful
  have claims (r : Pid) (holds : Holds s r) : Race.Claims Point.claims s r :=
    ⟨holds.1,by rw [holds.2]; rfl⟩
  exact sole.unique (claims p first) (claims q second)

def stale : Pid := ⟨42,by decide,by decide⟩

/-- The pid file names a dead process: it is replaced, and a second start is refused. -/
theorem at_most_one_daemon_stale : ∃ past s,
    Run (step fun _ _ => true) (initial (some ['4','2','\n']) fun p => decide (p ≠ stale)) past s ∧
    (∀ t ∈ past, Careful t.pre t.event) ∧ s.point eight = .alreadyRunning 7 ∧ Holds s seven ∧
    ∀ p, Holds s p → p = seven := by
  obtain ⟨past,s,run,careful,refused,held⟩ := exists_run (step fun _ _ => true)
    (initial (some ['4','2','\n']) fun p => decide (p ≠ stale))
    [.begin seven,.read seven true,.check seven,.remove seven true,.create seven true,.write seven 9,
      .begin eight,.read eight true,.check eight]
    (fun past s => (∀ t ∈ past, Careful t.pre t.event) ∧ s.point eight = .alreadyRunning 7 ∧
      s.alive seven = true ∧ s.point seven = .running) (by decide +kernel)
  exact ⟨past,s,run,careful,refused,held,fun p holds =>
    at_most_one_daemon _ _ _ past s run careful p seven holds held⟩

/-- Both find no pid file; the exclusive create of the second fails, and the plain one that
follows empties the file of the first. -/
theorem two_daemons : ¬ ∀ mayKill text alive past s, Run (step mayKill) (initial text alive) past s →
    ∀ p q, Holds s p → Holds s q → p = q := by
  intro unique
  obtain ⟨past,s,run,first,second⟩ := exists_run (step fun _ _ => true) (initial none fun _ => true)
    [.begin seven,.begin eight,.read seven true,.read eight true,.create seven true,.write seven 9,
      .create eight true,.createOver eight true,.write eight 9]
    (fun _ s => (s.alive seven = true ∧ s.point seven = .running) ∧ s.alive eight = true ∧ s.point eight = .running)
    (by decide +kernel)
  exact absurd (unique _ none (fun _ => true) past s run seven eight first second) (by decide)

end Malkuth.DaemonLock
