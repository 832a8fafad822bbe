import Malkuth.SingletonExclusion
import Malkuth.Utf8

/-! Whether `acquire` of `bin/malkuth/singleton.rs` comes back. It calls itself after every
removal of the lock file, whatever came of that. -/
namespace Malkuth.Singleton

open Text Transition LockFile

/-- What `kill(pid, SIGTERM)` comes to. -/
inductive Signalled where
  | sent
  /-- `ESRCH`. -/
  | noSuchProcess
  | failed (errno : Nat)
  deriving DecidableEq

/-- The looks at a process that was told to end, with a sleep after each: how often it slept, and
whether it sends `SIGKILL` in the end. -/
def awaitEnd (alive : Nat → Bool) : (looks slept : Nat) → Nat × Bool
  | 0, slept => (slept,true)
  | looks + 1, slept => if alive slept then awaitEnd alive looks (slept + 1) else (slept,false)

def killProcess (term : Signalled) (alive : Nat → Bool) : Except Nat Unit × Nat :=
  match term with
  | .failed errno => (.error errno,0)
  | .noSuchProcess => (.ok (),0)
  | .sent => (.ok (),(awaitEnd alive 20 0).1)

theorem awaitEnd_slept (alive : Nat → Bool) (looks slept : Nat) : (awaitEnd alive looks slept).1 ≤ slept + looks := by
  induction looks generalizing slept with
  | zero => simp [awaitEnd]
  | succ looks ih =>
    rw [awaitEnd]
    split
    · have later := ih (slept + 1)
      omega
    · exact Nat.le_add_right ..

/-- It comes back after two seconds at most. -/
theorem killProcess_slept (term : Signalled) (alive : Nat → Bool) : (killProcess term alive).2 ≤ 20 := by
  cases term with
  | sent => exact (awaitEnd_slept alive 20 0).trans (by decide)
  | noSuchProcess => exact Nat.zero_le _
  | failed errno => exact Nat.zero_le _

structure Attempt where
  build : SystemTime
  /-- `open` meets no other error than the file being there. -/
  opened : Bool
  /-- `write_all` succeeds. -/
  written : Bool
  /-- `kill(pid, 0) == 0`. -/
  alive : Bool
  term : Signalled
  /-- The answers to `kill_process`. -/
  looks : Nat → Bool
  /-- `remove_file` succeeds. -/
  removed : Bool

inductive Outcome where
  | guard
  | alreadyRunning (pid : Nat)
  | ioError
  | panicked
  deriving DecidableEq

inductive Next where
  | done (out : Outcome)
  | again (file : Option (List UInt8))
  deriving DecidableEq

/-- `read_to_string` into an empty buffer: bytes that are not UTF-8 leave it empty. -/
def textOf (bytes : List UInt8) : List Char := (Utf8.fromUtf8 bytes).getD []

def isAlive (pid : Nat) (answer : Bool) : Bool := if pid = 0 then false else answer

def afterRemove (removed : Bool) (file : Option (List UInt8)) : Option (List UInt8) := if removed then none else file

def attempt (file : Option (List UInt8)) (a : Attempt) : Next :=
  if a.opened then
    match file with
    | none => .done (if a.written then .guard else .ioError)
    | some bytes =>
      match readMeta (textOf bytes) with
      | .error _ => .done .panicked
      | .ok old =>
        if isAlive old.pid a.alive then
          if a.build = old.buildMtime then .done (.alreadyRunning old.pid)
          else
            -- what came of it is dropped
            let _killed := killProcess a.term a.looks
            .again (afterRemove a.removed file)
        else .again (afterRemove a.removed file)
  else .done .ioError

/-- `acquire`; `none` if so many calls of itself are not enough. -/
def acquire (env : Nat → Attempt) : (calls : Nat) → (file : Option (List UInt8)) → (i : Nat) → Option Outcome
  | 0, _, _ => none
  | calls + 1, file, i =>
    match attempt file (env i) with
    | .done out => some out
    | .again file' => acquire env calls file' (i + 1)

/-- `acquire` returns `Ok` or `Err`. -/
def Returns (env : Nat → Attempt) (file : Option (List UInt8)) (i : Nat) : Prop :=
  ∃ calls out, acquire env calls file i = some out ∧ out ≠ .panicked

def TimeOverflows (s : List Char) : Prop :=
  ∃ secs nsecs a n, splitOnce '.' s = some (secs,nsecs) ∧ parseUnsigned (2^64) secs = some a ∧
    parseUnsigned (2^32) nsecs = some n ∧ 2^64 ≤ a + n / 1000000000

def Overflows (text : List Char) : Prop :=
  ∃ pid created build path dir more, lines (trimList text) = pid :: created :: build :: path :: dir :: more ∧
    (parseUnsigned (2^32) pid).isSome = true ∧
    (TimeOverflows created ∨ (∃ t, parseTime created = .ok (some t)) ∧ TimeOverflows build)

def Names (text : List Char) (build : SystemTime) : Prop :=
  ∃ old, readMeta text = .ok old ∧ old.pid ≠ 0 ∧ old.buildMtime = build

theorem parseTime_error_iff (s : List Char) : (∃ p, parseTime s = .error p) ↔ TimeOverflows s := by
  constructor
  · rintro ⟨p,failed⟩
    unfold parseTime at failed
    split at failed
    · cases failed
    next secs nsecs cut =>
      split at failed
      next a n seconds nanos =>
        split at failed
        · split at failed <;> cases failed
        next long => exact ⟨secs,nsecs,a,n,cut,seconds,nanos,Nat.le_of_not_lt long⟩
      · cases failed
  · rintro ⟨secs,nsecs,a,n,cut,seconds,nanos,long⟩
    refine ⟨.duration,?_⟩
    simp only [parseTime,cut,seconds,nanos,if_neg (Nat.not_lt.mpr long)]

theorem deserialize_error_iff (text : List Char) : (∃ p, LockMeta.deserialize text = .error p) ↔ Overflows text := by
  constructor
  · rintro ⟨p,failed⟩
    unfold LockMeta.deserialize at failed
    split at failed
    next pid created build path dir more shown =>
      split at failed
      · cases failed
      next pid' parsed =>
        refine ⟨pid,created,build,path,dir,more,shown,Option.isSome_of_eq_some parsed,?_⟩
        cases first : parseTime created with
        | error p => exact .inl ((parseTime_error_iff _).mp ⟨p,first⟩)
        | ok created' =>
          rw [first] at failed
          cases created' with
          | none => cases failed
          | some t =>
            refine .inr ⟨⟨t,rfl⟩,?_⟩
            cases second : parseTime build with
            | error p => exact (parseTime_error_iff _).mp ⟨p,second⟩
            | ok build' =>
              rw [second] at failed
              cases build' <;> cases failed
    · cases failed
  · rintro ⟨pid,created,build,path,dir,more,shown,parsed,times⟩
    obtain ⟨pid',parsed⟩ := Option.isSome_iff_exists.mp parsed
    rcases times with first | ⟨⟨t,first⟩,second⟩
    · obtain ⟨p,failed⟩ := (parseTime_error_iff _).mpr first
      refine ⟨p,?_⟩
      simp only [LockMeta.deserialize,shown,parsed,failed]
      rfl
    · obtain ⟨p,failed⟩ := (parseTime_error_iff _).mpr second
      refine ⟨p,?_⟩
      simp only [LockMeta.deserialize,shown,parsed,first,failed]
      rfl

theorem readMeta_error_iff (text : List Char) : (∃ p, readMeta text = .error p) ↔ Overflows text := by
  rw [← deserialize_error_iff,readMeta]
  cases LockMeta.deserialize text with
  | error p => simp [Except.map]
  | ok read => simp [Except.map]

theorem readMeta_ok (text : List Char) (fits : ¬ Overflows text) : ∃ old, readMeta text = .ok old := by
  cases read : readMeta text with
  | error p => exact absurd ((readMeta_error_iff text).mp ⟨p,read⟩) fits
  | ok old => exact ⟨old,rfl⟩

/-! One call on a file that is there. -/
section Call

variable {a : Attempt} {bytes : List UInt8}

theorem attempt_closed (file : Option (List UInt8)) (closed : a.opened = false) : attempt file a = .done .ioError := by
  simp [attempt,closed]

theorem attempt_absent (a : Attempt) : ∃ out, attempt none a = .done out ∧ out ≠ .panicked := by
  cases opened : a.opened with
  | false => exact ⟨_,attempt_closed none opened,by decide⟩
  | true =>
    refine ⟨if a.written then .guard else .ioError,by simp [attempt,opened],?_⟩
    split <;> decide

theorem attempt_overflows (opened : a.opened = true) (overflows : Overflows (textOf bytes)) :
    attempt (some bytes) a = .done .panicked := by
  obtain ⟨p,failed⟩ := (readMeta_error_iff _).mpr overflows
  simp [attempt,opened,failed]

def Refused (bytes : List UInt8) (a : Attempt) : Prop := a.alive = true ∧ Names (textOf bytes) a.build

theorem attempt_refused (opened : a.opened = true) (refused : Refused bytes a) :
    ∃ pid, attempt (some bytes) a = .done (.alreadyRunning pid) := by
  obtain ⟨alive,old,read,named,same⟩ := refused
  exact ⟨old.pid,by simp [attempt,opened,read,isAlive,named,alive,same]⟩

theorem attempt_again (opened : a.opened = true) (fits : ¬ Overflows (textOf bytes)) (free : ¬ Refused bytes a) :
    attempt (some bytes) a = .again (afterRemove a.removed (some bytes)) := by
  obtain ⟨old,read⟩ := readMeta_ok _ fits
  simp only [attempt,opened,if_true,read]
  split
  next answers =>
    rw [if_neg]
    intro same
    apply free
    have named : old.pid ≠ 0 := by
      intro zero
      simp [isAlive,zero] at answers
    refine ⟨?_,old,read,named,same.symm⟩
    simpa [isAlive,named] using answers
  · rfl

end Call

section Ends

variable {env : Nat → Attempt}

theorem returns_done (done : attempt file (env i) = .done out) (sane : out ≠ .panicked) : Returns env file i :=
  ⟨1,out,by simp [acquire,done],sane⟩

theorem returns_again (again : attempt file (env i) = .again file') (rest : Returns env file' (i + 1)) : Returns env file i := by
  obtain ⟨calls,out,ended,sane⟩ := rest
  exact ⟨calls + 1,out,by simp [acquire,again,ended],sane⟩

theorem returns_absent (env : Nat → Attempt) (i : Nat) : Returns env none i := by
  obtain ⟨out,done,sane⟩ := attempt_absent (env i)
  exact returns_done done sane

/-- The call meets an error, or the file is taken away, or its process is there to refuse. -/
def Ends (bytes : List UInt8) (a : Attempt) : Prop := a.opened = false ∨ a.removed = true ∨ Refused bytes a

/-- A call that ends the recursion, some calls later. -/
theorem returns_of_ends (fits : ¬ Overflows (textOf bytes)) (j : Nat) (i : Nat) (ends : Ends bytes (env (i + j))) :
    Returns env (some bytes) i := by
  induction j generalizing i with
  | zero =>
    rcases Bool.eq_false_or_eq_true (env i).opened with opened | closed
    · by_cases refused : Refused bytes (env i)
      · obtain ⟨pid,done⟩ := attempt_refused opened refused
        exact returns_done done (by simp)
      · have removed : (env i).removed = true := by
          rcases ends with closed | removed | refused'
          · exact absurd (opened.symm.trans closed) (by decide)
          · exact removed
          · exact absurd refused' refused
        have again := attempt_again opened fits refused
        rw [removed] at again
        exact returns_again again (returns_absent env (i + 1))
    · exact returns_done (attempt_closed _ closed) (by decide)
  | succ j ih =>
    rcases Bool.eq_false_or_eq_true (env i).opened with opened | closed
    · by_cases refused : Refused bytes (env i)
      · obtain ⟨pid,done⟩ := attempt_refused opened refused
        exact returns_done done (by simp)
      · refine returns_again (attempt_again opened fits refused) ?_
        cases (env i).removed with
        | true => exact returns_absent env (i + 1)
        | false =>
          have later : Ends bytes (env (i + 1 + j)) := by rwa [show i + 1 + j = i + (j + 1) by omega]
          exact ih (i + 1) later
    · exact returns_done (attempt_closed _ closed) (by decide)

/-- A file that stays is read for ever. -/
theorem acquire_none (fits : ¬ Overflows (textOf bytes)) (stays : ∀ i, ¬ Ends bytes (env i)) (calls i : Nat) :
    acquire env calls (some bytes) i = none := by
  induction calls generalizing i with
  | zero => rfl
  | succ calls ih =>
    obtain ⟨opened,kept⟩ := not_or.mp (stays i)
    obtain ⟨kept,free⟩ := not_or.mp kept
    rw [acquire,attempt_again (by simpa using opened) fits free,Bool.eq_false_iff.mpr kept]
    exact ih (i + 1)

/-- `acquire` returns if and only if there is no lock file, or the first `open` fails, or the
times in the file do not overflow and some call fails to open, or removes the file, or is refused. -/
theorem acquire_returns_iff (env : Nat → Attempt) (file : Option (List UInt8)) : Returns env file 0 ↔
    (env 0).opened = false ∨ ∀ bytes, file = some bytes → ¬ Overflows (textOf bytes) ∧ ∃ i, Ends bytes (env i) := by
  constructor
  · rintro ⟨calls,out,ended,sane⟩
    refine or_iff_not_imp_left.mpr ?_
    rintro opened bytes rfl
    have opened : (env 0).opened = true := by simpa using opened
    have fits : ¬ Overflows (textOf bytes) := by
      intro overflows
      cases calls with
      | zero => cases ended
      | succ calls =>
        rw [acquire,attempt_overflows opened overflows] at ended
        exact sane (Option.some.inj ended).symm
    refine ⟨fits,?_⟩
    by_contra never
    push Not at never
    rw [acquire_none fits never calls 0] at ended
    cases ended
  · rintro (closed | file_)
    · exact returns_done (attempt_closed _ closed) (by decide)
    · cases file with
      | none => exact returns_absent env 0
      | some bytes =>
        obtain ⟨fits,i,ends⟩ := file_ bytes rfl
        exact returns_of_ends fits i 0 (by rwa [Nat.zero_add])

/-- The lock file is empty and cannot be removed. -/
theorem acquire_endless : ¬ ∀ env file, Returns env file 0 := by
  intro returns
  obtain ⟨calls,out,ended,_⟩ := returns (fun _ => ⟨.unixEpoch,true,true,false,.sent,fun _ => false,false⟩) (some [])
  have fits : ¬ Overflows (textOf []) := by
    rintro ⟨_,_,_,_,_,_,shown,_⟩
    cases shown
  rw [acquire_none fits (by rintro _ (no | no | ⟨no,_⟩) <;> cases no) calls 0] at ended
  cases ended

end Ends

/-! A call of `acquire` as the steps of a process among others. -/
section Steps

def Outcome.Shows (s : State) (p : Pid) : Outcome → Prop
  | .guard => s.point p = .held
  | .alreadyRunning pid => s.point p = .alreadyRunning pid
  | .ioError => s.point p = .ioError
  | .panicked => s.alive p = false

/-- Where the process is, and the text that it would read in the lock file. -/
structure Stands (s : State) (p : Pid) (a : Point) (text : Option (List Char)) : Prop where
  alive : s.alive p = true
  point : s.point p = a
  file : s.file.map File.content = text

def Next.Shows (s : State) (p : Pid) : Next → Prop
  | .done out => out.Shows s p
  | .again file => Stands s p .creating (file.map textOf)

variable {cfg : Config} {s : State} {p : Pid}

theorem Stands.isAt (stands : Stands s p a text) : isAt s p a = true := (isAt_iff s p a).mpr ⟨stands.alive,stands.point⟩

theorem Stands.move (stands : Stands s p a text) (b : Point) : Stands (s.move p b) p b text :=
  ⟨stands.alive,by simp [Race.move],stands.file⟩

/-- `write_all` on a file that the process has just created. -/
theorem create_run (a : Attempt) (opened : a.opened = true) (stands : Stands s p .creating none) :
    ∃ past s', Run (step cfg) s past s' ∧ (attempt none a).Shows s' p := by
  have absent : s.file = none := Option.map_eq_none_iff.mp stands.file
  have created : step cfg s (.create p true) = some ((Race.create s p []).move p (.writing s.fresh)) := by
    simp [step,stands.isAt,openNew,absent]
  let text := LockMeta.serialize ⟨p.val,.unixEpoch,cfg.build,[],[]⟩
  have some_ : 0 < text.length := by
    simp only [text,LockMeta.serialize,List.length_append,List.length_cons]
    omega
  let out := if a.written then text.length else 0
  have wrote : step cfg ((Race.create s p []).move p (.writing s.fresh)) (.write p .unixEpoch [] [] out) =
      some (writeMeta ((Race.create s p []).move p (.writing s.fresh)) p s.fresh text out) := by
    simp [step,Race.create,Race.move,stands.alive,text]
  refine ⟨_,_,(Run.one created).snoc wrote,?_⟩
  cases written : a.written with
  | true => simp [attempt,opened,written,Next.Shows,Outcome.Shows,writeMeta,Race.move,out]
  | false =>
    have short : ¬ text.length ≤ 0 := Nat.not_le.mpr some_
    simp [attempt,opened,written,Next.Shows,Outcome.Shows,writeMeta,Race.move,out,short]

/-- The file is read. -/
theorem read_run (stands : Stands s p .creating (some text)) (read : readMeta text = .ok old) :
    ∃ past s', Run (step cfg) s past s' ∧ Stands s' p (.checking old) (some text) ∧ s'.alive = s.alive := by
  obtain ⟨f,present,rfl⟩ := Option.map_eq_some_iff.mp stands.file
  have found : step cfg s (.create p true) = some (s.move p .reading) := by
    simp [step,stands.isAt,openNew,present]
  have reads : step cfg (s.move p .reading) (.read p true) = some ((s.move p .reading).move p (.checking old)) := by
    rw [step,if_pos (stands.move .reading).isAt]
    simp [Race.move,present,read]
  exact ⟨_,_,(Run.one found).snoc reads,(stands.move .reading).move (.checking old),rfl⟩

theorem panic_run (stands : Stands s p .creating (some text)) (failed : readMeta text = .error e) :
    ∃ past s', Run (step cfg) s past s' ∧ s'.alive p = false := by
  obtain ⟨f,present,rfl⟩ := Option.map_eq_some_iff.mp stands.file
  have found : step cfg s (.create p true) = some (s.move p .reading) := by
    simp [step,stands.isAt,openNew,present]
  have reads : step cfg (s.move p .reading) (.read p true) = some ((s.move p .reading).die p) := by
    rw [step,if_pos (stands.move .reading).isAt]
    simp [Race.move,present,failed]
  exact ⟨_,_,(Run.one found).snoc reads,by simp [Race.die]⟩

theorem remove_step (stands : Stands s p .removing text) (removed : Bool) :
    ∃ s', step cfg s (.remove p removed) = some s' ∧ Stands s' p .creating (if removed then none else text) := by
  refine ⟨_,if_pos stands.isAt,?_⟩
  cases removed with
  | true =>
    have gone : Stands (Race.remove s) p .removing none := ⟨stands.alive,stands.point,rfl⟩
    exact gone.move .creating
  | false => exact stands.move .creating

/-- A call of `acquire` is made of the steps of its process, if its question whether the old
process is alive is answered as it is there. -/
theorem attempt_run (a : Attempt) (group : Bool) (build : a.build = cfg.build)
    (stands : Stands s p .creating (file.map textOf)) (answers : ∀ bytes old, file = some bytes →
      readMeta (textOf bytes) = .ok old → isAlive old.pid a.alive = isProcessAlive cfg s p old.pid group) :
    ∃ past s', Run (step cfg) s past s' ∧ (attempt file a).Shows s' p := by
  cases opened : a.opened with
  | false =>
    have failed : step cfg s (.create p false) = some (s.move p .ioError) := if_pos stands.isAt
    refine ⟨_,_,Run.one failed,?_⟩
    rw [attempt_closed file opened]
    exact (stands.move .ioError).point
  | true =>
    cases file with
    | none => exact create_run a opened stands
    | some bytes =>
      cases read : readMeta (textOf bytes) with
      | error e =>
        obtain ⟨past,s',run,dead⟩ := panic_run stands read
        exact ⟨past,s',run,by simpa [attempt,opened,read,Next.Shows,Outcome.Shows] using dead⟩
      | ok old =>
        obtain ⟨past,s₁,run,checking,others⟩ := read_run stands read
        have alive := answers bytes old rfl read
        have checks : step cfg s₁ (.check p group) =
            some (s₁.move p (if isAlive old.pid a.alive then .comparing old else .removing)) := by
          rw [alive]
          simp [step,checking.alive,checking.point,isProcessAlive,others]
        simp only [attempt,opened,if_true,read]
        split
        next answered =>
          rw [if_pos answered] at checks
          have comparing := checking.move (.comparing old)
          have compares : step cfg (s₁.move p (.comparing old)) (.compare p) = some ((s₁.move p (.comparing old)).move p
              (if a.build = old.buildMtime then .alreadyRunning old.pid else .killing)) := by
            simp [step,comparing.alive,comparing.point,build]
          split
          next same =>
            rw [if_pos same] at compares
            exact ⟨_,_,(run.snoc checks).snoc compares,(comparing.move (.alreadyRunning old.pid)).point⟩
          next other =>
            rw [if_neg other] at compares
            have killing := comparing.move .killing
            have kills : step cfg ((s₁.move p (.comparing old)).move p .killing) (.kill p) =
                some (((s₁.move p (.comparing old)).move p .killing).move p .removing) := if_pos killing.isAt
            obtain ⟨s₂,removes,again⟩ := remove_step (killing.move .removing) a.removed
            refine ⟨_,s₂,(((run.snoc checks).snoc compares).snoc kills).snoc removes,?_⟩
            cases removed : a.removed <;> simpa [Next.Shows,afterRemove,removed] using again
        next silent =>
          rw [if_neg silent] at checks
          obtain ⟨s₂,removes,again⟩ := remove_step (checking.move .removing) a.removed
          refine ⟨_,s₂,(run.snoc checks).snoc removes,?_⟩
          cases removed : a.removed <;> simpa [Next.Shows,afterRemove,removed] using again

end Steps

end Malkuth.Singleton
