import Malkuth.LockFile
import Malkuth.Process
import Malkuth.Text
import Malkuth.Transition

/-! The singleton lock of `bin/malkuth/singleton.rs`: any number of processes of one build run
`acquire` on one lock path, a file-system call at a time. They may die and their pids may be
used again at any time. -/
namespace Malkuth.Singleton

open Transition Text LockFile

structure SystemTime where
  secs : Nat
  nanos : Nat
  range : secs < 2^63
  subsec : nanos < 1000000000
  deriving DecidableEq

def SystemTime.unixEpoch : SystemTime := ⟨0,0,by decide,by decide⟩

structure LockMeta where
  pid : Nat
  createdAt : SystemTime
  buildMtime : SystemTime
  binaryPath : List Char
  workingDir : List Char
  deriving DecidableEq

def SystemTime.show (t : SystemTime) : List Char := display t.secs ++ '.' :: display t.nanos

def LockMeta.serialize (m : LockMeta) : List Char :=
  display m.pid ++ '\n' :: (m.createdAt.show ++ '\n' :: (m.buildMtime.show ++ '\n' ::
    (m.binaryPath ++ '\n' :: m.workingDir)))

/-- The call ends in a panic. -/
inductive Panic where
  /-- The seconds of `Duration::new` overflow. -/
  | duration
  deriving DecidableEq

/-- `parse_time`: `Duration::new` carries whole seconds over, and the addition is checked. -/
def parseTime (s : List Char) : Except Panic (Option SystemTime) :=
  match splitOnce '.' s with
  | none => .ok none
  | some (secs,nsecs) =>
    match parseUnsigned (2^64) secs, parseUnsigned (2^32) nsecs with
    | some s, some n =>
      if s + n / 1000000000 < 2^64 then
        if range : s + n / 1000000000 < 2^63 then
          .ok (some ⟨s + n / 1000000000,n % 1000000000,range,Nat.mod_lt _ (by decide)⟩)
        else .ok none
      else .error .duration
    | _, _ => .ok none

def LockMeta.deserialize (raw : List Char) : Except Panic (Option LockMeta) :=
  match lines (trimList raw) with
  | pid :: created :: build :: path :: dir :: _ =>
    match parseUnsigned (2^32) pid with
    | none => .ok none
    | some pid => do
      let some createdAt ← parseTime created | return none
      let some buildMtime ← parseTime build | return none
      return some ⟨pid,createdAt,buildMtime,path,dir⟩
  | _ => .ok none

/-- `read_meta` on what could be read: text that is no metadata stands for pid 0. -/
def readMeta (text : List Char) : Except Panic LockMeta :=
  (LockMeta.deserialize text).map fun old => old.getD ⟨0,.unixEpoch,.unixEpoch,[],[]⟩

inductive Point where
  /-- Not in `acquire`. -/
  | outside
  | creating
  | writing (inode : Nat)
  | reading
  | checking (old : LockMeta)
  | comparing (old : LockMeta)
  | killing
  | removing
  /-- `Ok`: the caller has its guard. -/
  | held
  | alreadyRunning (pid : Nat)
  | ioError
  deriving DecidableEq

abbrev State := Race Pid (List Char) Point

structure Config where
  build : SystemTime
  mayKill : Pid → Pid → Bool

inductive Event where
  | begin (p : Pid)
  /-- `OpenOptions::open` with `create_new`; it may fail for another reason. -/
  | create (p : Pid) (io : Bool)
  /-- `write_all` gets so many characters out. -/
  | write (p : Pid) (createdAt : SystemTime) (binaryPath workingDir : List Char) (written : Nat)
  | read (p : Pid) (io : Bool)
  /-- `is_process_alive`; beyond the range of `pid_t` a process group would answer. -/
  | check (p : Pid) (group : Bool)
  | compare (p : Pid)
  /-- `kill_process` and the pause; the old process may die at any time anyway. -/
  | kill (p : Pid)
  | remove (p : Pid) (io : Bool)
  /-- The guard is dropped. -/
  | drop (p : Pid) (io : Bool)
  | die (p : Pid)
  | born (p : Pid)

def isProcessAlive (cfg : Config) (s : State) (p : Pid) (pid : Nat) (group : Bool) : Bool :=
  if positive : 0 < pid then
    if small : pid < 2^31 then answersKill cfg.mayKill s.alive p ⟨pid,positive,small⟩ else group
  else false

/-- The process is alive and about to make this call. -/
def isAt (s : State) (p : Pid) (a : Point) : Bool := s.alive p && decide (s.point p = a)

def openNew (s : State) (p : Pid) (io : Bool) : State :=
  if io then
    match s.file with
    | none => (Race.create s p []).move p (.writing s.fresh)
    | some _ => s.move p .reading
  else s.move p .ioError

/-- A short write is an error; what was written stays. -/
def writeMeta (s : State) (p : Pid) (inode : Nat) (text : List Char) (written : Nat) : State :=
  (Race.write s inode fun _ => text.take written).move p (if text.length ≤ written then .held else .ioError)

def removeFile (s : State) (io : Bool) : State := if io then Race.remove s else s

def step (cfg : Config) (s : State) : Event → Option State
  | .begin p => if isAt s p .outside then some (s.move p .creating) else none
  | .create p io => if isAt s p .creating then some (openNew s p io) else none
  | .write p createdAt binaryPath workingDir written =>
    match s.alive p, s.point p with
    | true, .writing inode =>
      some (writeMeta s p inode (LockMeta.serialize ⟨p.val,createdAt,cfg.build,binaryPath,workingDir⟩) written)
    | _, _ => none
  | .read p io =>
    if isAt s p .reading then
      some (match readMeta (if io then s.file.elim [] File.content else []) with
        | .ok old => s.move p (.checking old)
        -- `acquire` is called from `main`
        | .error _ => s.die p)
    else none
  | .check p group =>
    match s.alive p, s.point p with
    | true, .checking old =>
      some (s.move p (if isProcessAlive cfg s p old.pid group then .comparing old else .removing))
    | _, _ => none
  | .compare p =>
    match s.alive p, s.point p with
    | true, .comparing old =>
      some (s.move p (if cfg.build = old.buildMtime then .alreadyRunning old.pid else .killing))
    | _, _ => none
  | .kill p => if isAt s p .killing then some (s.move p .removing) else none
  -- `acquire` calls itself again
  | .remove p io => if isAt s p .removing then some ((removeFile s io).move p .creating) else none
  | .drop p io => if isAt s p .held then some ((removeFile s io).move p .outside) else none
  | .die p => some (s.die p)
  | .born p => if s.alive p then none else some (s.born p .outside)

def initial (text : Option (List Char)) (alive : Pid → Bool) : State :=
  ⟨text.map fun t => ⟨0,none,t⟩,1,alive,fun _ => .outside⟩

end Malkuth.Singleton
