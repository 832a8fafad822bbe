import Malkuth.Transition
import Mathlib.Algebra.GroupWithZero.Nat

/-! The file lease of `lease.rs` on one key: `try_take`, the renew thread and the
release of a guard, as separate file-system steps over one lease file, one temp
file and one clock. Acquirers are indexed by their owner strings, which is what
keeps the owners distinct. The content of a file is what `serde_json` makes of it. -/
namespace Malkuth.Lease

structure LeaseRecord where
  owner : String
  expiresAtMs : Nat
  deriving DecidableEq, Repr

/-- A path holds nothing, bytes that `from_slice` rejects, or a record. -/
inductive File where
  | absent
  | garbled
  | record (rec : LeaseRecord)
  deriving DecidableEq, Repr

/-- `fs::read` followed by `from_slice`, both with their errors ignored. -/
def File.parsed : File → Option LeaseRecord
  | .record rec => some rec
  | _ => none

def File.owner (f : File) : Option String := f.parsed.map LeaseRecord.owner

/-- `now_ms() + ttl.as_millis() as u64`: the cast truncates and the sum wraps. -/
def expiresAtMs (now ttlMs : Nat) : Nat := (now + ttlMs % 2^64) % 2^64

def freshRecord (owner : String) (now ttlMs : Nat) : LeaseRecord := ⟨owner,expiresAtMs now ttlMs⟩

/-- The renew thread of a guard. `awake` is past its last look at the stop flag. -/
inductive Renewal where
  | asleep
  | awake
  | writing (rec : LeaseRecord)
  | renamingTmp
  deriving DecidableEq, Repr

/-- `LeaseGuard::release` and `Drop` run the same code; a released guard is still
dropped later. -/
inductive Ending where
  | release
  | drop
  deriving DecidableEq, Repr

inductive Point where
  | idle
  | reading
  | deciding (seen : Option LeaseRecord)
  | stamping
  | writing (rec : LeaseRecord)
  | renamingTmp
  | confirming
  /-- `Ok(false)`: the caller gets `LockError::Contended`. -/
  | refused
  /-- `Err(_)` from `write_atomic`. -/
  | failed
  /-- `Ok(true)`: the caller has its guard. -/
  | held (renewal : Renewal)
  | stopping (renewal : Renewal) (ending : Ending)
  | releaseReading (ending : Ending)
  | removing (ending : Ending)
  | released
  | dropped
  deriving DecidableEq, Repr

def Point.isHeld : Point → Bool
  | .held _ => true
  | _ => false

def Ending.done : Ending → Point
  | .release => .released
  | .drop => .dropped

/-- `installed` is the last record of this owner that was renamed into place. -/
structure Acquirer where
  point : Point
  ttlMs : Nat
  installed : Option LeaseRecord

structure State where
  lease : File
  tmp : File
  now : Nat
  acquirer : String → Acquirer

/-- Outcome of one file-system call; `partway` is an `fs::write` cut short. -/
inductive Io where
  | ok
  | failed
  | partway
  deriving DecidableEq, Repr

inductive Event where
  | tick (ms : Nat)
  /-- `LeaseLock::acquire` enters `try_take`. -/
  | begin (owner : String) (ttlMs : Nat)
  | go (owner : String) (io : Io)
  | renew (owner : String) (io : Io)
  | finish (owner : String) (ending : Ending)

def State.point (s : State) (o : String) : Point := (s.acquirer o).point

def State.move (s : State) (o : String) (p : Point) : State :=
  { s with acquirer := Function.update s.acquirer o { s.acquirer o with point := p } }

/-- `fs::rename(&tmp, path)`: fails when another acquirer has taken the temp file. -/
def State.rename (s : State) : Option State :=
  match s.tmp with
  | .absent => none
  | .garbled => some { s with lease := .garbled, tmp := .absent }
  | .record rec =>
    some { s with
      lease := .record rec, tmp := .absent
      acquirer := Function.update s.acquirer rec.owner
        { s.acquirer rec.owner with installed := some rec } }

def State.writeTmp (s : State) (rec : LeaseRecord) : Io → State
  | .ok => { s with tmp := .record rec }
  | .failed => s
  | .partway => { s with tmp := .garbled }

def blocked (now : Nat) (owner : String) : Option LeaseRecord → Bool
  | some rec => decide (rec.expiresAtMs > now) && rec.owner != owner
  | none => false

def State.seen (s : State) : Io → Option LeaseRecord
  | .ok => s.lease.parsed
  | _ => none

/-- One step of `try_take`, and of `release`/`drop` once the guard ends. -/
def State.advance (s : State) (o : String) (io : Io) : Option State :=
  match s.point o with
  | .reading => some (s.move o (.deciding (s.seen io)))
  | .deciding seen => some (s.move o (if blocked s.now o seen then .refused else .stamping))
  | .stamping => some (s.move o (.writing (freshRecord o s.now (s.acquirer o).ttlMs)))
  | .writing rec =>
    some ((s.writeTmp rec io).move o (if io = .ok then .renamingTmp else .failed))
  | .renamingTmp =>
    match io, s.rename with
    | .ok, some s' => some (s'.move o .confirming)
    | _, _ => some (s.move o .failed)
  | .confirming =>
    some (s.move o (if (s.seen io).map LeaseRecord.owner = some o then .held .asleep else .refused))
  -- a sleeping renew thread sees the flag and returns, so the join ends
  | .stopping .asleep ending => some (s.move o (.releaseReading ending))
  | .releaseReading ending =>
    some (s.move o
      (if (s.seen io).map LeaseRecord.owner = some o then .removing ending else ending.done))
  | .removing ending =>
    match io with
    | .ok => some ({ s with lease := .absent }.move o ending.done)
    | _ => some (s.move o ending.done)
  | _ => none

/-- One step of the renew thread; errors of `write_atomic` are ignored there. -/
def State.renewal (s : State) (o : String) (io : Io) : Renewal → State × Renewal
  | .asleep => (s,.awake)
  | .awake => (s,.writing (freshRecord o s.now (s.acquirer o).ttlMs))
  | .writing rec => (s.writeTmp rec io,if io = .ok then .renamingTmp else .asleep)
  | .renamingTmp =>
    match io, s.rename with
    | .ok, some s' => (s',.asleep)
    | _, _ => (s,.asleep)

def State.renew (s : State) (o : String) (io : Io) : Option State :=
  match s.point o with
  | .held r =>
    let (s',r') := s.renewal o io r
    some (s'.move o (.held r'))
  | .stopping .asleep _ => none
  | .stopping r ending =>
    let (s',r') := s.renewal o io r
    some (s'.move o (.stopping r' ending))
  | _ => none

/-- `release()` or the guard's `Drop`: set the stop flag, then join. -/
def State.finish (s : State) (o : String) (ending : Ending) : Option State :=
  match s.point o, ending with
  | .held r, _ => some (s.move o (.stopping r ending))
  | .released, .drop => some (s.move o (.releaseReading .drop))
  | _, _ => none

def step (s : State) : Event → Option State
  | .tick ms => if s.now + ms < 2^64 then some { s with now := s.now + ms } else none
  | .begin o ttlMs =>
    if s.point o = .idle then
      some { s with acquirer := Function.update s.acquirer o ⟨.reading,ttlMs,(s.acquirer o).installed⟩ }
    else none
  | .go o io => s.advance o io
  | .renew o io => s.renew o io
  | .finish o ending => s.finish o ending

def initial (lease tmp : File) (now : Nat) : State where
  lease := lease
  tmp := tmp
  now := now
  acquirer := fun o => ⟨.idle,0,lease.parsed.filter (fun rec => rec.owner == o)⟩

end Malkuth.Lease
