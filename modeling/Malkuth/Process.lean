import Mathlib.Algebra.GroupWithZero.Nat
import Mathlib.Logic.Basic

/-! Processes as the pid files see them: `kill(pid, 0)` answers for a live process that the
caller may signal. Of a process that belongs to another user it gives `EPERM`, which the
callers take for a dead one. -/
namespace Malkuth

/-- A positive `pid_t`. -/
structure Pid where
  val : Nat
  positive : 0 < val
  small : val < 2^31
  deriving DecidableEq

def answersKill (mayKill : Pid → Pid → Bool) (alive : Pid → Bool) (caller target : Pid) : Bool :=
  alive target && mayKill caller target

def seven : Pid := ⟨7,by decide,by decide⟩
def eight : Pid := ⟨8,by decide,by decide⟩

end Malkuth
