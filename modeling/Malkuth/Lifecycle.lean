/-! The shared drain state of `lifecycle.rs`. `begin_drain` is two separate stores,
so its parts are separate here; who is woken by them is not modelled. -/
namespace Malkuth.Lifecycle

inductive ShutdownKind where
  | graceful
  | immediate
  | reload
  deriving DecidableEq, Repr

def ShutdownKind.causesDrain : ShutdownKind → Bool
  | .graceful | .immediate => true
  | .reload => false

/-- `kind` is the decoded `AtomicU8`: only `to_u8` values are ever stored in it. -/
structure DrainController where
  draining : Bool
  kind : Option ShutdownKind
  deriving DecidableEq, Repr

def DrainController.new : DrainController := ⟨false,none⟩

def DrainController.storeKind (c : DrainController) (kind : ShutdownKind) : DrainController :=
  { c with kind := some kind }

def DrainController.storeDraining (c : DrainController) : DrainController :=
  { c with draining := true }

def DrainController.clearDraining (c : DrainController) : DrainController :=
  { c with draining := false }

def DrainController.clearKind (c : DrainController) : DrainController :=
  { c with kind := none }

/-- A second drain sets a bit that is set. -/
theorem DrainController.storeDraining_eq_self (c : DrainController) (bit : c.draining = true) :
    c.storeDraining = c := by
  obtain ⟨draining,kind⟩ := c
  obtain rfl : draining = true := bit
  rfl

end Malkuth.Lifecycle
