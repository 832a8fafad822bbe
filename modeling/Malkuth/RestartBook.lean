import Malkuth.Fleet
import Mathlib.Data.List.Basic

/-! The operator restart bookkeeping of one run in `mcp.rs`: the locked section of
`accept_restart`, which works on a fleet snapshot taken before the lock. Clock readings
are arguments, one for each stamp that is tested and one for the stamp that is pushed.
A poisoned lock is not modelled: nothing under it panics. -/
namespace Malkuth.Mcp

open Malkuth.Fleet

inductive Refusal where
  | alreadyRestarting
  | workerStopped
  | workerDraining
  | restartBudgetExhausted
  deriving DecidableEq, Repr

def Refusal.code : Refusal → String
  | .alreadyRestarting => "already_restarting"
  | .workerStopped => "worker_stopped"
  | .workerDraining => "worker_draining"
  | .restartBudgetExhausted => "restart_budget_exhausted"

def explicitRestartMax : Nat := 5

def explicitRestartWindow : Nat := 60 * 1000000000

abbrev Phases := String → Option (WorkerPhase × Nat)

structure RestartBook where
  pending : List (String × Nat)
  stamps : List (String × Nat)
  deriving DecidableEq, Repr

def RestartBook.default : RestartBook := ⟨[],[]⟩

/-- What keeps a pending request: its worker has not ended and its counter has not moved. -/
def unsettled (phases : Phases) (request : String × Nat) : Bool :=
  match phases request.1 with
  | none | some (.stopped,_) => false
  | some (_,current) => current == request.2

def restartBlocker (phase : WorkerPhase) (pending : Bool) : Option Refusal :=
  if pending || phase == .restarting then some .alreadyRestarting
  else
    match phase with
    | .stopped => some .workerStopped
    | .draining => some .workerDraining
    | .starting | .running | .restarting => none

/-- `stamps.retain`; `elapsed` reads the clock once for each stamp. -/
def retainRecent (clock : Nat → Nat) (stamps : List (String × Nat)) : List (String × Nat) :=
  (stamps.zipIdx.filter fun (stamp,k) => clock k - stamp.2 < explicitRestartWindow).map Prod.fst

def RestartBook.settle (book : RestartBook) (phases : Phases) (clock : Nat → Nat) : RestartBook :=
  ⟨book.pending.filter (unsettled phases),retainRecent clock book.stamps⟩

def RestartBook.accept (book : RestartBook) (phases : Phases) (worker : String) (clock : Nat → Nat)
    (now : Nat) : Except Refusal Unit × RestartBook :=
  let (phase,count) := (phases worker).getD (.stopped,0)
  let book := book.settle phases clock
  let pendingSame := book.pending.any fun request => request.1 == worker
  match restartBlocker phase pendingSame with
  | some code => (.error code,book)
  | none =>
    let inWindow := (book.stamps.filter fun stamp => stamp.1 == worker).length
    if explicitRestartMax ≤ inWindow then (.error .restartBudgetExhausted,book)
    else (.ok (),⟨book.pending ++ [(worker,count)],book.stamps ++ [(worker,now)]⟩)

@[simp] theorem mem_settle_pending (book : RestartBook) (phases : Phases) (clock : Nat → Nat) :
    request ∈ (book.settle phases clock).pending ↔
      request ∈ book.pending ∧ unsettled phases request = true := by
  simp [RestartBook.settle]

/-- Only a worker that is starting or running, with nothing pending, is not blocked. -/
theorem restartBlocker_eq_none :
    restartBlocker phase pending = none ↔ pending = false ∧ (phase = .starting ∨ phase = .running) := by
  cases pending <;> cases phase <;> decide

theorem retainRecent_sublist (clock : Nat → Nat) (stamps : List (String × Nat)) :
    (retainRecent clock stamps).Sublist stamps := by
  have kept := (List.filter_sublist
    (p := fun (x : (String × Nat) × Nat) => clock x.2 - x.1.2 < explicitRestartWindow)
    (l := stamps.zipIdx)).map Prod.fst
  simpa [retainRecent] using kept

/-- An accepted request: the worker was shown starting or running, nothing was pending
for it, and it is recorded at the count shown. -/
theorem accept_ok (book : RestartBook) (phases : Phases) (worker : String) (clock : Nat → Nat) (now : Nat)
    (ok : (book.accept phases worker clock now).1 = .ok ()) :
    ∃ phase count, phases worker = some (phase,count) ∧ (phase = .starting ∨ phase = .running) ∧
      (∀ request ∈ (book.settle phases clock).pending, request.1 ≠ worker) ∧
      (book.accept phases worker clock now).2 =
        ⟨(book.settle phases clock).pending ++ [(worker,count)],
          (book.settle phases clock).stamps ++ [(worker,now)]⟩ := by
  unfold RestartBook.accept at ok ⊢
  cases shown : phases worker with
  | none =>
    have blocked : ∀ pending, restartBlocker .stopped pending ≠ none := by decide
    simp only [shown,Option.getD_none] at ok
    split at ok
    · contradiction
    next free => exact absurd free (blocked _)
  | some seen =>
    obtain ⟨phase,count⟩ := seen
    simp only [shown,Option.getD_some] at ok ⊢
    split at ok
    · contradiction
    next free =>
      split at ok
      · contradiction
      next room =>
        obtain ⟨none,alive⟩ := restartBlocker_eq_none.mp free
        refine ⟨phase,count,rfl,alive,?_,by simp [room]⟩
        simpa using none

/-- A refusal only settles: nothing is recorded. -/
theorem accept_error (book : RestartBook) (phases : Phases) (worker : String) (clock : Nat → Nat) (now : Nat)
    (refused : (book.accept phases worker clock now).1 = .error code) :
    (book.accept phases worker clock now).2 = book.settle phases clock := by
  unfold RestartBook.accept at refused ⊢
  simp only at refused ⊢
  split
  · rfl
  next free =>
    simp only [free] at refused ⊢
    split at refused
    next full => rw [if_pos full]
    · contradiction

/-- A request that is still pending refuses every other one for its worker. -/
theorem accept_pending (book : RestartBook) (phases : Phases) (worker : String) (clock : Nat → Nat)
    (now : Nat) (pending : (worker,count) ∈ (book.settle phases clock).pending) :
    (book.accept phases worker clock now).1 = .error .alreadyRestarting := by
  have same : (book.settle phases clock).pending.any (fun request => request.1 == worker) = true :=
    List.any_eq_true.mpr ⟨_,pending,by simp⟩
  simp [RestartBook.accept,same,restartBlocker]

/-- The request that an acceptance records was not in the book before. -/
theorem accept_ok_fresh (book : RestartBook) (phases : Phases) (worker : String) (clock : Nat → Nat)
    (now : Nat) (ok : (book.accept phases worker clock now).1 = .ok ()) :
    ¬ (book.accept phases worker clock now).2.pending.Sublist book.pending := by
  intro sublist
  obtain ⟨phase,count,shown,alive,free,result⟩ := accept_ok book phases worker clock now ok
  have recorded : (worker,count) ∈ book.pending := sublist.subset (by simp [result])
  have standing : unsettled phases (worker,count) = true := by
    rcases alive with rfl | rfl <;> simp [unsettled,shown]
  exact free _ ((mem_settle_pending ..).mpr ⟨recorded,standing⟩) rfl

theorem settle_sublist (book : RestartBook) (phases : Phases) (clock : Nat → Nat) :
    (book.settle phases clock).pending.Sublist book.pending ∧
      (book.settle phases clock).stamps.Sublist book.stamps :=
  ⟨List.filter_sublist,retainRecent_sublist clock book.stamps⟩

end Malkuth.Mcp
