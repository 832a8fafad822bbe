import Mathlib.Data.List.Count
import Mathlib.Logic.Function.Basic

/-! Exclusive locks that a session may take several times: a table says who has each lock and
how often. Every success needs an unlock of its own. -/
namespace ReentrantLock

variable {κ σ : Type} [DecidableEq κ] [DecidableEq σ]

abbrev Table (κ σ : Type) := κ → Option (σ × Nat)

def tryLock (t : Table κ σ) (s : σ) (k : κ) : Bool × Table κ σ :=
  match t k with
  | none => (true,Function.update t k (some (s,1)))
  | some (owner,n) =>
    if owner = s then (true,Function.update t k (some (s,n + 1))) else (false,t)

def unlock (t : Table κ σ) (s : σ) (k : κ) : Table κ σ :=
  match t k with
  | none => t
  | some (owner,n) =>
    if owner = s then Function.update t k (if n ≤ 1 then none else some (s,n - 1)) else t

def held (t : Table κ σ) (k : κ) (s : σ) : Nat :=
  match t k with
  | none => 0
  | some (owner,n) => if owner = s then n else 0

omit [DecidableEq κ] in
theorem held_sole (t : Table κ σ) (k : κ) (first : 0 < held t k s) (second : 0 < held t k s') : s = s' := by
  cases entry : t k with
  | none => simp [held,entry] at first
  | some lock =>
    obtain ⟨owner,n⟩ := lock
    have mine : owner = s := by
      by_contra other
      simp [held,entry,other] at first
    have theirs : owner = s' := by
      by_contra other
      simp [held,entry,other] at second
    exact mine.symm.trans theirs

/-- What is done to one lock shows at no other. -/
theorem held_update_ne (t : Table κ σ) (lock : Option (σ × Nat)) (different : k' ≠ k) :
    held (Function.update t k lock) k' s = held t k' s := by
  simp [held,different]

theorem held_tryLock (t : Table κ σ) (s : σ) (k : κ) (granted : (tryLock t s k).1 = true) :
    held (tryLock t s k).2 k s = held t k s + 1 := by
  cases entry : t k with
  | none => simp [tryLock,held,entry]
  | some lock =>
    obtain ⟨owner,n⟩ := lock
    by_cases mine : owner = s
    · simp [tryLock,held,entry,mine]
    · simp [tryLock,entry,mine] at granted

/-- A try takes nothing away. -/
theorem held_le_tryLock (t : Table κ σ) (s : σ) (k k' : κ) (s' : σ) :
    held t k' s' ≤ held (tryLock t s k).2 k' s' := by
  by_cases same : k' = k
  · subst same
    cases entry : t k' with
    | none => simp [held,entry]
    | some lock =>
      obtain ⟨owner,n⟩ := lock
      by_cases mine : owner = s
      · subst mine
        simp only [tryLock,held,entry,if_true,Function.update_self]
        split <;> omega
      · simp [tryLock,entry,mine]
  · cases entry : t k with
    | none => simp [tryLock,entry,held_update_ne t _ same]
    | some lock =>
      obtain ⟨owner,n⟩ := lock
      by_cases mine : owner = s
      · simp [tryLock,entry,mine,held_update_ne t _ same]
      · simp [tryLock,entry,mine]

/-- An unlock takes one success of its session away and nothing else. -/
theorem held_unlock (t : Table κ σ) (s : σ) (k k' : κ) (s' : σ) :
    held (unlock t s k) k' s' = held t k' s' - if k' = k ∧ s' = s then 1 else 0 := by
  cases entry : t k with
  | none =>
    by_cases same : k' = k
    · subst same
      simp [unlock,held,entry]
    · simp [unlock,entry,same]
  | some lock =>
    obtain ⟨owner,n⟩ := lock
    by_cases mine : owner = s
    · subst mine
      by_cases same : k' = k
      · subst same
        by_cases last : n ≤ 1
        · by_cases here : owner = s' <;> simp [unlock,held,entry,last,here]
        · by_cases here : owner = s' <;> simp [unlock,held,entry,last,here]
      · simp [unlock,entry,held_update_ne t _ same,same]
    · by_cases here : k' = k ∧ s' = s
      · obtain ⟨rfl,rfl⟩ := here
        simp [unlock,held,entry,mine]
      · simp [unlock,entry,mine,here]

end ReentrantLock
