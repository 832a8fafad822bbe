import Malkuth.LockPaths
import Malkuth.Transition

/-! `FileLock` of `lock.rs` on all the keys under one root. A `flock` belongs to the open file of
a call, so that the calls of one process contend like those of two. The files stay when they
are unlocked. -/
namespace Malkuth.FileLock

open LockPaths Transition

/-- Where a call of `acquire` is; `held` is with its guard. -/
inductive Call where
  | idle
  | held (key : Key)
  | contended
  | failed
  | released
  deriving DecidableEq

structure State where
  /-- The call whose open file has the lock on the file at a path. -/
  locked : Path → Option Nat
  call : Nat → Call

inductive Event where
  /-- `opens` is false where the directory or the file cannot be opened, or `flock` fails but
  not because the lock is taken. -/
  | acquire (call : Nat) (key : Key) (opens : Bool)
  /-- `release`, the `Drop` of the guard, or the end of its process. -/
  | release (call : Nat)

def initial : State := ⟨fun _ => none,fun _ => .idle⟩

def step (root : Path) (s : State) : Event → Option State
  | .acquire c key opens =>
    match s.call c with
    | .idle =>
      if opens then
        match s.locked (lockPath root key) with
        | none => some ⟨Function.update s.locked (lockPath root key) (some c),Function.update s.call c (.held key)⟩
        | some _ => some { s with call := Function.update s.call c .contended }
      else some { s with call := Function.update s.call c .failed }
    | _ => none
  | .release c =>
    match s.call c with
    | .held key => some ⟨Function.update s.locked (lockPath root key) none,Function.update s.call c .released⟩
    | _ => none

/-- An `acquire` on the second key answers `Contended`, and the lock is with a guard of the first. -/
def Contends (root : Path) (t : Taken State Event) (k₁ k₂ : Key) : Prop :=
  ∃ c opens holder, t.event = .acquire c k₂ opens ∧ t.post.call c = .contended ∧
    t.pre.locked (lockPath root k₂) = some holder ∧ t.pre.call holder = .held k₁

def NeverContends (root : Path) (k₁ k₂ : Key) : Prop :=
  ∀ past s, Run (step root) initial past s → ∀ t ∈ past, ¬ Contends root t k₁ k₂

/-- Everything that a step can do. -/
theorem step_cases (taken : step root s e = some s') :
    (∃ c key, e = .acquire c key true ∧ s.call c = .idle ∧ s.locked (lockPath root key) = none ∧
      s' = ⟨Function.update s.locked (lockPath root key) (some c),Function.update s.call c (.held key)⟩) ∨
    (∃ c p, s.call c = .idle ∧ (∀ key, p ≠ .held key) ∧ s' = { s with call := Function.update s.call c p }) ∨
    ∃ c key, s.call c = .held key ∧
      s' = ⟨Function.update s.locked (lockPath root key) none,Function.update s.call c .released⟩ := by
  cases e with
  | acquire c key opens =>
    simp only [step] at taken
    split at taken
    next idle =>
      cases opens with
      | false => exact .inr (.inl ⟨c,.failed,idle,fun _ => by simp,(Option.some.inj taken).symm⟩)
      | true =>
        simp only [if_true] at taken
        split at taken
        next free => exact .inl ⟨c,key,rfl,idle,free,(Option.some.inj taken).symm⟩
        · exact .inr (.inl ⟨c,.contended,idle,fun _ => by simp,(Option.some.inj taken).symm⟩)
    · contradiction
  | release c =>
    simp only [step] at taken
    split at taken
    next key held => exact .inr (.inr ⟨c,key,held,(Option.some.inj taken).symm⟩)
    · contradiction

/-- Who has the lock on a file has a guard, and the file is that of the guard's key. -/
def Owned (root : Path) (s : State) : Prop :=
  ∀ path c, s.locked path = some c → ∃ key, s.call c = .held key ∧ lockPath root key = path

theorem step_owned (root : Path) (s : State) (e : Event) (s' : State) (owned : Owned root s)
    (taken : step root s e = some s') : Owned root s' := by
  intro path c locked
  rcases step_cases taken with ⟨d,key,_,idle,free,rfl⟩ | ⟨d,p,idle,_,rfl⟩ | ⟨d,key,held,rfl⟩
  · by_cases here : path = lockPath root key
    · subst here
      obtain rfl : d = c := by simpa using locked
      exact ⟨key,by simp,rfl⟩
    · obtain ⟨key',held,same⟩ := owned path c (by simpa [here] using locked)
      have other : c ≠ d := by
        rintro rfl
        simp [held] at idle
      exact ⟨key',by simpa [other] using held,same⟩
  · obtain ⟨key,held,same⟩ := owned path c locked
    have other : c ≠ d := by
      rintro rfl
      simp [held] at idle
    exact ⟨key,by simpa [other] using held,same⟩
  · by_cases here : path = lockPath root key
    · simp [here] at locked
    · obtain ⟨key',held',same⟩ := owned path c (by simpa [here] using locked)
      have other : c ≠ d := by
        rintro rfl
        rw [held] at held'
        obtain rfl := Call.held.inj held'
        exact here same.symm
      exact ⟨key',by simpa [other] using held',same⟩

/-- Two calls, one key each. -/
theorem exists_contends (same : lockPath root k₁ = lockPath root k₂) :
    ∃ past s, Run (step root) initial past s ∧ ∃ t ∈ past, Contends root t k₁ k₂ := by
  have first : step root initial (.acquire 0 k₁ true) =
      some ⟨Function.update (fun _ => none) (lockPath root k₁) (some 0),Function.update (fun _ => .idle) 0 (.held k₁)⟩ := rfl
  have second : ∃ s', step root ⟨Function.update (fun _ => none) (lockPath root k₁) (some 0),
      Function.update (fun _ => .idle) 0 (.held k₁)⟩ (.acquire 1 k₂ true) = some s' ∧ s'.call 1 = .contended := by
    simp [step,← same]
  obtain ⟨s',taken,contended⟩ := second
  refine ⟨_,s',.cons first (.one taken),_,List.mem_cons_of_mem _ (List.mem_singleton_self _),1,true,0,rfl,contended,?_,rfl⟩
  simp [← same]

theorem neverContends_iff (root : Path) (k₁ k₂ : Key) : NeverContends root k₁ k₂ ↔ ¬ Alike k₁ k₂ := by
  rw [← lockPath_eq_iff root]
  constructor
  · intro never same
    obtain ⟨past,s,run,t,member,contends⟩ := exists_contends same
    exact never past s run t member contends
  · intro apart past s run t member contends
    obtain ⟨c,opens,holder,_,_,locked,held⟩ := contends
    have owned := (run.always_taken (P := Owned root) (by simp [Owned,initial]) (step_owned root) member).1
    obtain ⟨key,held',same⟩ := owned _ _ locked
    rw [held] at held'
    obtain rfl := Call.held.inj held'
    exact apart same

end Malkuth.FileLock
