import Malkuth.Transition
import Mathlib.Data.List.Basic

/-! The loop of the file watcher. One step of a run is one pass through the loop: it fires the
debounce window, or re-arms watches, or polls, or waits for an event, and many passes end early
with a `continue`. What the pass asks of the clock, of the watcher and of the file system is its
label. A path is the list of its components, as `Path` compares them. -/
namespace Malkuth.Watcher

open Transition

/-- Time in nanoseconds. -/
def second : Nat := 1000000000
def defaultDebounce : Nat := 3 * second
def watchRetryDelay : Nat := 5 * second
def pollInterval : Nat := 5 * second

abbrev Path := List String

inductive RecursiveMode where
  | recursive
  | nonRecursive
  deriving DecidableEq, Repr

/-- `notify::event::ModifyKind`, without what it tells about data, metadata and renames. -/
inductive ModifyKind where
  | any
  | data
  | metadata
  | name
  | other
  deriving DecidableEq, Repr

inductive EventKind where
  | any
  | access
  | create
  | modify (kind : ModifyKind)
  | remove
  | other
  deriving DecidableEq, Repr

def EventKind.isChange : EventKind → Bool
  | .create | .modify _ | .remove => true
  | _ => false

structure Event where
  kind : EventKind
  paths : List Path
  deriving DecidableEq, Repr

structure FileIdentity where
  inode : Nat
  size : Nat
  modified : Option Nat
  deriving DecidableEq, Repr

/-- `paths`, the debounce, and the last instant that the clock can represent. -/
structure Config where
  roots : List Path
  debounce : Nat
  latest : Nat

inductive Idle where
  | event (ev : Event)
  | error
  | timeout
  | disconnected
  deriving DecidableEq, Repr

/-- What one pass reads: the clock at its start and, `clock k`, later; the outcome of arming the
watch at `k` in a list, and of `file_identity` for the path at `k`; the order of the pending set;
whether the receiver is there; and what comes while it waits. -/
structure Pass where
  now : Nat
  clock : Nat → Nat
  arm : Nat → Bool
  stat : Nat → Option FileIdentity
  order : List Path → List Path
  perm : ∀ paths, (order paths).Perm paths
  alive : Bool
  idle : Idle

/-- The variables of the loop; `delivered` is what was sent to the receiver. -/
structure State where
  failed : List (Path × RecursiveMode × Nat)
  identity : Path → Option (Option FileIdentity)
  nextPoll : Nat
  pending : List Path
  windowEnd : Option Nat
  delivered : List (List Path)
  running : Bool

def insert (pending : List Path) (p : Path) : List Path := if p ∈ pending then pending else pending ++ [p]

def relevantPaths (evPath : Path) (roots : List Path) : List Path :=
  if roots.any fun r => decide (evPath = r) || r.isPrefixOf evPath then [evPath] else []

def watchNeedsRearm (kind : EventKind) (p : Path) (roots : List Path) : Bool :=
  roots.any (fun r => decide (r = p)) && (kind = .remove || kind = .modify .name)

def parentDirs (paths : List Path) : List Path :=
  paths.foldl (fun dirs p =>
    if p = [] ∨ p.dropLast = [] ∨ p.dropLast ∈ paths ∨ p.dropLast ∈ dirs then dirs else dirs ++ [p.dropLast]) []

def primed (stat : Nat → Option FileIdentity) (paths : List Path) : Path → Option (Option FileIdentity) :=
  paths.zipIdx.foldl (fun identity (p,k) => Function.update identity p (some (stat k))) fun _ => none

def start (cfg : Config) (arm : Nat → Bool) (stat : Nat → Option FileIdentity) (clock : Nat → Nat) : State where
  failed := (cfg.roots.map (·,RecursiveMode.recursive) ++ (parentDirs cfg.roots).map (·,RecursiveMode.nonRecursive)).zipIdx.filterMap
    fun ((p,mode),k) => if arm k then none else some (p,mode,clock k + watchRetryDelay)
  identity := primed stat cfg.roots
  nextPoll := clock (cfg.roots.length + (parentDirs cfg.roots).length) + pollInterval
  pending := []
  windowEnd := none
  delivered := []
  running := true

/-- `Instant::now().checked_add(debounce).unwrap_or(Instant::now() + DEFAULT_DEBOUNCE)`. -/
def Config.window (cfg : Config) (clock : Nat → Nat) : Nat :=
  if clock 0 + cfg.debounce ≤ cfg.latest then clock 0 + cfg.debounce else clock 1 + defaultDebounce

def refreshed (stat : Nat → Option FileIdentity) (changed : List Path) (identity : Path → Option (Option FileIdentity)) :
    Path → Option (Option FileIdentity) :=
  changed.zipIdx.foldl (fun identity (w,k) =>
    if (identity w).isSome then Function.update identity w (some (stat k)) else identity) identity

def fire (s : State) (r : Pass) : State :=
  if s.pending = [] then { s with windowEnd := none }
  else
    let changed := r.order s.pending
    let s := { s with windowEnd := none, pending := [], identity := refreshed r.stat changed s.identity }
    if r.alive then { s with delivered := s.delivered ++ [changed] } else { s with running := false }

def stillFailed (r : Pass) (failed : List (Path × RecursiveMode × Nat)) : List (Path × RecursiveMode × Nat) :=
  failed.zipIdx.filterMap fun ((p,mode,at_),k) =>
    if r.now < at_ then some (p,mode,at_) else if r.arm k then none else some (p,mode,r.now + watchRetryDelay)

def recovered (r : Pass) (failed : List (Path × RecursiveMode × Nat)) : List Path :=
  failed.zipIdx.filterMap fun ((p,_,at_),k) => if r.now < at_ then none else if r.arm k then some p else none

/-- The loop over recovered paths: those whose identity differs from the cache, and the cache. -/
def recoveredChanges (stat : Nat → Option FileIdentity) : List Path → Nat → (Path → Option (Option FileIdentity)) →
    List Path × (Path → Option (Option FileIdentity))
  | [], _, identity => ([],identity)
  | w :: ws, k, identity =>
    if identity w ≠ some (stat k) then
      let (changed,identity) := recoveredChanges stat ws (k + 1) (Function.update identity w (some (stat k)))
      (w :: changed,identity)
    else recoveredChanges stat ws (k + 1) identity

def pollChanges (stat : Nat → Option FileIdentity) : List Path → Nat → (Path → Option (Option FileIdentity)) →
    List Path × (Path → Option (Option FileIdentity))
  | [], _, cache => ([],cache)
  | r :: rs, k, cache =>
    let (changed,cache') := pollChanges stat rs (k + 1) (Function.update cache r (some (stat k)))
    if cache r ≠ some (stat k) then (r :: changed,cache') else (changed,cache')

def rearm (cfg : Config) (r : Pass) (ev : Event) (failed : List (Path × RecursiveMode × Nat)) :
    List (Path × RecursiveMode × Nat) :=
  ev.paths.zipIdx.foldl (fun failed (p,k) =>
    if watchNeedsRearm ev.kind p cfg.roots ∧ ¬ failed.any (fun f => decide (f.1 = p)) then
      failed ++ [(p,.recursive,r.clock (k + 2) + watchRetryDelay)]
    else failed) failed

def hits (cfg : Config) (ev : Event) : List Path := ev.paths.flatMap (relevantPaths · cfg.roots)

def State.note (s : State) (cfg : Config) (r : Pass) (changed : List Path) : State :=
  { s with pending := changed.foldl insert s.pending, windowEnd := some (cfg.window r.clock) }

def listen (cfg : Config) (s : State) (r : Pass) : State :=
  match r.idle with
  | .disconnected => { s with running := false }
  | .timeout | .error => s
  | .event ev =>
    if ev.kind.isChange then
      let s := { s with failed := rearm cfg r ev s.failed }
      if hits cfg ev = [] then s else s.note cfg r (hits cfg ev)
    else s

def pollOrListen (cfg : Config) (s : State) (r : Pass) : State :=
  if s.nextPoll ≤ r.now then
    let (changed,identity) := pollChanges r.stat cfg.roots 0 s.identity
    let s := { s with nextPoll := r.now + pollInterval, identity := identity }
    if changed ≠ [] then s.note cfg r changed else listen cfg s r
  else listen cfg s r

def iteration (cfg : Config) (s : State) (r : Pass) : State :=
  if s.windowEnd.any fun end_ => decide (end_ ≤ r.now) then fire s r
  else
    let armed := recovered r s.failed
    let s := { s with failed := stillFailed r s.failed }
    if armed ≠ [] then
      let (changed,identity) := recoveredChanges r.stat (armed.flatMap (relevantPaths · cfg.roots)) 0 s.identity
      let s := { s with identity := identity }
      if changed = [] then s else s.note cfg r changed
    else pollOrListen cfg s r

def step (cfg : Config) (s : State) (r : Pass) : Option State :=
  if s.running then some (iteration cfg s r) else none

/-- A root, or a path under one, both compared as they are written: a relative root never matches
the absolute path of an event. -/
def Watched (cfg : Config) (p : Path) : Prop := ∃ root ∈ cfg.roots, root <+: p

theorem mem_relevantPaths (cfg : Config) (p w : Path) : w ∈ relevantPaths p cfg.roots ↔ w = p ∧ Watched cfg p := by
  have any : (cfg.roots.any fun r => decide (p = r) || r.isPrefixOf p) = true ↔ Watched cfg p := by
    rw [List.any_eq_true]
    constructor
    · rintro ⟨root,member,same⟩
      refine ⟨root,member,?_⟩
      rcases Bool.or_eq_true_iff.mp same with same | under
      · simp [of_decide_eq_true same]
      · simpa using under
    · rintro ⟨root,member,under⟩
      exact ⟨root,member,Bool.or_eq_true_iff.mpr (.inr (by simpa using under))⟩
  unfold relevantPaths
  split
  next here => simp [any.mp here]
  next none_ => simp [mt any.mpr none_]

theorem mem_hits (cfg : Config) (ev : Event) (w : Path) : w ∈ hits cfg ev ↔ w ∈ ev.paths ∧ Watched cfg w := by
  unfold hits
  rw [List.mem_flatMap]
  constructor
  · rintro ⟨p,named,relevant⟩
    obtain ⟨rfl,watched⟩ := (mem_relevantPaths cfg p w).mp relevant
    exact ⟨named,watched⟩
  · rintro ⟨named,watched⟩
    exact ⟨w,named,(mem_relevantPaths cfg w w).mpr ⟨rfl,watched⟩⟩

theorem mem_foldl_insert (changed pending : List Path) : p ∈ changed.foldl insert pending ↔ p ∈ pending ∨ p ∈ changed := by
  induction changed generalizing pending with
  | nil => simp
  | cons q changed ih =>
    have one : p ∈ insert pending q ↔ p ∈ pending ∨ p = q := by
      unfold insert
      split
      next there =>
        constructor
        · exact .inl
        · rintro (member | rfl)
          · exact member
          · exact there
      next => simp
    rw [List.foldl_cons,ih,one,List.mem_cons,or_assoc]

theorem recoveredChanges_subset (stat : Nat → Option FileIdentity) (ws : List Path) (k : Nat)
    (identity : Path → Option (Option FileIdentity)) : (recoveredChanges stat ws k identity).1 ⊆ ws := by
  induction ws generalizing k identity with
  | nil => simp [recoveredChanges]
  | cons w ws ih =>
    unfold recoveredChanges
    split
    · exact List.cons_subset_cons _ (ih ..)
    · exact List.Subset.trans (ih ..) (List.subset_cons_self ..)

/-- A recovered path is reported if its identity is not the one of the cache before the loop. -/
theorem mem_recoveredChanges (stat : Nat → Option FileIdentity) (ws : List Path) (k i : Nat)
    (identity : Path → Option (Option FileIdentity)) (here : ws[i]? = some p) (differs : identity p ≠ some (stat (k + i))) :
    p ∈ (recoveredChanges stat ws k identity).1 := by
  induction ws generalizing k i identity with
  | nil => simp at here
  | cons w ws ih =>
    unfold recoveredChanges
    by_cases same : w = p
    · subst same
      by_cases changed : identity w ≠ some (stat k)
      · rw [if_pos changed]
        exact List.mem_cons_self
      · rw [if_neg changed]
        cases i with
        | zero => exact absurd differs changed
        | succ i => exact ih (k + 1) i identity here (by rwa [Nat.add_right_comm])
    · cases i with
      | zero => exact absurd (Option.some.inj here) same
      | succ i =>
        split
        · refine List.mem_cons_of_mem _ (ih (k + 1) i _ here ?_)
          rwa [Function.update_of_ne (Ne.symm same),Nat.add_right_comm]
        · exact ih (k + 1) i identity here (by rwa [Nat.add_right_comm])

theorem pollChanges_subset (stat : Nat → Option FileIdentity) (roots : List Path) (k : Nat)
    (cache : Path → Option (Option FileIdentity)) : (pollChanges stat roots k cache).1 ⊆ roots := by
  induction roots generalizing k cache with
  | nil => simp [pollChanges]
  | cons r roots ih =>
    unfold pollChanges
    dsimp only
    split
    · exact List.cons_subset_cons _ (ih ..)
    · exact List.Subset.trans (ih ..) (List.subset_cons_self ..)

inductive Effect (cfg : Config) (s : State) (r : Pass) (s' : State) : Prop where
  | quiet (pending : s'.pending = s.pending) (window : s'.windowEnd = s.windowEnd) (delivered : s'.delivered = s.delivered)
  | noted (changed : List Path) (watched : ∀ p ∈ changed, Watched cfg p)
      (pending : s'.pending = changed.foldl insert s.pending) (window : s'.windowEnd ≠ none)
      (delivered : s'.delivered = s.delivered)
  | closed (none_ : s.pending = []) (pending : s'.pending = []) (delivered : s'.delivered = s.delivered)
  | sent (batch : List Path) (some_ : s.pending ≠ []) (all : batch.Perm s.pending) (pending : s'.pending = [])
      (delivered : s'.delivered = s.delivered ++ [batch])

theorem listen_effect (cfg : Config) (s : State) (r : Pass) : Effect cfg s r (listen cfg s r) := by
  unfold listen
  split
  · exact .quiet rfl rfl rfl
  · exact .quiet rfl rfl rfl
  · exact .quiet rfl rfl rfl
  · split
    · dsimp only
      split
      · exact .quiet rfl rfl rfl
      · exact .noted _ (fun p hit => ((mem_hits ..).mp hit).2) rfl (Option.some_ne_none _) rfl
    · exact .quiet rfl rfl rfl

/-- Only these three fields matter for what a pass does to the pending paths. -/
theorem Effect.of_same (effect : Effect cfg s r s') (pending : s.pending = m.pending) (window : s.windowEnd = m.windowEnd)
    (delivered : s.delivered = m.delivered) : Effect cfg m r s' := by
  cases effect with
  | quiet same window' delivered' =>
    exact .quiet (same.trans pending) (window'.trans window) (delivered'.trans delivered)
  | noted changed watched same window' delivered' =>
    exact .noted changed watched (pending ▸ same) window' (delivered'.trans delivered)
  | closed none_ same delivered' => exact .closed (pending ▸ none_) same (delivered'.trans delivered)
  | sent batch some_ all same delivered' => exact .sent batch (pending ▸ some_) (pending ▸ all) same (delivered ▸ delivered')

theorem pollOrListen_effect (cfg : Config) (s : State) (r : Pass) : Effect cfg s r (pollOrListen cfg s r) := by
  unfold pollOrListen
  split
  · dsimp only
    split
    · refine .noted _ (fun p reported => ?_) rfl (Option.some_ne_none _) rfl
      exact ⟨p,pollChanges_subset _ _ _ _ reported,List.prefix_refl _⟩
    · exact (listen_effect ..).of_same rfl rfl rfl
  · exact listen_effect ..

theorem fire_effect (cfg : Config) (s : State) (r : Pass) (alive : r.alive = true) : Effect cfg s r (fire s r) := by
  unfold fire
  split
  next none_ => exact .closed none_ none_ rfl
  next some_ => exact .sent (r.order s.pending) some_ (r.perm _) rfl rfl

theorem iteration_effect (cfg : Config) (s : State) (r : Pass) (alive : r.alive = true) :
    Effect cfg s r (iteration cfg s r) := by
  unfold iteration
  split
  · exact fire_effect cfg s r alive
  · dsimp only
    split
    · split
      · exact .quiet rfl rfl rfl
      · refine .noted _ (fun p reported => ?_) rfl (Option.some_ne_none _) rfl
        obtain ⟨q,_,relevant⟩ := List.mem_flatMap.mp (recoveredChanges_subset _ _ _ _ reported)
        obtain ⟨rfl,watched⟩ := (mem_relevantPaths cfg q p).mp relevant
        exact watched
    · exact (pollOrListen_effect ..).of_same rfl rfl rfl

def Due (s : State) (r : Pass) : Prop := (s.windowEnd.any fun end_ => decide (end_ ≤ r.now)) = true

def Proceeds (s : State) (r : Pass) : Prop := ¬ Due s r ∧ recovered r s.failed = []

theorem note_pending (s : State) (cfg : Config) (r : Pass) (changed : List Path) (member : p ∈ changed) :
    p ∈ (s.note cfg r changed).pending :=
  (mem_foldl_insert ..).mpr (.inr member)

theorem iteration_proceeds (cfg : Config) (proceeds : Proceeds s r) :
    iteration cfg s r = pollOrListen cfg { s with failed := stillFailed r s.failed } r := by
  unfold iteration
  split
  next due => exact absurd due proceeds.1
  next => exact if_neg (not_not.mpr proceeds.2)

structure Sound (cfg : Config) (s : State) : Prop where
  window : s.pending ≠ [] → s.windowEnd ≠ none
  pending : ∀ p ∈ s.pending, Watched cfg p
  delivered : ∀ batch ∈ s.delivered, batch ≠ [] ∧ ∀ p ∈ batch, Watched cfg p

theorem Sound.step (sound : Sound cfg s) (effect : Effect cfg s r s') : Sound cfg s' := by
  cases effect with
  | quiet pending window delivered =>
    constructor
    · rw [pending,window]
      exact sound.window
    · rw [pending]
      exact sound.pending
    · rw [delivered]
      exact sound.delivered
  | noted changed watched pending window delivered =>
    constructor
    · intro _
      exact window
    · intro p member
      rw [pending,mem_foldl_insert] at member
      exact member.elim (sound.pending p) (watched p)
    · rw [delivered]
      exact sound.delivered
  | closed _ pending delivered =>
    constructor
    · simp [pending]
    · simp [pending]
    · rw [delivered]
      exact sound.delivered
  | sent batch some_ all pending delivered =>
    constructor
    · simp [pending]
    · simp [pending]
    · intro other member
      rw [delivered,List.mem_append,List.mem_singleton] at member
      rcases member with old | rfl
      · exact sound.delivered other old
      · refine ⟨fun nil => some_ (List.perm_nil.mp (nil ▸ all).symm),fun p inside => ?_⟩
        exact sound.pending p (all.mem_iff.mp inside)

def Kept (n : Nat) (p : Path) (s : State) : Prop :=
  n ≤ s.delivered.length ∧ (p ∈ s.pending ∨ ∃ batch ∈ s.delivered.drop n, p ∈ batch)

theorem Kept.step (kept : Kept n p s) (effect : Effect cfg s r s') : Kept n p s' := by
  obtain ⟨some_,here⟩ := kept
  cases effect with
  | quiet pending _ delivered =>
    rw [Kept,pending,delivered]
    exact ⟨some_,here⟩
  | noted changed _ pending _ delivered =>
    rw [Kept,pending,delivered,mem_foldl_insert]
    exact ⟨some_,here.imp_left .inl⟩
  | closed none_ pending delivered =>
    rw [Kept,pending,delivered,← none_]
    exact ⟨some_,here⟩
  | sent batch _ all pending delivered =>
    rw [Kept,delivered,List.drop_append_of_le_length some_,List.length_append]
    refine ⟨Nat.le_add_right_of_le some_,.inr ?_⟩
    rcases here with waiting | ⟨old,member,inside⟩
    · exact ⟨batch,by simp,all.mem_iff.mpr waiting⟩
    · exact ⟨old,List.mem_append_left _ member,inside⟩

theorem step_effect (enabled : step cfg s r = some s') (alive : r.alive = true) : Effect cfg s r s' := by
  obtain ⟨_,rfl⟩ := Option.ite_some_none_eq_some.mp enabled
  exact iteration_effect cfg s r alive

def quietPass (now : Nat) (stat : Option FileIdentity) (idle : Idle) : Pass :=
  ⟨now,fun _ => now,fun _ => true,fun _ => stat,id,fun _ => .refl _,true,idle⟩

end Malkuth.Watcher
