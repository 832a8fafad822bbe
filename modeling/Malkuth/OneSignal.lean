import Malkuth.Watcher

/-! When the watcher reports one change twice. After a batch, the poll and the watches that are
armed again compare the files with the identities of the cache, and the cache was read again only
for those delivered paths that it has. -/
namespace Malkuth.Watcher

open Transition

abbrev Files := Path → Option FileIdentity

def statted (cfg : Config) (s : State) (r : Pass) : List Path :=
  if s.windowEnd.any fun end_ => decide (end_ ≤ r.now) then r.order s.pending
  else if recovered r s.failed ≠ [] then (recovered r s.failed).flatMap (relevantPaths · cfg.roots)
  else cfg.roots

def Reads (files : Files) (r : Pass) (paths : List Path) : Prop := ∀ k p, paths[k]? = some p → r.stat k = files p

structure Still (cfg : Config) (files : Files) (s : State) (r : Pass) : Prop where
  reads : Reads files r (statted cfg s r)
  silent : ∀ ev, r.idle ≠ .event ev

/-- Before a batch is delivered: what the poll or a watch that is armed again will compare is as
the cache has it, or is named by the batch itself. -/
structure Accounted (cfg : Config) (files : Files) (s : State) : Prop where
  roots : ∀ p ∈ cfg.roots, s.identity p = some (files p) ∨ p ∈ s.pending
  arms : ∀ f ∈ s.failed, Watched cfg f.1 →
    s.identity f.1 = some (files f.1) ∨ f.1 ∈ s.pending ∧ (s.identity f.1).isSome = true

structure Settled (cfg : Config) (files : Files) (s : State) : Prop where
  window : s.windowEnd = none
  roots : ∀ p ∈ cfg.roots, s.identity p = some (files p)
  arms : ∀ f ∈ s.failed, Watched cfg f.1 → s.identity f.1 = some (files f.1)

theorem recoveredChanges_same (stat : Nat → Option FileIdentity) (ws : List Path) (k : Nat)
    (identity : Path → Option (Option FileIdentity)) (same : ∀ i p, ws[i]? = some p → identity p = some (stat (k + i))) :
    recoveredChanges stat ws k identity = ([],identity) := by
  induction ws generalizing k with
  | nil => rfl
  | cons w ws ih =>
    have first : identity w = some (stat k) := same 0 w rfl
    rw [recoveredChanges,if_neg (not_not.mpr first)]
    apply ih
    intro i p here
    rw [Nat.add_right_comm]
    exact same (i + 1) p here

theorem pollChanges_same (stat : Nat → Option FileIdentity) (rs : List Path) (k : Nat)
    (cache : Path → Option (Option FileIdentity)) (same : ∀ i p, rs[i]? = some p → cache p = some (stat (k + i))) :
    pollChanges stat rs k cache = ([],cache) := by
  induction rs generalizing k with
  | nil => rfl
  | cons r rs ih =>
    have first : cache r = some (stat k) := same 0 r rfl
    have kept : Function.update cache r (some (stat k)) = cache := by rw [← first,Function.update_eq_self]
    have rest : pollChanges stat rs (k + 1) cache = ([],cache) := by
      apply ih
      intro i p here
      rw [Nat.add_right_comm]
      exact same (i + 1) p here
    rw [pollChanges,kept,rest]
    exact if_neg (not_not.mpr first)

theorem mem_stillFailed (r : Pass) (failed : List (Path × RecursiveMode × Nat)) (member : f ∈ stillFailed r failed) :
    ∃ g ∈ failed, g.1 = f.1 := by
  obtain ⟨⟨⟨p,mode,at_⟩,k⟩,here,kept⟩ := List.mem_filterMap.mp member
  have inside : (p,mode,at_) ∈ failed := List.fst_mem_of_mem_zipIdx here
  refine ⟨(p,mode,at_),inside,?_⟩
  dsimp only at kept
  split at kept
  · obtain rfl := Option.some.inj kept
    rfl
  · split at kept
    · contradiction
    · obtain rfl := Option.some.inj kept
      rfl

theorem mem_recovered (r : Pass) (failed : List (Path × RecursiveMode × Nat)) (member : p ∈ recovered r failed) :
    ∃ f ∈ failed, f.1 = p := by
  obtain ⟨⟨⟨q,mode,at_⟩,k⟩,here,kept⟩ := List.mem_filterMap.mp member
  refine ⟨(q,mode,at_),List.fst_mem_of_mem_zipIdx here,?_⟩
  dsimp only at kept
  split at kept
  · contradiction
  · split at kept
    · exact Option.some.inj kept
    · contradiction

/-- Fewer watches to arm. -/
theorem Settled.stillFailed (settled : Settled cfg files s) (r : Pass) :
    Settled cfg files { s with failed := Watcher.stillFailed r s.failed } where
  window := settled.window
  roots := settled.roots
  arms f member watched := by
    obtain ⟨g,inside,same⟩ := mem_stillFailed r s.failed member
    rw [← same] at watched ⊢
    exact settled.arms g inside watched

theorem Settled.listen (settled : Settled cfg files s) (silent : ∀ ev, r.idle ≠ .event ev) :
    Settled cfg files (Watcher.listen cfg s r) ∧ (Watcher.listen cfg s r).delivered = s.delivered := by
  unfold Watcher.listen
  split
  next => exact ⟨⟨settled.window,settled.roots,settled.arms⟩,rfl⟩
  next => exact ⟨settled,rfl⟩
  next => exact ⟨settled,rfl⟩
  next ev got => exact absurd got (silent ev)

/-- Nothing is found to have changed, so nothing is noted. -/
theorem iteration_settled (settled : Settled cfg files s) (still : Still cfg files s r) :
    Settled cfg files (iteration cfg s r) ∧ (iteration cfg s r).delivered = s.delivered := by
  have early : ¬ (s.windowEnd.any fun end_ => decide (end_ ≤ r.now)) = true := by simp [settled.window]
  have reads := still.reads
  unfold statted at reads
  rw [if_neg early] at reads
  unfold iteration
  rw [if_neg early]
  have fewer := settled.stillFailed r
  dsimp only
  by_cases armed : recovered r s.failed ≠ []
  · rw [if_pos armed] at reads
    have same := recoveredChanges_same r.stat _ 0 s.identity fun i p here => by
      have relevant := List.mem_of_getElem? here
      obtain ⟨q,inside,hit⟩ := List.mem_flatMap.mp relevant
      obtain ⟨rfl,watched⟩ := (mem_relevantPaths cfg q p).mp hit
      obtain ⟨f,failed,rfl⟩ := mem_recovered r s.failed inside
      rw [Nat.zero_add,reads i _ here]
      exact settled.arms f failed watched
    rw [if_pos armed,same]
    exact ⟨fewer,rfl⟩
  · rw [if_neg armed] at reads
    rw [if_neg armed]
    unfold pollOrListen
    have same := pollChanges_same r.stat cfg.roots 0 s.identity fun i p here => by
      rw [Nat.zero_add,reads i p here]
      exact settled.roots p (List.mem_of_getElem? here)
    split
    · rw [same]
      dsimp only
      rw [if_neg (not_not.mpr rfl)]
      have polled : Settled cfg files { s with failed := Watcher.stillFailed r s.failed, nextPoll := r.now + pollInterval } :=
        ⟨fewer.window,fewer.roots,fewer.arms⟩
      exact polled.listen still.silent
    · exact fewer.listen still.silent

theorem run_settled (settled : Settled cfg files m) (run : Run (step cfg) m later s)
    (still : ∀ u ∈ later, Still cfg files u.pre u.event) : s.delivered = m.delivered := by
  have both : Settled cfg files s ∧ s.delivered = m.delivered := by
    apply run.invariant (C := fun s r => Still cfg files s r) ⟨settled,rfl⟩ _ still
    rintro s r s' ⟨settled,same⟩ still enabled
    obtain ⟨_,rfl⟩ := Option.ite_some_none_eq_some.mp enabled
    obtain ⟨next,none_⟩ := iteration_settled settled still
    exact ⟨next,none_.trans same⟩
  exact both.2

theorem listen_delivered (cfg : Config) (s : State) (r : Pass) : (listen cfg s r).delivered = s.delivered := by
  unfold listen
  split
  · rfl
  · rfl
  · rfl
  · split
    · dsimp only
      split <;> rfl
    · rfl

/-- Only a window that has elapsed delivers. -/
theorem iteration_delivered (cfg : Config) (early : ¬ (s.windowEnd.any fun end_ => decide (end_ ≤ r.now)) = true) :
    (iteration cfg s r).delivered = s.delivered := by
  unfold iteration
  rw [if_neg early]
  dsimp only
  split
  · split <;> rfl
  · unfold pollOrListen
    dsimp only
    split
    · split
      · rfl
      · exact listen_delivered ..
    · exact listen_delivered ..

/-- The pass that delivers a batch. -/
theorem delivers_fire (cfg : Config) (enabled : step cfg s r = some s') (sent : s'.delivered ≠ s.delivered) :
    s' = { s with
      windowEnd := none
      pending := []
      identity := refreshed r.stat (r.order s.pending) s.identity
      delivered := s.delivered ++ [r.order s.pending] } ∧ s'.running = true ∧ statted cfg s r = r.order s.pending := by
  obtain ⟨running,rfl⟩ := Option.ite_some_none_eq_some.mp enabled
  by_cases due : (s.windowEnd.any fun end_ => decide (end_ ≤ r.now)) = true
  · unfold iteration statted at *
    rw [if_pos due] at sent ⊢
    unfold fire at sent ⊢
    by_cases none_ : s.pending = []
    · rw [if_pos none_] at sent
      exact absurd rfl sent
    · rw [if_neg none_] at sent ⊢
      dsimp only at sent ⊢
      by_cases alive : r.alive = true
      · rw [if_pos alive]
        exact ⟨rfl,running,if_pos due⟩
      · rw [if_neg alive] at sent
        exact absurd rfl sent
  · exact absurd (iteration_delivered cfg due) sent

/-- The delivered paths that the cache has are read again, and no others. -/
theorem refreshed_cases (files : Files) (reads : Reads files r changed) (identity : Path → Option (Option FileIdentity))
    (p : Path) :
    (p ∈ changed ∧ (identity p).isSome = true → refreshed r.stat changed identity p = some (files p)) ∧
    (¬ (p ∈ changed ∧ (identity p).isSome = true) → refreshed r.stat changed identity p = identity p) := by
  have fold (pairs : List (Path × Nat)) (stats : ∀ e ∈ pairs, r.stat e.2 = files e.1)
      (identity : Path → Option (Option FileIdentity)) :
      let after := pairs.foldl (fun identity e =>
        if (identity e.1).isSome then Function.update identity e.1 (some (r.stat e.2)) else identity) identity
      (p ∈ pairs.map Prod.fst ∧ (identity p).isSome = true → after p = some (files p)) ∧
      (¬ (p ∈ pairs.map Prod.fst ∧ (identity p).isSome = true) → after p = identity p) := by
    induction pairs generalizing identity with
    | nil => simp
    | cons e pairs ih =>
      obtain ⟨w,k⟩ := e
      have first : r.stat k = files w := stats (w,k) List.mem_cons_self
      have rest := ih fun e member => stats e (List.mem_cons_of_mem _ member)
      simp only [List.foldl_cons,List.map_cons,List.mem_cons]
      by_cases tracked : (identity w).isSome = true
      · rw [if_pos tracked]
        obtain ⟨again,kept⟩ := rest (Function.update identity w (some (r.stat k)))
        by_cases same : p = w
        · subst same
          rw [Function.update_self] at again kept
          rw [first] at again kept ⊢
          refine ⟨fun _ => ?_,fun other => absurd ⟨.inl rfl,tracked⟩ other⟩
          by_cases later : p ∈ pairs.map Prod.fst
          · exact again ⟨later,rfl⟩
          · exact kept fun both => later both.1
        · rw [Function.update_of_ne same] at again kept
          simpa only [same,false_or] using And.intro again kept
      · rw [if_neg tracked]
        obtain ⟨again,kept⟩ := rest identity
        by_cases same : p = w
        · subst same
          exact ⟨fun both => absurd both.2 tracked,fun _ => kept fun both => tracked both.2⟩
        · simpa only [same,false_or] using And.intro again kept
  have pairs := fold changed.zipIdx (fun e member => reads e.2 e.1 (List.mem_zipIdx_iff_getElem?.mp member)) identity
  rw [List.zipIdx_map_fst] at pairs
  exact pairs

section Tracked

/-- A path stays in the cache. -/
theorem update_isSome (identity : Path → Option (Option FileIdentity)) (w : Path) (value : Option FileIdentity)
    (there : p = w ∨ (identity p).isSome = true) : (Function.update identity w (some value) p).isSome = true := by
  by_cases same : p = w
  · subst same
    simp
  · rw [Function.update_of_ne same]
    exact there.resolve_left same

theorem primed_isSome (stat : Nat → Option FileIdentity) (paths : List Path) (member : p ∈ paths) :
    (primed stat paths p).isSome = true := by
  have fold (pairs : List (Path × Nat)) (identity : Path → Option (Option FileIdentity))
      (there : p ∈ pairs.map Prod.fst ∨ (identity p).isSome = true) :
      let after : Path → Option (Option FileIdentity) :=
        pairs.foldl (fun identity e => Function.update identity e.1 (some (stat e.2))) identity
      (after p).isSome = true := by
    induction pairs generalizing identity with
    | nil => simpa using there
    | cons e pairs ih =>
      rw [List.map_cons,List.mem_cons,or_assoc] at there
      apply ih
      rcases there with first | later | old
      · exact .inr (update_isSome identity e.1 _ (.inl first))
      · exact .inl later
      · exact .inr (update_isSome identity e.1 _ (.inr old))
  exact fold paths.zipIdx _ (.inl (by rwa [List.zipIdx_map_fst]))

theorem refreshed_isSome (stat : Nat → Option FileIdentity) (changed : List Path)
    (identity : Path → Option (Option FileIdentity)) (there : (identity p).isSome = true) :
    (refreshed stat changed identity p).isSome = true := by
  unfold refreshed
  generalize changed.zipIdx = pairs
  induction pairs generalizing identity with
  | nil => exact there
  | cons e pairs ih =>
    apply ih
    dsimp only
    split
    · exact update_isSome identity e.1 _ (.inr there)
    · exact there

theorem recoveredChanges_isSome (stat : Nat → Option FileIdentity) (ws : List Path) (k : Nat)
    (identity : Path → Option (Option FileIdentity)) (there : (identity p).isSome = true) :
    ((recoveredChanges stat ws k identity).2 p).isSome = true := by
  induction ws generalizing k identity with
  | nil => exact there
  | cons w ws ih =>
    unfold recoveredChanges
    split
    · exact ih (k + 1) _ (update_isSome identity w _ (.inr there))
    · exact ih (k + 1) identity there

theorem pollChanges_isSome (stat : Nat → Option FileIdentity) (rs : List Path) (k : Nat)
    (cache : Path → Option (Option FileIdentity)) (there : (cache p).isSome = true) :
    ((pollChanges stat rs k cache).2 p).isSome = true := by
  induction rs generalizing k cache with
  | nil => exact there
  | cons r rs ih =>
    have rest := ih (k + 1) _ (update_isSome cache r (stat k) (.inr there))
    unfold pollChanges
    dsimp only
    split <;> exact rest

theorem listen_identity (cfg : Config) (s : State) (r : Pass) : (listen cfg s r).identity = s.identity := by
  unfold listen
  split
  · rfl
  · rfl
  · rfl
  · split
    · dsimp only
      split <;> rfl
    · rfl

theorem iteration_isSome (cfg : Config) (s : State) (r : Pass) (there : (s.identity p).isSome = true) :
    ((iteration cfg s r).identity p).isSome = true := by
  unfold iteration
  split
  · unfold fire
    split
    · exact there
    · dsimp only
      split <;> exact refreshed_isSome _ _ _ there
  · dsimp only
    split
    · split <;> exact recoveredChanges_isSome _ _ _ _ there
    · unfold pollOrListen
      dsimp only
      split
      · split
        · exact pollChanges_isSome _ _ _ _ there
        · rw [listen_identity]
          exact pollChanges_isSome _ _ _ _ there
      · rw [listen_identity]
        exact there

/-- The roots are always in the cache. -/
theorem run_tracked (cfg : Config) (run : Run (step cfg) (start cfg arm stat clock) past s) (member : p ∈ cfg.roots) :
    (s.identity p).isSome = true := by
  apply run.always (P := fun s => (s.identity p).isSome = true) (primed_isSome stat cfg.roots member)
  intro s r s' there enabled
  obtain ⟨_,rfl⟩ := Option.ite_some_none_eq_some.mp enabled
  exact iteration_isSome cfg s r there

end Tracked

theorem refreshed_iff (files : Files) (r : Pass) (s : State) (reads : Reads files r (r.order s.pending)) (p : Path) :
    refreshed r.stat (r.order s.pending) s.identity p = some (files p) ↔
      s.identity p = some (files p) ∨ p ∈ s.pending ∧ (s.identity p).isSome = true := by
  obtain ⟨again,kept⟩ := refreshed_cases files reads s.identity p
  rw [(r.perm s.pending).mem_iff] at again kept
  by_cases named : p ∈ s.pending ∧ (s.identity p).isSome = true
  · exact iff_of_true (again named) (.inr named)
  · rw [kept named]
    simp only [named,or_false]

/-- A batch settles what it accounts for. -/
theorem fire_settled_iff (cfg : Config) (files : Files) (s : State) (r : Pass) (reads : Reads files r (r.order s.pending))
    (tracked : ∀ p ∈ cfg.roots, (s.identity p).isSome = true) :
    Settled cfg files { s with
      windowEnd := none
      pending := []
      identity := refreshed r.stat (r.order s.pending) s.identity
      delivered := s.delivered ++ [r.order s.pending] } ↔ Accounted cfg files s := by
  have iff := refreshed_iff files r s reads
  constructor
  · intro settled
    refine ⟨fun p member => ?_,fun f member watched => (iff f.1).mp (settled.arms f member watched)⟩
    exact ((iff p).mp (settled.roots p member)).imp_right And.left
  · intro accounted
    refine ⟨rfl,fun p member => ?_,fun f member watched => (iff f.1).mpr (accounted.arms f member watched)⟩
    exact (iff p).mpr ((accounted.roots p member).imp_right fun named => ⟨named,tracked p member⟩)

section Again

def stillPass (files : Files) (paths : List Path) (now : Nat) : Pass :=
  ⟨now,fun _ => now,fun _ => true,fun k => (paths[k]?).bind files,id,List.Perm.refl,true,.timeout⟩

theorem stillPass_reads (files : Files) (paths : List Path) (now : Nat) : Reads files (stillPass files paths now) paths := by
  intro k p here
  simp [stillPass,here]

theorem stillPass_still (files : Files) (now : Nat) (same : statted cfg s (stillPass files paths now) = paths) :
    Still cfg files s (stillPass files paths now) where
  reads := by
    rw [same]
    exact stillPass_reads files paths now
  silent := by simp [stillPass]

/-- The passes after a batch deliver another one. -/
def Again (cfg : Config) (files : Files) (m : State) : Prop :=
  ∃ later s, Run (step cfg) m later s ∧ (∀ u ∈ later, Still cfg files u.pre u.event) ∧ s.delivered ≠ m.delivered

theorem Again.of_step (enabled : step cfg m r = some m') (still : Still cfg files m r) (same : m'.delivered = m.delivered)
    (again : Again cfg files m') : Again cfg files m := by
  obtain ⟨later,s,run,quiet,more⟩ := again
  refine ⟨_,s,.cons enabled run,List.forall_mem_cons.mpr ⟨still,quiet⟩,?_⟩
  rw [← same]
  exact more

/-- Noted changes are delivered when their window has elapsed. -/
theorem again_of_noted (cfg : Config) (files : Files) (m : State) (running : m.running = true) (some_ : m.pending ≠ [])
    (window : m.windowEnd = some end_) : Again cfg files m := by
  let r := stillPass files m.pending end_
  have due : (m.windowEnd.any fun end_ => decide (end_ ≤ r.now)) = true := by simp [window,r,stillPass]
  have same : statted cfg m r = m.pending := by
    unfold statted
    rw [if_pos due]
    rfl
  have enabled : step cfg m r = some (fire m r) := by
    unfold step iteration
    rw [if_pos running,if_pos due]
  have sent : (fire m r).delivered = m.delivered ++ [m.pending] := by
    unfold fire
    rw [if_neg some_]
    rfl
  refine ⟨_,_,.one enabled,List.forall_mem_singleton.mpr (stillPass_still files end_ same),?_⟩
  rw [sent]
  simp

theorem again_of_note (cfg : Config) (files : Files) (m : State) (r : Pass) (running : m.running = true)
    (changed : List Path) (member : p ∈ changed) : Again cfg files (m.note cfg r changed) :=
  again_of_noted cfg files _ running (List.ne_nil_of_mem (note_pending m cfg r changed member)) rfl

theorem mem_pollChanges (files : Files) (stat : Nat → Option FileIdentity) (rs : List Path) (k : Nat)
    (cache : Path → Option (Option FileIdentity)) (reads : ∀ i p, rs[i]? = some p → stat (k + i) = files p)
    (member : p ∈ rs) (differs : cache p ≠ some (files p)) : p ∈ (pollChanges stat rs k cache).1 := by
  induction rs generalizing k cache with
  | nil => simp at member
  | cons r rs ih =>
    have first : stat k = files r := reads 0 r rfl
    unfold pollChanges
    dsimp only
    by_cases same : p = r
    · subst same
      rw [if_pos (by rwa [first])]
      exact List.mem_cons_self
    · have later : p ∈ (pollChanges stat rs (k + 1) (Function.update cache r (some (stat k)))).1 := by
        apply ih (k + 1)
        · intro i q here
          rw [Nat.add_right_comm]
          exact reads (i + 1) q here
        · exact (List.mem_cons.mp member).resolve_left same
        · rwa [Function.update_of_ne same]
      split
      · exact List.mem_cons_of_mem _ later
      · exact later

/-- With no watch to arm, the next poll finds a root that differs from the cache. -/
theorem again_of_root (cfg : Config) (files : Files) (m : State) (running : m.running = true) (window : m.windowEnd = none)
    (armed : m.failed = []) (member : p ∈ cfg.roots) (differs : m.identity p ≠ some (files p)) : Again cfg files m := by
  let r := stillPass files cfg.roots m.nextPoll
  have early : ¬ (m.windowEnd.any fun end_ => decide (end_ ≤ r.now)) = true := by simp [window]
  have none_ : recovered r m.failed = [] := by rw [armed]; rfl
  have same : statted cfg m r = cfg.roots := by
    unfold statted
    rw [if_neg early,if_neg (not_not.mpr none_)]
  have found : p ∈ (pollChanges r.stat cfg.roots 0 m.identity).1 := by
    apply mem_pollChanges files r.stat cfg.roots 0 m.identity _ member differs
    intro i q here
    rw [Nat.zero_add]
    exact stillPass_reads files cfg.roots m.nextPoll i q here
  let polled : State := { m with
    failed := stillFailed r m.failed
    nextPoll := r.now + pollInterval
    identity := (pollChanges r.stat cfg.roots 0 m.identity).2 }
  have tick : m.nextPoll ≤ r.now := Nat.le_refl _
  have enabled : step cfg m r = some (polled.note cfg r (pollChanges r.stat cfg.roots 0 m.identity).1) := by
    unfold step
    rw [if_pos running,iteration_proceeds cfg ⟨early,none_⟩]
    unfold pollOrListen
    rw [if_pos tick]
    dsimp only
    rw [if_pos (List.ne_nil_of_mem found)]
  exact Again.of_step enabled (stillPass_still files _ same) rfl (again_of_note cfg files polled r running _ found)

theorem recovered_all (r : Pass) (failed : List (Path × RecursiveMode × Nat)) (due : ∀ f ∈ failed, f.2.2 ≤ r.now)
    (arms : ∀ k, r.arm k = true) : recovered r failed = failed.map Prod.fst ∧ stillFailed r failed = [] := by
  have each (pairs : List ((Path × RecursiveMode × Nat) × Nat)) (due : ∀ e ∈ pairs, e.1.2.2 ≤ r.now) :
      pairs.filterMap (fun e => if r.now < e.1.2.2 then none else if r.arm e.2 then some e.1.1 else none) =
        pairs.map (fun e => e.1.1) ∧
      pairs.filterMap (fun e => if r.now < e.1.2.2 then some (e.1.1,e.1.2.1,e.1.2.2)
        else if r.arm e.2 then none else some (e.1.1,e.1.2.1,r.now + watchRetryDelay)) = [] := by
    induction pairs with
    | nil => exact ⟨rfl,rfl⟩
    | cons e pairs ih =>
      obtain ⟨⟨p,mode,at_⟩,k⟩ := e
      have late : ¬ r.now < at_ := Nat.not_lt.mpr (due _ List.mem_cons_self)
      obtain ⟨first,second⟩ := ih fun e member => due e (List.mem_cons_of_mem _ member)
      simp [late,arms k,first,second]
  have all := each failed.zipIdx fun e member => due e.1 (List.fst_mem_of_mem_zipIdx member)
  have firsts : failed.zipIdx.map (fun e => e.1.1) = failed.map Prod.fst := by
    rw [← List.zipIdx_map_fst 0 failed,List.map_map,List.zipIdx_map_fst]
    rfl
  rw [firsts] at all
  exact all

/-- What a watch that is armed again reports, if anything. -/
theorem recoveredChanges_nil (stat : Nat → Option FileIdentity) (ws : List Path)
    (identity : Path → Option (Option FileIdentity)) (none_ : (recoveredChanges stat ws 0 identity).1 = []) :
    (recoveredChanges stat ws 0 identity).2 = identity ∧ ∀ i p, ws[i]? = some p → identity p = some (stat i) := by
  have same (i p) (here : ws[i]? = some p) : identity p = some (stat i) := by
    by_contra differs
    have found := mem_recoveredChanges stat ws 0 i identity here (by rwa [Nat.zero_add])
    rw [none_] at found
    simp at found
  refine ⟨?_,same⟩
  rw [recoveredChanges_same stat ws 0 identity fun i p here => by rw [Nat.zero_add]; exact same i p here]

theorem exists_after (times : List Nat) : ∃ now, ∀ t ∈ times, t ≤ now := by
  induction times with
  | nil => exact ⟨0,by simp⟩
  | cons t times ih =>
    obtain ⟨now,after⟩ := ih
    refine ⟨max t now,List.forall_mem_cons.mpr ⟨Nat.le_max_left ..,fun u member => ?_⟩⟩
    exact Nat.le_trans (after u member) (Nat.le_max_right ..)

/-- If the cache differs from the files somewhere, the watches that are armed again or the poll
report it. -/
theorem again_of_stale (cfg : Config) (files : Files) (m : State) (running : m.running = true)
    (window : m.windowEnd = none) (stale : ¬ Settled cfg files m) : Again cfg files m := by
  by_cases armed : m.failed = []
  · have differs : ∃ p ∈ cfg.roots, m.identity p ≠ some (files p) := by
      by_contra all
      push Not at all
      exact stale ⟨window,all,by simp [armed]⟩
    obtain ⟨p,member,differs⟩ := differs
    exact again_of_root cfg files m running window armed member differs
  · obtain ⟨now,late⟩ := exists_after (m.failed.map fun f => f.2.2)
    let paths := (m.failed.map Prod.fst).flatMap (relevantPaths · cfg.roots)
    let r := stillPass files paths now
    have early : ¬ (m.windowEnd.any fun end_ => decide (end_ ≤ r.now)) = true := by simp [window]
    obtain ⟨all,none_⟩ := recovered_all r m.failed (fun f member => late _ (List.mem_map_of_mem member)) fun _ => rfl
    have some_ : recovered r m.failed ≠ [] := by
      rw [all]
      simpa using armed
    have same : statted cfg m r = paths := by
      unfold statted
      rw [if_neg early,if_pos some_,all]
    let m' : State := { m with failed := [], identity := (recoveredChanges r.stat paths 0 m.identity).2 }
    have iterated : iteration cfg m r =
        if (recoveredChanges r.stat paths 0 m.identity).1 = [] then m'
        else m'.note cfg r (recoveredChanges r.stat paths 0 m.identity).1 := by
      unfold iteration
      rw [if_neg early]
      dsimp only
      rw [if_pos some_,all,none_]
    have enabled : step cfg m r = some (iteration cfg m r) := if_pos running
    rw [iterated] at enabled
    by_cases changed : (recoveredChanges r.stat paths 0 m.identity).1 = []
    · -- the watches report nothing, so what differs is a root
      obtain ⟨kept,equal⟩ := recoveredChanges_nil r.stat paths m.identity changed
      rw [if_pos changed] at enabled
      have differs : ∃ p ∈ cfg.roots, m'.identity p ≠ some (files p) := by
        by_contra fine
        push Not at fine
        rw [show m'.identity = m.identity from kept] at fine
        refine stale ⟨window,fine,fun f member watched => ?_⟩
        have relevant : f.1 ∈ paths := List.mem_flatMap.mpr
          ⟨f.1,List.mem_map_of_mem member,(mem_relevantPaths ..).mpr ⟨rfl,watched⟩⟩
        obtain ⟨i,here⟩ := List.mem_iff_getElem?.mp relevant
        rw [equal i _ here,stillPass_reads files paths now i _ here]
      obtain ⟨p,member,differs⟩ := differs
      exact Again.of_step enabled (stillPass_still files now same) rfl
        (again_of_root cfg files m' running window rfl member differs)
    · rw [if_neg changed] at enabled
      obtain ⟨p,rest,eq⟩ := List.exists_cons_of_ne_nil changed
      have member : p ∈ (recoveredChanges r.stat paths 0 m.identity).1 := by simp [eq]
      exact Again.of_step enabled (stillPass_still files now same) rfl (again_of_note cfg files m' r running _ member)

end Again

/-- After a batch, with the files at rest and no event to come, there is no other batch exactly if
the batch accounts for all that has changed: every root that is not as the cache has it is named
itself, not only files under it, and so is every other watch that has yet to be armed. -/
theorem one_signal_iff (cfg : Config) (arm : Nat → Bool) (stat : Nat → Option FileIdentity) (clock : Nat → Nat)
    (before : List (Taken State Pass)) (t : Taken State Pass)
    (run : Run (step cfg) (start cfg arm stat clock) (before ++ [t]) t.post) (files : Files)
    (sent : t.post.delivered ≠ t.pre.delivered) (reads : Reads files t.event (statted cfg t.pre t.event)) :
    (∀ later s, Run (step cfg) t.post later s → (∀ u ∈ later, Still cfg files u.pre u.event) →
      s.delivered = t.post.delivered) ↔ Accounted cfg files t.pre := by
  obtain ⟨reach,enabled,_⟩ := run.last
  obtain ⟨fired,running,statted_⟩ := delivers_fire cfg enabled sent
  rw [statted_] at reads
  rw [← fire_settled_iff cfg files t.pre t.event reads fun p member => run_tracked cfg reach member,← fired]
  constructor
  · intro never
    by_contra stale
    obtain ⟨later,s,rest,still,more⟩ := again_of_stale cfg files t.post running (by rw [fired]) stale
    exact more (never later s rest still)
  · intro settled later s rest still
    exact run_settled settled rest still

/-- A pass that finds everything that it reads as `seen`. -/
theorem quietPass_reads (now : Nat) (seen : Option FileIdentity) (idle : Idle) (paths : List Path) :
    Reads (fun _ => seen) (quietPass now seen idle) paths := fun _ _ _ => rfl

/-- The watched binary is replaced by a rename: the batch names it, and the watch that is armed
again has nothing to add. -/
theorem one_signal_rename : ∃ before t, Run (step ⟨[["srv","bin"]],2 * second,1000 * second⟩)
      (start ⟨[["srv","bin"]],2 * second,1000 * second⟩ (fun _ => true) (fun _ => some ⟨7,1,some 10⟩) fun _ => 0)
      (before ++ [t]) t.post ∧ t.post.delivered = [[["srv","bin"]]] ∧
    ∀ later s, Run (step ⟨[["srv","bin"]],2 * second,1000 * second⟩) t.post later s →
      (∀ u ∈ later, Still ⟨[["srv","bin"]],2 * second,1000 * second⟩ (fun _ => some ⟨8,2,some 20⟩) u.pre u.event) →
      s.delivered = [[["srv","bin"]]] := by
  let cfg : Config := ⟨[["srv","bin"]],2 * second,1000 * second⟩
  let seen : Option FileIdentity := some ⟨8,2,some 20⟩
  obtain ⟨before,t,after,s,run,event,none_,pending,tracked,failed,old,sent⟩ := exists_run_cut (step cfg)
    (start cfg (fun _ => true) (fun _ => some ⟨7,1,some 10⟩) fun _ => 0)
    [quietPass (1 * second) seen (.event ⟨.modify .name,[["srv","bin"]]⟩)] (quietPass (3 * second) seen .timeout) []
    (fun _ t after _ => after.isEmpty = true ∧ t.pre.pending = [["srv","bin"]] ∧
      (t.pre.identity ["srv","bin"]).isSome = true ∧ (∀ f ∈ t.pre.failed, f.1 = ["srv","bin"]) ∧
      t.pre.delivered = [] ∧ t.post.delivered = [[["srv","bin"]]]) (by decide +kernel)
  obtain rfl := List.isEmpty_iff.mp none_
  obtain rfl := run.last.2.2
  have accounted : Accounted cfg (fun _ => seen) t.pre := by
    refine ⟨fun p member => .inr ?_,fun f member _ => .inr ?_⟩
    · rwa [pending]
    · rw [failed f member,pending]
      exact ⟨List.mem_singleton_self _,tracked⟩
  have never := (one_signal_iff cfg (fun _ => true) (fun _ => some ⟨7,1,some 10⟩) (fun _ => 0) before t run (fun _ => seen)
    (by simp [old,sent]) (by rw [event]; exact quietPass_reads _ _ _ _)).mpr accounted
  refine ⟨before,t,run,sent,fun later s rest still => ?_⟩
  rw [never later s rest still,sent]

/-- A file appears in a watched directory: the batch names the file, and the poll then finds the
directory changed and reports it once more. -/
theorem directory_reported_again : ¬ ∀ (cfg : Config) (arm : Nat → Bool) (stat : Nat → Option FileIdentity)
    (clock : Nat → Nat) (before : List (Taken State Pass)) (t : Taken State Pass),
    Run (step cfg) (start cfg arm stat clock) (before ++ [t]) t.post → ∀ files : Files,
    t.post.delivered ≠ t.pre.delivered → Reads files t.event (statted cfg t.pre t.event) →
    ∀ later s, Run (step cfg) t.post later s → (∀ u ∈ later, Still cfg files u.pre u.event) →
      s.delivered = t.post.delivered := by
  intro holds
  let cfg : Config := ⟨[["srv","app"]],2 * second,1000 * second⟩
  let seen : Option FileIdentity := some ⟨7,2,some 20⟩
  obtain ⟨before,t,after,s,run,event,none_,old,sent,running,window,cached⟩ := exists_run_cut (step cfg)
    (start cfg (fun _ => true) (fun _ => some ⟨7,1,some 10⟩) fun _ => 0)
    [quietPass (1 * second) seen (.event ⟨.create,[["srv","app","new"]]⟩)] (quietPass (3 * second) seen .timeout) []
    (fun _ t after _ => after.isEmpty = true ∧ t.pre.delivered = [] ∧ t.post.delivered = [[["srv","app","new"]]] ∧
      t.post.running = true ∧ t.post.windowEnd = none ∧
      t.post.identity ["srv","app"] = some (some ⟨7,1,some 10⟩)) (by decide +kernel)
  obtain rfl := List.isEmpty_iff.mp none_
  obtain rfl := run.last.2.2
  have stale : ¬ Settled cfg (fun _ => seen) t.post := by
    intro settled
    have same := settled.roots ["srv","app"] (List.mem_singleton_self _)
    rw [cached] at same
    exact absurd same (by decide)
  obtain ⟨later,s,rest,still,more⟩ := again_of_stale cfg (fun _ => seen) t.post running window stale
  exact more (holds cfg _ _ _ before t run (fun _ => seen) (by simp [old,sent]) (by rw [event]; exact quietPass_reads _ _ _ _)
    later s rest still)

end Malkuth.Watcher
