import Malkuth.SupervisePublished

/-! The restart count a worker publishes, against the one `supervise_one` keeps. The count
moves in three places: twice right before it is published, and once after the entry of a
failed spawn has been published with the old one. -/
namespace Malkuth.Supervise

open Malkuth.Fleet Transition

theorem bump_ne (count : Nat) : bump count ≠ count := by
  unfold bump
  omega

/-- Points between `restart_count += 1` and the update that publishes it. -/
def Point.counting : Point → Bool
  | .publishRestarting _ => true
  | _ => false

/-- The entry of a running worker shows the count that its `WorkerInfo` would. -/
def ExactCount (s : World) : Prop :=
  ∀ entry, s.worker.entry = some entry → entry.snapshot.phase = .running →
    s.worker.point.counting = false → entry.snapshot.restartCount = s.worker.restartCount

/-- How far the published count is behind, where the control is; `failed` says that an
attempt to spawn has failed and no child has been published since. -/
def CountAt (failed : Bool) (point : Point) (count : Nat) (shown : WorkerSnapshot) : Prop :=
  match point with
  | .entering => False
  | .loopHead | .spawning | .publishRunning => shown.phase ≠ .running ∧
      (if failed then bump shown.restartCount else shown.restartCount) = count
  | .publishSpawnFailure => failed = true ∧ shown.phase ≠ .running
  | .limiting .spawnFailure => failed = true ∧ shown.phase ≠ .running ∧
      shown.restartCount = count
  | .limiting .ended | .stopping .restart _ _ => failed = false ∧ shown.phase ≠ .running ∧
      shown.restartCount = count
  | .selecting | .publishDraining _ | .stopping .drain _ _ => failed = false ∧
      shown.restartCount = count
  | .publishRestarting _ => failed = false ∧ bump shown.restartCount = count
  | .cooling _ | .finishing | .returned _ => shown.phase = .running →
      shown.restartCount = count

structure Counted (failed : Bool) (s : World) : Prop where
  entering : s.worker.point = .entering → failed = false ∧ s.worker.restartCount = 0
  published : ∀ entry, s.worker.entry = some entry →
    CountAt failed s.worker.point s.worker.restartCount entry.snapshot

def failedSpawn (past : List (Taken World Event)) : Bool := past.any fun t => t.event.failsToSpawn

@[simp] theorem failedSpawn_snoc (past : List (Taken World Event)) (t : Taken World Event) :
    failedSpawn (past ++ [t]) = (failedSpawn past || t.event.failsToSpawn) := by
  simp [failedSpawn]

theorem Counted.exact (counted : Counted failed s) : ExactCount s := by
  intro entry known running settled
  have shown := counted.published entry known
  cases point : s.worker.point with
  | limiting site => cases site <;> simp_all [CountAt]
  | stopping why deadline killed => cases why <;> simp_all [CountAt]
  | _ => simp_all [CountAt,Point.counting]

/-- The count stays where `CountAt` has it, unless a child comes up after a failed spawn. -/
theorem step_counted (cfg : Config) (s : World) (e : Event) (s' : World) (counted : Counted failed s)
    (taken : step cfg s e = some s') (fresh : failed = false ∨ publishesRunning ⟨s,e,s'⟩ = false) :
    Counted (failed || e.failsToSpawn) s' := by
  obtain ⟨entering,published⟩ := counted
  rcases step_cases cfg s s' e taken with ⟨a,w,rfl,acts,rfl⟩ | outside
  · cases acts
    case register here =>
      refine ⟨by simp,fun entry known => ?_⟩
      obtain ⟨rfl,zero⟩ := entering here
      by_cases sink : cfg.sink = true
      · obtain rfl : FleetEntry.register cfg.spec = entry := by simpa [sink] using known
        simp [CountAt,FleetEntry.register,zero,Event.failsToSpawn]
      · have before := published entry (by simpa [sink] using known)
        simp [CountAt,here] at before
    case running wall start here =>
      refine ⟨by simp,fun entry known => ?_⟩
      obtain rfl : failed = false := fresh.resolve_right (by simp [publishesRunning,here])
      obtain ⟨before,shown,rfl⟩ := Option.map_eq_some_iff.mp known
      have shown := published before shown
      simp_all [CountAt,FleetEntry.running,Event.failsToSpawn]
    case stopReaped why _ _ here | stopWaitError why _ _ here =>
      cases why <;> refine ⟨by simp [Worker.stopped],fun entry known => ?_⟩ <;>
        have shown := published entry known <;> simp_all [CountAt,Worker.stopped,Event.failsToSpawn]
    case stopTimeout why _ here _ =>
      cases why <;> refine ⟨by simp,fun entry known => ?_⟩ <;>
        have shown := published entry known <;> simp_all [CountAt,Event.failsToSpawn]
    case spawnRetried here _ | spawnGivenUp here _ | endPublished here | restartPublished here
        | drainPublished here | finished here =>
      refine ⟨by simp,fun entry known => ?_⟩
      obtain ⟨before,shown,rfl⟩ := Option.map_eq_some_iff.mp known
      have shown := published before shown
      simp_all [CountAt,FleetEntry.finish,FleetEntry.restarting,FleetEntry.draining,Event.failsToSpawn]
    case tripped site here _ =>
      refine ⟨by simp,fun entry known => ?_⟩
      have shown := published entry known
      cases site <;> simp_all [CountAt]
    all_goals
      refine ⟨by simp_all,fun entry known => ?_⟩
      have shown := published entry known
      simp_all [CountAt,Event.failsToSpawn]
  · have quiet : e.failsToSpawn = false := by
      have foreign := outside.foreign
      cases e <;> simp_all [Event.failsToSpawn]
    rw [quiet,Bool.or_false]
    constructor <;> rw [outside.worker]
    · exact entering
    · exact published

theorem noRevival_snoc (past : List (Taken World Event)) (t : Taken World Event) :
    NoRevival (past ++ [t]) ↔
      NoRevival past ∧ (failedSpawn past = true → publishesRunning t = false) := by
  constructor
  · refine fun dead => ⟨?_,fun failed => ?_⟩
    · rintro before u after rfl fails v member
      exact dead before u (after ++ [t]) (by simp) fails v (by simp [member])
    · obtain ⟨u,member,fails⟩ := List.any_eq_true.mp failed
      obtain ⟨before,after,rfl⟩ := List.append_of_mem member
      exact dead before u (after ++ [t]) (by simp) fails t (by simp)
  · rintro ⟨dead,last⟩ before u after cut fails v member
    rcases List.eq_nil_or_concat after with rfl | ⟨rest,w,rfl⟩
    · simp at member
    · obtain ⟨rfl,rfl⟩ : past = before ++ u :: rest ∧ t = w := by
        have cut : past ++ [t] = (before ++ u :: rest) ++ [w] := by simpa using cut
        simpa using List.append_inj' cut rfl
      rcases List.mem_append.mp (List.concat_eq_append ▸ member) with earlier | final
      · exact dead before u rest rfl fails v earlier
      · obtain rfl := List.mem_singleton.mp final
        exact last (by simp [failedSpawn,fails])

/-- A child that comes up after a failed spawn is published with the count before it. -/
theorem revival_inexact (cfg : Config) (s : World) (e : Event) (s' : World) (counted : Counted true s)
    (registered : s.worker.point ≠ .entering → s.worker.entry.isSome = true)
    (taken : step cfg s e = some s') (revives : publishesRunning ⟨s,e,s'⟩ = true) : ¬ ExactCount s' := by
  obtain ⟨wall,start,rfl,here⟩ : ∃ wall start, e = .act (.publish wall start) ∧
      s.worker.point = .publishRunning := by
    unfold publishesRunning at revives
    split at revives <;> simp_all
  obtain ⟨entry,known⟩ := Option.isSome_iff_exists.mp (registered (by simp [here]))
  have behind := counted.published entry known
  rw [here] at behind
  obtain ⟨w,acts,rfl⟩ : ∃ w, Acts cfg s.now s.drain s.worker (.publish wall start) w ∧
      s' = { s with worker := w } := by
    rcases step_cases cfg s s' _ taken with ⟨a,w,act,acts,eq⟩ | outside
    · obtain rfl := Event.act.inj act
      exact ⟨w,acts,eq⟩
    · exact absurd rfl (outside.foreign _)
  obtain rfl : w = { s.worker.update (.running s.worker.child start wall) with point := .selecting } := by
    cases acts <;> simp_all
  intro exact_
  have same := exact_ (.running s.worker.child start wall entry) (by simp [known]) rfl rfl
  have late : bump entry.snapshot.restartCount = s.worker.restartCount := by
    simpa using behind.2
  exact bump_ne entry.snapshot.restartCount (late.trans same.symm)

theorem run_counted (cfg : Config) (sink : cfg.sink = true) (run : Run (step cfg) (initial now) past s) :
    ((∀ t ∈ past, ExactCount t.post) ↔ NoRevival past) ∧
    (NoRevival past → Counted (failedSpawn past) s) := by
  induction run with
  | nil =>
    refine ⟨?_,fun _ => ⟨fun _ => ⟨rfl,rfl⟩,by simp [initial,Worker.initial]⟩⟩
    simp [NoRevival]
  | @snoc past s e s' before taken ih =>
    obtain ⟨same,counted⟩ := ih
    have registered := (run_published cfg before).registered sink
    rw [noRevival_snoc,List.forall_mem_append,List.forall_mem_singleton,same,failedSpawn_snoc]
    have next : NoRevival past → (failedSpawn past = true → publishesRunning ⟨s,e,s'⟩ = false) →
        Counted (failedSpawn past || e.failsToSpawn) s' := by
      intro dead last
      refine step_counted cfg s e s' (counted dead) taken ?_
      cases failed : failedSpawn past
      · exact .inl rfl
      · exact .inr (last failed)
    refine ⟨and_congr_right fun dead => ⟨fun exact_ failed => ?_,fun last => (next dead last).exact⟩,
      fun both => next both.1 both.2⟩
    by_contra revives
    exact revival_inexact cfg s e s' (failed ▸ counted dead) registered taken (by simpa using revives) exact_

/-- The published restart count of a running worker is its own in every state of a run if
and only if no child is published after a failed attempt to spawn one. -/
theorem counts_exact_iff (cfg : Config) (sink : cfg.sink = true) (now : Nat)
    (past : List (Taken World Event)) (s : World) (run : Run (step cfg) (initial now) past s) :
    (∀ t ∈ past, ExactCount t.post) ↔ NoRevival past :=
  (run_counted cfg sink run).1

/-- Two crashes and an operator's restart are all counted. -/
theorem counts_exact_restarted : ∃ past s, Run (step (api .permanent)) (initial 0) past s ∧
    s.phase = some .running ∧ s.worker.restartCount = 3 ∧ ∀ t ∈ past, ExactCount t.post := by
  obtain ⟨past,s,run,running,count,healthy⟩ := exists_run (step (api .permanent)) (initial 0)
    [.act .register,.act .checkDrain,.act (.spawned 101),.act (.publish 0 none),.act (.childExit false),
      .act (.publish 0 none),.act .limit,.act .checkDrain,.act (.spawned 102),.act (.publish 1 none),
      .act (.childExit true),.act (.publish 1 none),.act .limit,.act .checkDrain,.act (.spawned 103),
      .act (.publish 2 none),.notifyRestart,.act .restartSignalBranch,.act (.publish 2 none),
      .act .stopReaped,.act .checkDrain,.act (.spawned 104),.act (.publish 3 none)]
    (fun past s => s.phase = some .running ∧ s.worker.restartCount = 3 ∧
      ∀ t ∈ past, t.event.failsToSpawn = false) (by decide +kernel)
  refine ⟨past,s,run,running,count,(counts_exact_iff (api .permanent) rfl 0 past s run).mpr ?_⟩
  rintro before t after rfl fails
  simp [healthy t (by simp)] at fails

/-- A permanent worker whose first spawn fails runs with a published count of 0 after
one restart. -/
theorem count_behind : ¬ ∀ cfg : Config, cfg.sink = true → ∀ now past s,
    Run (step cfg) (initial now) past s → ∀ t ∈ past, ExactCount t.post := by
  intro exact_
  obtain ⟨past,s,run,t,member,running,settled,behind⟩ := exists_run (step (api .permanent)) (initial 0)
    [.act .register,.act .checkDrain,.act (.spawnFailed "Resource temporarily unavailable (os error 11)"),
      .act (.publish 0 none),.act .limit,.act .checkDrain,.act (.spawned 101),.act (.publish 0 none)]
    (fun past _ => ∃ t ∈ past, t.post.phase = some .running ∧ t.post.worker.point.counting = false ∧
      t.post.worker.entry.any (fun e => e.snapshot.restartCount ≠ t.post.worker.restartCount) = true)
    (by decide +kernel)
  obtain ⟨entry,known,differs⟩ := (Option.any_eq_true ..).mp behind
  have running : entry.snapshot.phase = .running := by simpa [World.phase,known] using running
  have same := exact_ (api .permanent) rfl 0 past s run t member entry known running settled
  simp [same] at differs

end Malkuth.Supervise
