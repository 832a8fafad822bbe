import Malkuth.Supervise

/-! What a drain leaves behind of a supervised worker: at most one more child, no child
that nobody waited for, and a last fleet entry that says so. The drain bit is only
looked at between two children, so a spawn may still follow it. -/
namespace Malkuth.Supervise

open Malkuth.Fleet Malkuth.Lifecycle Transition

def Event.spawns : Event → Bool
  | .act (.spawned _) => true
  | _ => false

/-- A wait on a child returned an error, in the `select!` or in `stop_draining`. -/
def Event.reapFails : Event → Bool
  | .act (.waitError _) | .act .stopWaitError => true
  | _ => false

/-- One spawn may follow the check of the drain bit that was made just before. -/
def Point.aboutToSpawn : Point → Nat
  | .spawning => 1
  | _ => 0

theorem step_draining (cfg : Config) (s : World) (e : Event) (s' : World)
    (bit : s.drain.draining = true) (taken : step cfg s e = some s') :
    s'.drain.draining = true ∧
    e.spawns.toNat + s'.worker.point.aboutToSpawn ≤ s.worker.point.aboutToSpawn := by
  rcases step_cases cfg s s' e taken with ⟨a,w,rfl,acts,rfl⟩ | outside
  · refine ⟨bit,?_⟩
    cases acts
    case proceed here clear => simp [bit] at clear
    case stopReaped why _ _ here | stopWaitError why _ _ here =>
      cases why <;> simp [Event.spawns,Point.aboutToSpawn,Worker.stopped]
    all_goals simp_all [Event.spawns,Point.aboutToSpawn]
  · refine ⟨outside.draining.mpr (.inl bit),?_⟩
    rw [outside.point]
    have foreign := outside.foreign
    cases e <;> simp_all [Event.spawns]

/-- From a state with the bit set on, whatever happens, at most one child is spawned. -/
theorem run_draining (cfg : Config) (run : Run (step cfg) m later s) (bit : m.drain.draining = true) :
    s.drain.draining = true ∧
    later.countP (fun t => t.event.spawns) + s.worker.point.aboutToSpawn ≤ m.worker.point.aboutToSpawn := by
  induction run with
  | nil => exact ⟨bit,by simp⟩
  | @snoc later s e s' _ taken ih =>
    obtain ⟨bit',count⟩ := ih
    obtain ⟨bit'',gain⟩ := step_draining cfg s e s' bit' taken
    refine ⟨bit'',?_⟩
    simp only [List.countP_append,List.countP_singleton]
    cases spawns : e.spawns <;> simp only [spawns,Bool.toNat_true,Bool.toNat_false] at gain ⊢ <;>
      simp <;> omega

theorem aboutToSpawn_le (p : Point) : p.aboutToSpawn ≤ 1 := by
  cases p <;> simp [Point.aboutToSpawn]

/-- Points at which the iteration's child has not been waited for. -/
def Point.hasChild : Point → Bool
  | .publishRunning | .selecting | .publishRestarting .operator | .publishDraining _
  | .stopping _ _ _ => true
  | _ => false

/-- While no wait fails, the only child not reaped is the current iteration's. -/
def Accounted (s : World) : Prop :=
  if s.worker.point.hasChild then
    ∃ pid, s.worker.child = some pid ∧ s.worker.children = [pid]
  else s.worker.children = []

theorem step_accounted (cfg : Config) (s : World) (e : Event) (s' : World) (valid : Accounted s)
    (waited : e.reapFails = false) (taken : step cfg s e = some s') : Accounted s' := by
  rcases step_cases cfg s s' e taken with ⟨a,w,rfl,acts,rfl⟩ | outside
  · cases acts
    case waitError here => simp [Event.reapFails] at waited
    case stopWaitError here => simp [Event.reapFails] at waited
    case stopReaped why _ _ here =>
      obtain ⟨pid,child,children⟩ : ∃ pid, s.worker.child = some pid ∧ s.worker.children = [pid] := by
        simpa [Accounted,here,Point.hasChild] using valid
      cases why <;> simp [Accounted,Worker.stopped,Point.hasChild,child,children]
    case exitRestarted here retry =>
      obtain ⟨pid,child,children⟩ : ∃ pid, s.worker.child = some pid ∧ s.worker.children = [pid] := by
        simpa [Accounted,here,Point.hasChild] using valid
      simp [Accounted,Point.hasChild,child,children]
    case exitLeft here never =>
      obtain ⟨pid,child,children⟩ : ∃ pid, s.worker.child = some pid ∧ s.worker.children = [pid] := by
        simpa [Accounted,here,Point.hasChild] using valid
      simp [Accounted,Point.hasChild,child,children]
    all_goals simp_all [Accounted,Point.hasChild]
  · rw [Accounted,outside.worker]
    exact valid

/-- With a sink the worker is registered from its first step on, and its return leaves
the final entry. -/
structure Published (cfg : Config) (s : World) : Prop where
  registered : cfg.sink = true → s.worker.point ≠ .entering → s.worker.entry.isSome = true
  final : ∀ info entry, s.worker.point = .returned info → s.worker.entry = some entry →
    entry.snapshot.phase = .stopped ∧ entry.snapshot.pid = none ∧
    entry.snapshot.restartCount = info.restartCount

theorem step_published (cfg : Config) (s : World) (e : Event) (s' : World) (valid : Published cfg s)
    (taken : step cfg s e = some s') : Published cfg s' := by
  rcases step_cases cfg s s' e taken with ⟨a,w,rfl,acts,rfl⟩ | outside
  · have registered := valid.registered
    constructor
    · intro sink inside
      cases acts
      case register here => simp [sink]
      case stopReaped why _ _ here | stopWaitError why _ _ here => cases why <;> simp_all [Worker.stopped]
      all_goals simp_all
    · intro info entry returned last
      cases acts
      case finished here =>
        obtain ⟨before,_,rfl⟩ := Option.map_eq_some_iff.mp last
        obtain rfl : _ = info := by simpa using returned
        exact ⟨rfl,rfl,rfl⟩
      case stopReaped why _ _ here | stopWaitError why _ _ here => cases why <;> simp [Worker.stopped] at returned
      all_goals simp_all
  · constructor
    · rw [outside.worker]; exact valid.registered
    · rw [outside.worker]; exact valid.final

theorem run_published (cfg : Config) (run : Run (step cfg) (initial now) past s) : Published cfg s :=
  run.always ⟨by simp [initial,Worker.initial],by simp [initial,Worker.initial]⟩ (step_published cfg)

/-- Drain safety of one supervised worker, in every run and at every return. -/
theorem drain_safety (cfg : Config) (now : Nat) (past : List (Taken World Event)) (s : World)
    (run : Run (step cfg) (initial now) past s) :
    (∀ before t after, past = before ++ t :: after → t.event = .storeDraining →
      after.countP (fun u => u.event.spawns) ≤ 1) ∧
    ∀ info, s.worker.point = .returned info →
      ((∀ t ∈ past, t.event.reapFails = false) → s.worker.children = []) ∧
      (cfg.sink = true → ∃ entry, s.worker.entry = some entry ∧ entry.snapshot.phase = .stopped ∧
        entry.snapshot.pid = none ∧ entry.snapshot.restartCount = info.restartCount) := by
  constructor
  · rintro before t after rfl sets
    obtain ⟨_,taken,rest⟩ := run.split
    have bit : t.post.drain.draining = true := by
      rcases step_cases cfg _ _ _ taken with ⟨a,_,act,_,_⟩ | outside
      · simp [sets] at act
      · exact outside.draining.mpr (.inr sets)
    have count := (run_draining cfg rest bit).2
    have most := aboutToSpawn_le t.post.worker.point
    omega
  · intro info returned
    constructor
    · intro waited
      have valid := run.invariant (P := Accounted) (by simp [Accounted,initial,Worker.initial,Point.hasChild])
        (fun s e s' valid waited taken => step_accounted cfg s e s' valid waited taken) waited
      simpa [Accounted,returned,Point.hasChild] using valid
    · intro sink
      have valid := run_published cfg run
      obtain ⟨entry,last⟩ := Option.isSome_iff_exists.mp (valid.registered sink (by simp [returned]))
      exact ⟨entry,last,valid.final info entry returned last⟩

/-- The drain arrives between the check and the spawn; the child it lets through is
killed after its grace and reaped. -/
theorem drain_safety_late_spawn : ∃ past s info, Run (step (api .permanent)) (initial 0) past s ∧
    s.worker.point = .returned info ∧ past.countP (fun t => t.event.spawns) = 1 ∧
    s.worker.children = [] := by
  obtain ⟨past,s,run,returned,spawns,waited⟩ := exists_run (step (api .permanent)) (initial 0)
    [.act .register,.act .checkDrain,.storeKind .immediate,.storeDraining,.act (.spawned 101),
      .act (.publish 0 none),.act .drainBranch,.act (.publish 0 none),.tick (secs 1),
      .act .stopTimeout,.act .stopReaped,.act (.publish 0 none)]
    (fun past s => s.worker.point = .returned (s.worker.info (api .permanent)) ∧
      past.countP (fun t => t.event.spawns) = 1 ∧ ∀ t ∈ past, t.event.reapFails = false) (by decide +kernel)
  exact ⟨past,s,_,run,returned,spawns,((drain_safety _ 0 past s run).2 _ returned).1 waited⟩

end Malkuth.Supervise
