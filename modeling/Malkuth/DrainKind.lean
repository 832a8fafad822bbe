import Malkuth.DrainThreads

/-! The kind of a drain. The kind and the drain bit are two atomics, and every `begin_drain`
stores its own kind first: a reload, which does not drain, stores its kind over that of a
drain under way, and `clear_drain` its `NONE`. -/
namespace Malkuth.DrainThreads

open Malkuth.Lifecycle Transition

def Thread.inProgress : Thread → Bool
  | .beginDrain _ _ | .clearDrain _ => true
  | _ => false

/-- What a draining controller promises: between calls its kind is one that drains, and no
`wait_for_drain` has returned `Reload`. -/
def Consistent (s : Shared) : Prop :=
  ((∀ i, (s.threads i).inProgress = false) → s.ctrl.draining = true →
    s.ctrl.kind = some .graceful ∨ s.ctrl.kind = some .immediate) ∧
  ∀ i, s.threads i ≠ .waitFor .drain (.returned .reload)

/-- A `begin_drain` that has stored its kind and is still to set the bit. -/
def Thread.committed : Thread → Bool
  | .beginDrain kind .notifyKind => kind.causesDrain
  | .beginDrain _ .storeDraining => true
  | _ => false

/-- A kind that does not drain is stored only while the bit is clear and no `begin_drain` is
about to set it; and `Reload` only while no `wait_for_drain` is about to read the kind. -/
def Careful (s : Shared) : Event → Prop
  | .move i =>
    match s.threads i with
    | .beginDrain .reload .storeKind => s.ctrl.draining = false ∧
        ∀ j, (s.threads j).committed = false ∧ s.threads j ≠ .waitFor .drain .readKind
    | .clearDrain .clearKind => s.ctrl.draining = false ∧ ∀ j, (s.threads j).committed = false
    | _ => True
  | _ => True

structure Settled (s : Shared) : Prop where
  kind : s.ctrl.draining = true ∨ (∃ j, (s.threads j).committed = true) →
    s.ctrl.kind = some .graceful ∨ s.ctrl.kind = some .immediate
  read : ∀ j, s.threads j = .waitFor .drain .readKind → s.ctrl.kind ≠ some .reload
  returned : ∀ j, s.threads j ≠ .waitFor .drain (.returned .reload)

theorem Settled.consistent (settled : Settled s) : Consistent s :=
  ⟨fun _ bit => settled.kind (.inl bit),settled.returned⟩

theorem committed_set {s : Shared} (found : ((s.set i thread).threads j).committed = true) :
    thread.committed = true ∨ (s.threads j).committed = true :=
  (update_cases (fun t : Thread => t.committed = true) found).imp And.right And.right

theorem committed_notified (thread : Thread) (on : Wait) : (thread.notified on).committed = thread.committed := by
  cases thread <;> rfl

theorem Quietly.uncommitted (moves : Quietly c thread thread') : thread'.committed = false := by
  cases moves with
  | called _ call => cases call <;> rfl
  | _ => rfl

/-- `wait_for_drain` reads the kind after it has seen the bit. -/
theorem Quietly.reads (moves : Quietly c thread (.waitFor .drain .readKind)) : c.draining = true := by
  generalize target : Thread.waitFor .drain .readKind = thread' at moves
  cases moves with
  | called _ call => cases call <;> simp [Call.enter] at target
  | checked seen | rechecked seen =>
    obtain ⟨rfl,rfl⟩ := Thread.waitFor.inj target
    simpa [Wait.check] using seen
  | _ => simp at target

/-- What `wait_for_drain` returns is the kind it reads, or `Graceful` if there is none. -/
theorem Quietly.returns (moves : Quietly c thread (.waitFor .drain (.returned kind))) :
    thread = .waitFor .drain .readKind ∧ kind = c.kind.getD .graceful := by
  generalize target : Thread.waitFor .drain (.returned kind) = thread' at moves
  cases moves with
  | called _ call => cases call <;> simp [Call.enter] at target
  | checked seen | rechecked seen =>
    obtain ⟨rfl,rfl⟩ := Thread.waitFor.inj target
    simp [Wait.check] at seen
  | answered =>
    obtain ⟨rfl,same⟩ := Thread.waitFor.inj target
    exact ⟨rfl,WaitPoint.returned.inj same⟩
  | _ => simp at target

/-- A step that leaves the kind alone, and no thread nearer to setting the bit. -/
theorem Settled.kept {s s' : Shared} (settled : Settled s) (kind : s'.ctrl.kind = s.ctrl.kind)
    (commits : s'.ctrl.draining = true ∨ (∃ j, (s'.threads j).committed = true) →
      s.ctrl.draining = true ∨ ∃ j, (s.threads j).committed = true)
    (waits : ∀ j point, s'.threads j = .waitFor .drain point → s.threads j = .waitFor .drain point ∨
      (point ≠ .readKind ∧ ∀ kind, point ≠ .returned kind)) : Settled s' where
  kind commit := kind ▸ settled.kind (commits commit)
  read j reads := by
    rw [kind]
    rcases waits j _ reads with same | ⟨other,_⟩
    · exact settled.read j same
    · exact absurd rfl other
  returned j returns := by
    rcases waits j _ returns with same | ⟨_,other⟩
    · exact settled.returned j same
    · exact absurd rfl (other _)

theorem quietly_settled {s : Shared} (moves : Quietly s.ctrl (s.threads i) thread) (settled : Settled s) :
    Settled (s.set i thread) where
  kind commit := by
    refine settled.kind (commit.imp_right ?_)
    rintro ⟨j,committed⟩
    refine ⟨j,(committed_set committed).resolve_left ?_⟩
    simp [moves.uncommitted]
  read j reads := by
    rcases set_threads reads with ⟨_,rfl⟩ | ⟨_,here⟩
    · show s.ctrl.kind ≠ some .reload
      rcases settled.kind (.inl moves.reads) with graceful | immediate
      · simp [graceful]
      · simp [immediate]
    · exact settled.read j here
  returned j returns := by
    rcases set_threads returns with ⟨_,rfl⟩ | ⟨_,here⟩
    · obtain ⟨reads,answer⟩ := moves.returns
      have stored := settled.read i reads
      cases kind : s.ctrl.kind <;> simp_all
    · exact settled.returned j here

/-- A `notify_waiters` moves no wait to its end. -/
theorem notified_waits {s : Shared} (found : (s.threads j).notified on = .waitFor .drain point) :
    s.threads j = .waitFor .drain point ∨ (point ≠ .readKind ∧ ∀ kind, point ≠ .returned kind) := by
  cases thread : s.threads j with
  | waitFor wait before =>
    rw [thread] at found
    simp only [Thread.notified,Thread.waitFor.injEq] at found
    obtain ⟨rfl,same⟩ := found
    subst same
    split
    · cases before <;> simp [WaitPoint.notified]
    · exact .inl rfl
  | _ => simp [thread,Thread.notified] at found

theorem set_waits {s : Shared} (other : ∀ wait point, thread ≠ .waitFor wait point)
    (found : (s.set i thread).threads j = .waitFor wait point) : s.threads j = .waitFor wait point := by
  rcases set_threads found with ⟨_,here⟩ | ⟨_,here⟩
  · exact absurd here (other _ _)
  · exact here

/-- A store of a kind that drains settles everything. -/
theorem storeKind_settled {s : Shared} (settled : Settled s) (drains : kind = .graceful ∨ kind = .immediate) :
    Settled ({ s with ctrl := s.ctrl.storeKind kind }.set i (.beginDrain kind .notifyKind)) where
  kind _ := by rcases drains with rfl | rfl <;> simp [Shared.set,DrainController.storeKind]
  read _ _ := by rcases drains with rfl | rfl <;> simp [Shared.set,DrainController.storeKind]
  returned j returns := settled.returned j (set_waits (by simp) returns)

/-- A store of a kind that does not, when no drain is under way. -/
theorem undrained_settled {s : Shared} (settled : Settled s) (bit : c.draining = false)
    (nobody : ∀ j, (s.threads j).committed = false) (idle : thread.committed = false)
    (other : ∀ wait point, thread ≠ .waitFor wait point)
    (unread : ∀ j, s.threads j = .waitFor .drain .readKind → c.kind ≠ some .reload) :
    Settled ({ s with ctrl := c }.set i thread) where
  kind commit := by
    exfalso
    rcases commit with set_ | ⟨j,committed⟩
    · simp [Shared.set,bit] at set_
    · rcases committed_set committed with own | theirs
      · simp [idle] at own
      · simp [nobody j] at theirs
  read j reads := unread j (set_waits other reads)
  returned j returns := settled.returned j (set_waits other returns)

theorem step_settled (steps : Steps s e s') (settled : Settled s) (careful : Careful s e) : Settled s' := by
  cases steps with
  | quietly moves => exact quietly_settled moves settled
  | @storeKind i kind here =>
    cases kind with
    | graceful | immediate => exact storeKind_settled settled (by simp)
    | reload =>
      simp only [Careful,here] at careful
      obtain ⟨bit,nobody⟩ := careful
      exact undrained_settled settled bit (fun j => (nobody j).1) rfl (by simp)
        fun j reads => absurd reads (nobody j).2
  | @notifyKind i kind here =>
    refine settled.kept rfl ?_ ?_
    · rintro (bit | ⟨j,committed⟩)
      · exact .inl bit
      · rcases committed_set committed with own | theirs
        · refine .inr ⟨i,?_⟩
          cases drains : kind.causesDrain <;> simp_all [Thread.committed]
        · exact .inr ⟨j,committed_notified (s.threads j) .signal ▸ theirs⟩
    · intro j point waits
      refine notified_waits (set_waits ?_ waits)
      intro wait point
      split <;> simp
  | @storeDraining i kind here =>
    have committed : (s.threads i).committed = true := by simp [here,Thread.committed]
    exact settled.kept rfl (fun _ => .inr ⟨i,committed⟩) fun j point waits => .inl (set_waits (by simp) waits)
  | notifyDrain here =>
    refine settled.kept rfl ?_ fun j point waits => notified_waits (set_waits (by simp) waits)
    rintro (bit | ⟨j,committed⟩)
    · exact .inl bit
    · have theirs := (committed_set committed).resolve_left (by simp [Thread.committed])
      exact .inr ⟨j,committed_notified (s.threads j) .drain ▸ theirs⟩
  | clearDraining here =>
    refine settled.kept rfl ?_ fun j point waits => .inl (set_waits (by simp) waits)
    rintro (bit | ⟨j,committed⟩)
    · simp [Shared.set,DrainController.clearDraining] at bit
    · exact .inr ⟨j,(committed_set committed).resolve_left (by simp [Thread.committed])⟩
  | clearKind here =>
    simp only [Careful,here] at careful
    exact undrained_settled settled careful.1 careful.2 rfl (by simp)
      fun _ _ => by simp [DrainController.clearKind]

/-- In every interleaving whose stores of a kind that does not drain all come while no drain
is set or under way: whenever no `begin_drain` or `clear_drain` is in progress and the bit is
set, the kind is `Graceful` or `Immediate`; and no `wait_for_drain` returns `Reload`. -/
theorem drain_kind_consistent (past : List (Taken Shared Event)) (s : Shared)
    (run : Run Shared.step .initial past s) (careful : ∀ t ∈ past, Careful t.pre t.event) : Consistent s := by
  have settled : Settled s := run.invariant (C := Careful)
    ⟨by simp [Shared.initial,DrainController.new,Thread.committed],by simp [Shared.initial],by simp [Shared.initial]⟩
    (fun s e s' settled careful taken => step_settled (step_steps s s' e taken) settled careful) careful
  exact settled.consistent

def storesIdle (t : Taken Shared Event) : Bool :=
  match t.event with
  | .move i => t.pre.threads i = .beginDrain .reload .storeKind || t.pre.threads i = .clearDrain .clearKind
  | _ => false

theorem careful_of_not_storesIdle (draining : storesIdle t = false) : Careful t.pre t.event := by
  cases event : t.event with
  | move i =>
    simp only [storesIdle,event,Bool.or_eq_false_iff,decide_eq_false_iff_not] at draining
    simp only [Careful]
    split <;> simp_all
  | _ => trivial

/-- A reload, and then a drain: `wait_for_drain` returns the kind of the drain. -/
theorem drain_kind_consistent_reloaded : ∃ past s, Run Shared.step .initial past s ∧
    past.countP storesIdle = 1 ∧ s.threads 0 = .waitFor .drain (.returned .immediate) ∧ Consistent s := by
  let called := Shared.initial.set 1 (.beginDrain .reload .storeKind)
  let stored := { called with ctrl := called.ctrl.storeKind .reload }.set 1 (.beginDrain .reload .notifyKind)
  have first : Careful called (.move 1) := by
    refine ⟨rfl,fun j => ?_⟩
    by_cases same : j = 1
    · subst same
      simp [called,Thread.committed]
    · simp [called,set_threads_ne _ _ same,Shared.initial,Thread.committed]
  obtain ⟨later,s,rest,draining,returned⟩ := exists_run Shared.step stored
    [.move 1,.call 0 (.waitFor .drain),.move 0,.call 1 (.beginDrain .immediate),.move 1,.move 1,.move 0,.move 1,
      .move 0,.move 0]
    (fun later s => (∀ t ∈ later, storesIdle t = false) ∧ s.threads 0 = .waitFor .drain (.returned .immediate))
    (by decide +kernel)
  have front : Run Shared.step .initial
      [⟨.initial,.call 1 (.beginDrain .reload),called⟩,⟨called,.move 1,stored⟩] stored :=
    Run.cons rfl (Run.one rfl)
  refine ⟨_,s,front.append rest,?_,returned,drain_kind_consistent _ s (front.append rest) ?_⟩
  · have none_ : later.countP storesIdle = 0 := List.countP_eq_zero.mpr (by simpa using draining)
    rw [List.countP_append,none_]
    rfl
  · rw [List.forall_mem_append]
    refine ⟨?_,fun t member => careful_of_not_storesIdle (draining t member)⟩
    simpa using ⟨trivial,first⟩

/-- A reload arrives during a graceful drain: a task that now waits for the drain is told
`Reload`. -/
theorem drain_kind_overwritten : ¬ ∀ past s, Run Shared.step .initial past s → Consistent s := by
  intro consistent
  obtain ⟨past,s,run,returned⟩ := exists_run Shared.step .initial
    [.call 1 (.beginDrain .graceful),.move 1,.move 1,.move 1,.move 1,.call 2 (.beginDrain .reload),.move 2,.move 2,
      .call 0 (.waitFor .drain),.move 0,.move 0]
    (fun _ s => s.threads 0 = .waitFor .drain (.returned .reload)) (by decide +kernel)
  exact (consistent past s run).2 0 returned

end Malkuth.DrainThreads
