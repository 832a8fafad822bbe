import Malkuth.Pipeline
import Malkuth.Pool
import Mathlib.Data.Int.CardIntervalMod

/-! The restarts the pipeline asks the pool for. Every decision to restart becomes one
`restart_one`, of the pod whose turn it is; the turns go round the number of pods of the
command line, the pods that exist are those a port was found for. -/
namespace Malkuth.Pipeline

open Transition

/-- The ids passed to `restart_one`, in order. -/
def requests (past : List (Taken Machine Event)) : List Nat :=
  past.filterMap fun t => match t.event with
    | .restartOne pod => some pod
    | _ => none

/-- The step that decides to restart. -/
def decides (t : Taken Machine Event) : Bool :=
  match t.event with
  | .finish _ => t.post.consumer.point = .restarting
  | _ => false

def Consumer.turn (cfg : Config) (c : Consumer) : Nat := c.nextPod % cfg.pods

theorem run_ne_restarting (cfg : Config) (job : Job) (stages : List BuildStage) :
    Point.run cfg job stages ≠ .restarting := by
  cases stages with
  | nil => cases install : cfg.install.isSome <;> simp [Point.run,install]
  | cons => simp [Point.run]

/-- What a step does to the turns: it takes one, or leaves them alone; and it comes to
`restart_one` only by a decision. -/
theorem step_requests (cfg : Config) (s : Machine) (e : Event) (s' : Machine) (steps : Steps cfg s e s') :
    (s.consumer.point = .restarting ∧ e = .restartOne (s.consumer.turn cfg) ∧
      s'.consumer.point = .receiving ∧ s'.consumer.nextPod = (s.consumer.nextPod + 1) % 2^64) ∨
    ((∀ pod, e ≠ .restartOne pod) ∧ s'.consumer.nextPod = s.consumer.nextPod ∧
      (s.consumer.point = .restarting → s'.consumer.point = .restarting) ∧
      (s'.consumer.point = .restarting → s.consumer.point = .restarting ∨ decides ⟨s,e,s'⟩ = true)) := by
  cases steps with
  | restarted here => exact .inl ⟨here,rfl,rfl,rfl⟩
  | @finished job why after here =>
    refine .inr ⟨by simp,?_,by simp [here],fun restarting => .inr (by simpa [decides] using restarting)⟩
    cases why <;> rfl
  | started here | staged here =>
    exact .inr ⟨by simp,rfl,by simp [here],fun restarting => absurd restarting (run_ne_restarting cfg _ _)⟩
  | received here | skipped here | stageFailed here | installed here | installFailed here =>
    exact .inr ⟨by simp,rfl,by simp [here],by simp [Machine.goto]⟩
  | tick | probed | sent | updated | woke | files =>
    exact .inr ⟨by simp,rfl,id,.inl⟩

theorem requests_snoc_other (other : ∀ pod, e ≠ .restartOne pod) :
    requests (past ++ [⟨s,e,s'⟩]) = requests past := by
  cases e with
  | restartOne pod => exact absurd rfl (other pod)
  | _ => simp [requests]

theorem requests_snoc_restartOne :
    requests (past ++ [⟨s,.restartOne pod,s'⟩]) = requests past ++ [pod] := by
  simp [requests]

/-- After a decision, and up to the next one: the one request, or still none. -/
theorem run_decided (cfg : Config) (run : Run (step cfg) m later s) (decided : m.consumer.point = .restarting)
    (only : ∀ u ∈ later, decides u = false) :
    (requests later = [] ∧ s.consumer.point = .restarting ∧ s.consumer.nextPod = m.consumer.nextPod) ∨
    (requests later = [m.consumer.turn cfg] ∧ s.consumer.point ≠ .restarting) := by
  induction run with
  | nil => exact .inl ⟨rfl,decided,rfl⟩
  | @snoc later s e s' _ taken ih =>
    rw [List.forall_mem_append,List.forall_mem_singleton] at only
    rcases step_requests cfg s e s' (step_steps cfg s s' e taken) with
      ⟨here,rfl,back,_⟩ | ⟨other,kept,stays,comes⟩
    · rcases ih only.1 with ⟨none_,_,turn⟩ | ⟨_,past_⟩
      · refine .inr ⟨?_,by simp [back]⟩
        rw [requests_snoc_restartOne,none_,Consumer.turn,Consumer.turn,turn]
        rfl
      · exact absurd here past_
    · rw [requests_snoc_other other,kept]
      rcases ih only.1 with ⟨none_,here,turn⟩ | ⟨one,past_⟩
      · exact .inl ⟨none_,stays here,turn⟩
      · refine .inr ⟨one,fun restarting => ?_⟩
        rcases comes restarting with here | again
        · exact past_ here
        · simp [only.2] at again

theorem mem_requests : pod ∈ requests past ↔ ∃ t ∈ past, t.event = .restartOne pod := by
  simp only [requests,List.mem_filterMap]
  refine exists_congr fun t => and_congr_right fun _ => ?_
  cases event : t.event <;> simp

/-- A decision to restart, up to the moment the loop waits for the next trigger: every pod
of the pool is asked to restart if and only if there is no pod but the one whose turn it is. -/
theorem change_rolls_iff (cfg : Config) (mgr : Pool.PodManager) (now : Nat)
    (before : List (Taken Machine Event)) (t : Taken Machine Event) (between : List (Taken Machine Event))
    (s : Machine) (run : Run (step cfg) (initial now) (before ++ t :: between) s)
    (decided : decides t = true) (only : ∀ u ∈ between, decides u = false)
    (handled : s.consumer.point = .receiving) :
    (∀ pod, (mgr.ports.lookup pod).isSome = true → ∃ u ∈ between, u.event = .restartOne pod) ↔
    ∀ pod, (mgr.ports.lookup pod).isSome = true → pod = t.post.consumer.turn cfg := by
  obtain ⟨_,_,rest⟩ := run.split
  have restarting : t.post.consumer.point = .restarting := by
    cases event : t.event <;> simp_all [decides]
  rcases run_decided cfg rest restarting only with ⟨_,still,_⟩ | ⟨one,_⟩
  · simp [handled] at still
  · refine forall_congr' fun pod => imp_congr_right fun _ => ?_
    rw [← mem_requests,one,List.mem_singleton]

def deploy (podCount : Nat) : Config where
  stages := [⟨none,"vite build"⟩]
  install := none
  watch := ["./src"]
  watchRemote := none
  pauseFile := none
  buildLock := none
  binaryPath := none
  podCount := podCount

def readings (mtime : Int) : Readings := ⟨false,.disabled,id,AList.singleton "src/main.ts" mtime⟩

def change : List Event := [.files ["src/main.ts"],.recv,.guard (readings 1),.ran (.ok ())]

def built : Event := .finish (AList.singleton "src/main.ts" 2)

theorem change_rolls_single : ∃ before t between s,
    Run (step (deploy 1)) (initial 0) (before ++ t :: between) s ∧ decides t = true ∧
    ∀ pod, (List.lookup pod [(0,(3001 : UInt16))]).isSome = true → ∃ u ∈ between, u.event = .restartOne pod := by
  obtain ⟨before,t,between,s,run,_,decided,only,handled,turn⟩ := exists_run_cut (step (deploy 1)) (initial 0)
    change built [.restartOne 0]
    (fun _ t between s => decides t = true ∧ (∀ u ∈ between, decides u = false) ∧
      s.consumer.point = .receiving ∧ t.post.consumer.turn (deploy 1) = 0) (by decide +kernel)
  refine ⟨before,t,between,s,run,decided,?_⟩
  refine (change_rolls_iff (deploy 1) ⟨.v4 0x7f000001,[(0,3001)]⟩ 0 before t between s run decided only
    handled).mpr ?_
  intro pod known
  rw [turn]
  by_contra other
  simp [List.lookup_cons,beq_eq_false_iff_ne.mpr other] at known

/-- With two pods a change restarts the first one only. -/
theorem change_rolls_one_of_two : ¬ ∀ (cfg : Config) (mgr : Pool.PodManager) now before t between s,
    Run (step cfg) (initial now) (before ++ t :: between) s → decides t = true →
    (∀ u ∈ between, decides u = false) → s.consumer.point = .receiving →
    ∀ pod, (mgr.ports.lookup pod).isSome = true → ∃ u ∈ between, u.event = .restartOne pod := by
  intro rolls
  obtain ⟨before,t,between,s,run,_,decided,only,handled,requested⟩ := exists_run_cut (step (deploy 2))
    (initial 0) change built [.restartOne 0]
    (fun _ t between s => decides t = true ∧ (∀ u ∈ between, decides u = false) ∧
      s.consumer.point = .receiving ∧ requests between = [0]) (by decide +kernel)
  have second := rolls (deploy 2) ⟨.v4 0x7f000001,[(0,3001),(1,3002)]⟩ 0 before t between s run decided only
    handled 1 rfl
  rw [← mem_requests,requested] at second
  simp at second

end Malkuth.Pipeline
