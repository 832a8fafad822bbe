import Malkuth.RollingRestart
import Malkuth.RoundRobin

/-! The pods that exist, and the turns they get. The ids of the pods come from the ports
that `--proxy` has for them, the turns from `--pod-count`. -/
namespace Malkuth.Pipeline

open Transition RoundRobin

def parseU16 (s : String) : Option UInt16 :=
  let digits := match s.toList with
    | '+' :: rest => rest
    | cs => cs
  if digits.isEmpty then none
  else (digits.foldlM (fun n c =>
    if c.isDigit ∧ n * 10 + (c.toNat - 48) < 2^16 then some (n * 10 + (c.toNat - 48)) else none) 0).map
      UInt16.ofNat

def splitOnce (s : String) (at_ : Char) : Option (String × String) :=
  match s.toList.dropWhile (· ≠ at_) with
  | [] => none
  | _ :: after => some (String.ofList (s.toList.takeWhile (· ≠ at_)),String.ofList after)

structure ProxySpec where
  publicPort : UInt16
  rangeLo : UInt16
  rangeHi : UInt16
  ordered : rangeLo ≤ rangeHi

def ProxySpec.parse (s : String) : Except String ProxySpec := do
  let (pub,range) ← match splitOnce s ':' with
    | some halves => .ok halves
    | none => .error ("--proxy must look like PUBLIC:LO-HI (got `" ++ s ++ "`)")
  let publicPort ← match parseU16 pub with
    | some port => .ok port
    | none => .error ("invalid public port `" ++ pub ++ "`")
  let (lo,hi) ← match splitOnce range '-' with
    | some halves => .ok halves
    | none => .error ("backend range must look like LO-HI (got `" ++ range ++ "`)")
  let rangeLo ← match parseU16 lo with
    | some port => .ok port
    | none => .error ("invalid range lo `" ++ lo ++ "`")
  let rangeHi ← match parseU16 hi with
    | some port => .ok port
    | none => .error ("invalid range hi `" ++ hi ++ "`")
  if ordered : rangeLo ≤ rangeHi then .ok ⟨publicPort,rangeLo,rangeHi,ordered⟩
  else .error ("range hi " ++ toString rangeHi.toNat ++ " < lo " ++ toString rangeLo.toNat)

def ProxySpec.range (spec : ProxySpec) : List UInt16 :=
  (List.range' spec.rangeLo.toNat (spec.rangeHi.toNat + 1 - spec.rangeLo.toNat)).map UInt16.ofNat

def ProxySpec.backendPorts (spec : ProxySpec) : List UInt16 := spec.range.filter (· ≠ spec.publicPort)

def assignPorts (ports : List UInt16) (count : Nat) (skip : UInt16) : List (Nat × UInt16) :=
  ((ports.filter (· ≠ skip)).take count).zipIdx.map Prod.swap

/-- The ports of the pool as `main` makes them. -/
def podPorts (spec : Option ProxySpec) (podCount : Nat) : List (Nat × UInt16) :=
  match spec with
  | some spec => assignPorts spec.backendPorts podCount spec.publicPort
  | none => (List.range podCount).map fun i => (i,0)

def ProxySpec.width (spec : ProxySpec) : Nat :=
  spec.rangeHi.toNat + 1 - spec.rangeLo.toNat -
    if spec.rangeLo ≤ spec.publicPort ∧ spec.publicPort ≤ spec.rangeHi then 1 else 0

def existing (spec : Option ProxySpec) (podCount : Nat) : Nat :=
  match spec with
  | some spec => min podCount spec.width
  | none => podCount

theorem range_nodup (spec : ProxySpec) : spec.range.Nodup := by
  refine List.Nodup.map_on ?_ (List.nodup_range' _)
  intro x inX y inY same
  have high := spec.rangeHi.toNat_lt
  have := congrArg UInt16.toNat same
  simp only [List.mem_range'_1] at inX inY
  simp only [UInt16.toNat_ofNat'] at this
  omega

theorem mem_range_iff (spec : ProxySpec) (port : UInt16) :
    port ∈ spec.range ↔ spec.rangeLo ≤ port ∧ port ≤ spec.rangeHi := by
  have high := spec.rangeHi.toNat_lt
  simp only [ProxySpec.range,List.mem_map,List.mem_range'_1,UInt16.le_iff_toNat_le]
  constructor
  · rintro ⟨n,inside,rfl⟩
    rw [UInt16.toNat_ofNat',Nat.mod_eq_of_lt (by omega)]
    omega
  · rintro inside
    exact ⟨port.toNat,by omega,by simp⟩

theorem backendPorts_length (spec : ProxySpec) : spec.backendPorts.length = spec.width := by
  have erased : spec.backendPorts = spec.range.erase spec.publicPort := by
    rw [(range_nodup spec).erase_eq_filter]
    refine List.filter_congr fun port _ => ?_
    rw [bne,Bool.beq_eq_decide_eq,decide_not]
  rw [erased,List.length_erase,ProxySpec.width]
  by_cases inside : spec.publicPort ∈ spec.range
  · rw [if_pos inside,if_pos ((mem_range_iff spec spec.publicPort).mp inside)]
    simp [ProxySpec.range]
  · rw [if_neg inside,if_neg (mt (mem_range_iff spec spec.publicPort).mpr inside)]
    simp [ProxySpec.range]

theorem isSome_lookup_keys (entries : List (Nat × UInt16)) (keys : entries.map Prod.fst = List.range n) :
    (entries.lookup pod).isSome = true ↔ pod < n := by
  rw [List.lookup_isSome_iff,← List.mem_range,← keys,List.mem_map]
  refine exists_congr fun entry => and_congr_right fun _ => ?_
  exact beq_iff_eq.trans eq_comm

/-- The pods are numbered from 0. -/
theorem podPorts_keys (spec : Option ProxySpec) (podCount : Nat) :
    (podPorts spec podCount).map Prod.fst = List.range (existing spec podCount) := by
  cases spec with
  | none => simp [podPorts,existing,Function.comp_def]
  | some spec =>
    have skipped : spec.backendPorts.filter (· ≠ spec.publicPort) = spec.backendPorts := by
      simp [ProxySpec.backendPorts]
    have swapped : (Prod.fst ∘ Prod.swap : UInt16 × Nat → Nat) = Prod.snd := rfl
    simp only [podPorts,assignPorts,skipped,List.map_map,swapped,List.zipIdx_map_snd,existing]
    rw [List.length_take,backendPorts_length,List.range_eq_range']

theorem isSome_podPorts (spec : Option ProxySpec) (podCount pod : Nat) :
    ((podPorts spec podCount).lookup pod).isSome = true ↔ pod < existing spec podCount :=
  isSome_lookup_keys (podPorts spec podCount) (podPorts_keys spec podCount)

theorem existing_le (spec : Option ProxySpec) (cfg : Config) : existing spec cfg.podCount ≤ cfg.pods := by
  have : existing spec cfg.podCount ≤ cfg.podCount := by
    cases spec with
    | none => exact Nat.le_refl _
    | some spec => exact Nat.min_le_left ..
  exact this.trans (Nat.le_max_left ..)

/-- The turns of a run are those of a counter of 64 bits. -/
theorem run_turns (cfg : Config) (run : Run (step cfg) (initial now) past s) :
    requests past = turns (2^64) cfg.pods (requests past).length ∧
    s.consumer.nextPod = (requests past).length % 2^64 := by
  induction run with
  | nil => exact ⟨rfl,rfl⟩
  | @snoc past s e s' _ taken ih =>
    rcases step_requests cfg s e s' (step_steps cfg s s' e taken) with ⟨_,rfl,_,next⟩ | ⟨other,kept,_⟩
    · rw [requests_snoc_restartOne,List.length_append,List.length_singleton,turns_succ,
        ← ih.1,next,ih.2,Consumer.turn,ih.2]
      exact ⟨rfl,by simp⟩
    · rw [requests_snoc_other other,kept]
      exact ih

/-- Every request of a run is for a pod that exists, and the pods that exist are asked
equally often, up to one, after each of them, if and only if there are as many pods as turns
in a round, or no more requests than pods, and the counter does not wrap within a round. -/
theorem requests_hit_iff (spec : Option ProxySpec) (cfg : Config) (usize : cfg.podCount < 2^64) (now : Nat)
    (past : List (Taken Machine Event)) (s : Machine) (run : Run (step cfg) (initial now) past s) :
    ((∀ pod ∈ requests past, ((podPorts spec cfg.podCount).lookup pod).isSome = true) ∧
      ∀ m i j, ((podPorts spec cfg.podCount).lookup i).isSome = true →
        ((podPorts spec cfg.podCount).lookup j).isSome = true →
        ((requests past).take m).count i ≤ ((requests past).take m).count j + 1) ↔
    (cfg.pods ≤ existing spec cfg.podCount ∨ (requests past).length ≤ existing spec cfg.podCount) ∧
    (cfg.pods ∣ 2^64 ∨ (requests past).length ≤ 2^64) := by
  have positive : 0 < cfg.pods := Nat.le_max_right ..
  have wide : cfg.pods ≤ 2^64 := Nat.max_le.mpr ⟨Nat.le_of_lt usize,by decide⟩
  rw [← fair_iff (2^64) cfg.pods _ (requests past).length positive (existing_le spec cfg) wide,
    ← (run_turns cfg run).1]
  simp only [isSome_podPorts,EvenlyServed]
  refine and_congr_right fun _ => forall_congr' fun m => forall_congr' fun i => ?_
  exact ⟨fun balanced inside j inside' => balanced j inside inside',
    fun balanced j inside inside' => balanced inside j inside'⟩

def roll (turn : Nat) : List Event := change ++ [built,.restartOne turn]

def quickstart : ProxySpec := ⟨3000,3000,3999,by decide⟩

example : (ProxySpec.parse "3000:3000-3999").toOption.map ProxySpec.width = some 999 := by decide

theorem requests_hit_quickstart : ∃ past s, Run (step (deploy 3)) (initial 0) past s ∧
    requests past = [0,1,2,0] ∧
    ∀ pod ∈ requests past, ((podPorts (some quickstart) 3).lookup pod).isSome = true := by
  obtain ⟨past,s,run,asked⟩ := exists_run (step (deploy 3)) (initial 0)
    (List.flatten [roll 0,roll 1,roll 2,roll 0]) (fun past _ => requests past = [0,1,2,0]) (by decide +kernel)
  have enough : (deploy 3).pods ≤ existing (some quickstart) (deploy 3).podCount := by decide
  have short : (requests past).length ≤ 2^64 := by simp [asked]
  exact ⟨past,s,run,asked,((requests_hit_iff (some quickstart) (deploy 3) (by decide) 0 past s run).mpr
    ⟨.inl enough,.inr short⟩).1⟩

def narrow : ProxySpec := ⟨3000,3000,3001,by decide⟩

theorem request_misses : ¬ ∀ (spec : Option ProxySpec) (cfg : Config), cfg.podCount < 2^64 → ∀ now past s,
    Run (step cfg) (initial now) past s →
    (∀ pod ∈ requests past, ((podPorts spec cfg.podCount).lookup pod).isSome = true) ∧
      ∀ m i j, ((podPorts spec cfg.podCount).lookup i).isSome = true →
        ((podPorts spec cfg.podCount).lookup j).isSome = true →
        ((requests past).take m).count i ≤ ((requests past).take m).count j + 1 := by
  intro hit
  obtain ⟨past,s,run,asked⟩ := exists_run (step (deploy 3)) (initial 0) (List.flatten [roll 0,roll 1])
    (fun past _ => requests past = [0,1]) (by decide +kernel)
  have second := (hit (some narrow) (deploy 3) (by decide) 0 past s run).1 1 (by simp [asked])
  rw [isSome_podPorts] at second
  exact absurd second (by decide)

end Malkuth.Pipeline
