import Malkuth.ApprovalHistory

/-! The two scans of the gate against each other. `restart_payload` asks `status` first and
spends with `consume` later, so they have to answer alike on every registry that calls can
produce; and a refusal, from whichever check it comes, has to leave the registry as it was. -/
namespace Malkuth.DrainAuth

open Transition

def ApprovalStatus.answer : ApprovalStatus → Except DrainAuthError Unit
  | .approved => .ok ()
  | .unknown => .error .required
  | .expired => .error .expired
  | .consumed => .error .consumed
  | .blocked => .error .blocked

def ApprovalEntry.status (e : ApprovalEntry) (lim : Limits) (now : Int) : ApprovalStatus :=
  if e.decision = .block then .blocked
  else if e.consumedAt.isSome then .consumed
  else if e.isValid lim.ttl now then .approved
  else .expired

/-- Both loops stop at the first entry of the pair; `status` says what that entry says. -/
theorem statusLoop_eq (lim : Limits) (p w : String) (now : Int) (entries : List ApprovalEntry) :
    statusLoop lim p w now entries =
      ((entries.find? fun e => e.isFor p w).map fun e => e.status lim now).getD .unknown := by
  induction entries with
  | nil => rfl
  | cons e rest ih =>
    by_cases here : e.isFor p w = true
    · simp [statusLoop,here,ApprovalEntry.status]
    · simpa [statusLoop,List.find?_cons,here] using ih

theorem consumeLoop_answer (lim : Limits) (p w : String) (now stamp : Int) (entries : List ApprovalEntry) :
    (consumeLoop lim p w now stamp entries).1 = (statusLoop lim p w now entries).answer := by
  induction entries with
  | nil => rfl
  | cons e rest ih =>
    simp only [consumeLoop,statusLoop]
    split
    · exact ih
    · cases e.isValid lim.ttl now
      all_goals
        simp only [Bool.not_true,Bool.not_false,if_true,Bool.false_eq_true,if_false]
        split_ifs <;> rfl

theorem consume_answer (lim : Limits) (entries : List ApprovalEntry) (p w : String) (now stamp : Int) :
    (consume lim entries p w now stamp).1 = (status lim entries p w now).answer :=
  consumeLoop_answer lim p w now stamp entries.reverse

/-- Exactly one entry has changed, the only one of the pair: it is stamped as spent. -/
def OnlySpends (p w : String) (stamp : Int) (entries after : List ApprovalEntry) : Prop :=
  ∃ front e back, entries = front ++ e :: back ∧ after = front ++ { e with consumedAt := some stamp } :: back ∧
    e.isFor p w = true ∧ e.decision ≠ .block ∧ ∀ other ∈ front ++ back, other.isFor p w = false

/-- Where each pair has one entry, spending changes that one. -/
theorem consume_onlySpends (lim : Limits) (p w : String) (now stamp : Int) (refines : Refines entries ledger)
    (ok : (consume lim entries p w now stamp).1 = .ok ()) :
    OnlySpends p w stamp entries (consume lim entries p w now stamp).2 := by
  obtain ⟨front,e,back,rfl,newer,spendable,result⟩ := consume_ok lim entries p w now stamp ok
  refine ⟨front,e,back,rfl,result,spendable.1,spendable.2.1,?_⟩
  intro other member
  rcases List.mem_append.mp member with older | newest
  · rw [isFor_false,← (isFor_iff e p w).mp spendable.1]
    intro same
    have unique := refines.unique
    rw [List.map_append,List.map_cons,List.nodup_append] at unique
    exact unique.2.2 _ (List.mem_map_of_mem older) _ (List.mem_cons_self) same
  · exact newer other newest

theorem OnlySpends.consumed (spends : OnlySpends p w stamp entries after) (lim : Limits) (later : Int) :
    status lim after p w later = .consumed := by
  obtain ⟨front,e,back,_,rfl,here,open_,others⟩ := spends
  have newer : back.reverse.find? (fun e => e.isFor p w) = none := by
    rw [List.find?_eq_none]
    intro other member
    simp [others other (List.mem_append_right _ (List.mem_reverse.mp member))]
  have stamped : ApprovalEntry.isFor { e with consumedAt := some stamp } p w = true := here
  rw [status,statusLoop_eq]
  simp [List.find?_append,newer,stamped,ApprovalEntry.status,open_]

/-- No other pair notices. -/
theorem OnlySpends.others (spends : OnlySpends p w stamp entries after) (lim : Limits) (later : Int)
    (different : (p',w') ≠ (p,w)) : status lim after p' w' later = status lim entries p' w' later := by
  obtain ⟨front,e,back,rfl,rfl,here,_,_⟩ := spends
  have skipped : e.isFor p' w' = false := by
    rw [isFor_false,(isFor_iff e p w).mp here]
    exact Ne.symm different
  have stamped : ApprovalEntry.isFor { e with consumedAt := some stamp } p' w' = false := skipped
  rw [status,status,statusLoop_eq,statusLoop_eq]
  simp [List.find?_append,skipped,stamped]

/-- `done` is what the status of the pair announces: its answer, and on `Ok` the spent entry,
on an error nothing. -/
structure Settles (lim : Limits) (entries : List ApprovalEntry) (p w : String) (now stamp : Int)
    (done : Except DrainAuthError Unit × List ApprovalEntry) : Prop where
  answer : done.1 = (status lim entries p w now).answer
  refused : ∀ error, done.1 = .error error → done.2 = entries
  spent : done.1 = .ok () → OnlySpends p w stamp entries done.2 ∧
    (∀ later, status lim done.2 p w later = .consumed) ∧
    ∀ p' w', (p',w') ≠ (p,w) → ∀ later, status lim done.2 p' w' later = status lim entries p' w' later

theorem consume_settles (lim : Limits) (p w : String) (now stamp : Int) (refines : Refines entries ledger) :
    Settles lim entries p w now stamp (consume lim entries p w now stamp) where
  answer := consume_answer lim entries p w now stamp
  refused _ refused := consume_error lim entries p w now stamp refused
  spent ok := by
    have spends := consume_onlySpends lim p w now stamp refines ok
    exact ⟨spends,spends.consumed lim,fun _ _ different later => spends.others lim later different⟩

def WithinBudget (budget : Option Nat) : Prop := ∀ b ∈ budget, b ≠ 0 ∧ b ≤ 300

/-- `status`, `consume` and `validate_drain_request` agree on every reachable registry, with
one reading of the clock; every refusal leaves all entries as they were. -/
theorem gate_agrees (lim : Limits) (past : History) (entries : List ApprovalEntry)
    (run : Run (step lim) [] past entries) (p w : String) (now stamp : Int) :
    Settles lim entries p w now stamp (consume lim entries p w now stamp) ∧
    ∀ budget,
      (Text.trim p = "" ∨ Text.trim w = "" →
        validateDrainRequest lim entries w p budget now stamp = (.error .invalidRequest,entries)) ∧
      (Text.trim p ≠ "" → Text.trim w ≠ "" → ∀ b ∈ budget, (b = 0 ∨ 300 < b) →
        validateDrainRequest lim entries w p budget now stamp = (.error (.invalidBudget b),entries)) ∧
      (Text.trim p ≠ "" → Text.trim w ≠ "" → WithinBudget budget →
        Settles lim entries p w now stamp (validateDrainRequest lim entries w p budget now stamp)) := by
  have settles := consume_settles lim p w now stamp (run_refines lim run)
  refine ⟨settles,fun budget => ⟨?_,?_,?_⟩⟩
  · intro blank
    simp [validateDrainRequest,blank]
  · intro proposal worker b member outside
    obtain rfl := Option.mem_def.mp member
    simp [validateDrainRequest,proposal,worker,outside]
  · intro proposal worker within
    have same : validateDrainRequest lim entries w p budget now stamp = consume lim entries p w now stamp := by
      cases budget with
      | none => simp [validateDrainRequest,proposal,worker]
      | some b =>
        obtain ⟨positive,bounded⟩ := within b rfl
        simp [validateDrainRequest,proposal,worker,positive,Nat.not_lt.mpr bounded]
    rw [same]
    exact settles

/-- An approval, a refused drain request, then the spend. -/
theorem gate_agrees_spent : ∃ past entries, Run (step Limits.global) [] past entries ∧
    status Limits.global entries "prop" "api" 7 = .approved ∧
    (validateDrainRequest Limits.global entries "api" "prop" (some 301) 7 7).2 = entries ∧
    status Limits.global (consume Limits.global entries "prop" "api" 7 7).2 "prop" "api" 8 = .consumed := by
  obtain ⟨past,entries,run,approved⟩ := exists_run (step Limits.global) []
    [.approve "prop" "db" .block (fun _ => 0) 0,.approve "prop" "api" .allow (fun _ => 3) 4]
    (fun _ entries => status Limits.global entries "prop" "api" 7 = .approved) (by decide +kernel)
  obtain ⟨settles,requests⟩ := gate_agrees Limits.global past entries run "prop" "api" 7 7
  have refused := (requests (some 301)).2.1 (by decide) (by decide) 301 rfl (.inr (by decide))
  have ok : (consume Limits.global entries "prop" "api" 7 7).1 = .ok () := by
    rw [settles.answer,approved]
    rfl
  exact ⟨past,entries,run,approved,by rw [refused],(settles.spent ok).2.1 8⟩

end Malkuth.DrainAuth
