import Malkuth.ApprovalRegistry
import Malkuth.Transition
import Mathlib.Data.List.Nodup

/-! What an `Ok` of `consume` says about the calls before it. The registry forgets
(capacity, TTL, purge), so it is compared with a ledger that remembers the last
approval of every pair: an entry that is still there agrees with the ledger. -/
namespace Malkuth.DrainAuth

open Transition

inductive Call where
  | approve (proposal worker : String) (decision : GateDecision) (clock : Nat → Int) (now : Int)
  | consume (proposal worker : String) (now stamp : Int)
  | status (proposal worker : String) (now : Int)
  | isApproved (proposal worker : String) (clock : Nat → Int)
  | purge (clock : Nat → Int)

def step (lim : Limits) (entries : List ApprovalEntry) : Call → Option (List ApprovalEntry)
  | .approve p w d clock now => some (approve lim entries p w d clock now)
  | .consume p w now stamp => some (consume lim entries p w now stamp).2
  | .status _ _ _ => some entries
  | .isApproved _ _ _ => some entries
  | .purge clock => some (purge lim entries clock)

abbrev History := List (Taken (List ApprovalEntry) Call)

def Approves (p w : String) (t : Taken (List ApprovalEntry) Call) : Prop :=
  ∃ d clock now, t.event = .approve p w d clock now

def Spends (lim : Limits) (p w : String) (t : Taken (List ApprovalEntry) Call) : Prop :=
  ∃ now stamp, t.event = .consume p w now stamp ∧ (consume lim t.pre p w now stamp).1 = .ok ()

/-- The last approval of the pair is no block, is live at `now`, and is unspent. -/
def Authorized (lim : Limits) (past : History) (p w : String) (now : Int) : Prop :=
  ∃ old pre d clock at_ post new,
    past = old ++ ⟨pre,.approve p w d clock at_,post⟩ :: new ∧ d ≠ .block ∧
    at_ ≤ now ∧ now - at_ < lim.ttl ∧ ∀ t ∈ new, ¬ Approves p w t ∧ ¬ Spends lim p w t

/-- What the gate is for: the last approval of every pair, and whether it was spent. -/
structure Approval where
  decision : GateDecision
  approvedAt : Int
  spent : Bool

abbrev Ledger := String × String → Option Approval

def Ledger.record (ledger : Ledger) (lim : Limits) (t : Taken (List ApprovalEntry) Call) : Ledger :=
  match t.event with
  | .approve p w d _ now => Function.update ledger (p,w) (some ⟨d,now,false⟩)
  | .consume p w now stamp =>
    match (consume lim t.pre p w now stamp).1 with
    | .ok _ => Function.update ledger (p,w) ((ledger (p,w)).map fun a => { a with spent := true })
    | .error _ => ledger
  | _ => ledger

def ledgerOf (lim : Limits) (past : History) : Ledger :=
  past.foldl (fun ledger t => ledger.record lim t) (fun _ => none)

theorem ledgerOf_snoc (lim : Limits) (past : History) (t) :
    ledgerOf lim (past ++ [t]) = (ledgerOf lim past).record lim t := by
  simp [ledgerOf]

def ApprovalEntry.pair (e : ApprovalEntry) : String × String := (e.proposalId,e.workerId)

def ApprovalEntry.approval (e : ApprovalEntry) : Approval :=
  ⟨e.decision,e.approvedAt,e.consumedAt.isSome⟩

theorem isFor_iff (e : ApprovalEntry) (p w : String) : e.isFor p w = true ↔ e.pair = (p,w) := by
  simp [ApprovalEntry.isFor,ApprovalEntry.pair]

theorem isFor_false (e : ApprovalEntry) (p w : String) : e.isFor p w = false ↔ e.pair ≠ (p,w) := by
  rw [← Bool.not_eq_true,isFor_iff]

/-- Entries are a part of the ledger, with at most one for each pair. -/
structure Refines (entries : List ApprovalEntry) (ledger : Ledger) : Prop where
  agrees : ∀ e ∈ entries, ledger e.pair = some e.approval
  unique : (entries.map ApprovalEntry.pair).Nodup

theorem Refines.sublist (refines : Refines entries ledger) (kept : fewer.Sublist entries) :
    Refines fewer ledger :=
  ⟨fun e member => refines.agrees e (kept.subset member),(kept.map _).nodup refines.unique⟩

theorem approve_refines (lim : Limits) (p w : String) (d : GateDecision) (clock : Nat → Int) (now : Int)
    (refines : Refines entries ledger) :
    Refines (approve lim entries p w d clock now)
      (Function.update ledger (p,w) (some ⟨d,now,false⟩)) := by
  obtain ⟨kept,eq,fewer,others⟩ := approve_eq lim entries p w d clock now
  rw [eq]
  have rest := refines.sublist fewer
  constructor
  · intro e member
    rcases List.mem_append.mp member with old | new
    · have different := (isFor_false e p w).mp (others e old)
      rw [Function.update_of_ne different]
      exact rest.agrees e old
    · obtain rfl := List.mem_singleton.mp new
      simp [ApprovalEntry.pair,ApprovalEntry.approval]
  · rw [List.map_append,List.nodup_append]
    refine ⟨rest.unique,by simp,?_⟩
    intro a old b new same
    obtain ⟨e,member,rfl⟩ := List.mem_map.mp old
    have different := (isFor_false e p w).mp (others e member)
    simp [ApprovalEntry.pair] at new different
    simp_all [ApprovalEntry.pair]

/-- Spending stamps the one entry of the pair; the ledger marks it spent. -/
theorem consume_refines (lim : Limits) (p w : String) (now stamp : Int)
    (refines : Refines entries ledger) (ok : (consume lim entries p w now stamp).1 = .ok ()) :
    Refines (consume lim entries p w now stamp).2
      (Function.update ledger (p,w) ((ledger (p,w)).map fun a => { a with spent := true })) := by
  obtain ⟨front,e,back,rfl,_,spendable,result⟩ := consume_ok lim entries p w now stamp ok
  have pair := (isFor_iff e p w).mp spendable.1
  have unique := refines.unique
  rw [result]
  constructor
  · intro other member
    have sort : other = { e with consumedAt := some stamp } ∨ other ∈ front ++ back := by
      simp only [List.mem_append,List.mem_cons] at member ⊢
      tauto
    rcases sort with rfl | elsewhere
    · have known := refines.agrees e (by simp)
      rw [pair] at known
      change Function.update ledger (p,w) _ e.pair = _
      rw [pair,Function.update_self,known]
      rfl
    · have different : other.pair ≠ (p,w) := by
        rw [← pair]
        simp only [List.map_append,List.map_cons] at unique
        have apart := (List.nodup_middle.mp unique)
        intro same
        apply (List.nodup_cons.mp apart).1
        rw [← List.map_append,← same]
        exact List.mem_map_of_mem elsewhere
      rw [Function.update_of_ne different]
      exact refines.agrees other (by
        simp only [List.mem_append,List.mem_cons] at elsewhere ⊢
        tauto)
  · simpa [ApprovalEntry.pair] using unique

theorem step_refines (lim : Limits) (call : Call) (refines : Refines entries ledger)
    (taken : step lim entries call = some entries') :
    Refines entries' (ledger.record lim ⟨entries,call,entries'⟩) := by
  cases call with
  | approve p w d clock now =>
    obtain rfl := Option.some.inj taken
    exact approve_refines lim p w d clock now refines
  | consume p w now stamp =>
    obtain rfl := Option.some.inj taken
    cases answer : (consume lim entries p w now stamp).1 with
    | ok _ => simpa [Ledger.record,answer] using consume_refines lim p w now stamp refines answer
    | error _ =>
      simpa [Ledger.record,answer,consume_error lim entries p w now stamp answer] using refines
  | status p w now =>
    obtain rfl := Option.some.inj taken
    exact refines
  | isApproved p w clock =>
    obtain rfl := Option.some.inj taken
    exact refines
  | purge clock =>
    obtain rfl := Option.some.inj taken
    exact refines.sublist (retainValid_sublist lim.ttl clock entries)

/-- Along every history the registry's entries are a part of the ledger. -/
theorem run_refines (lim : Limits) (run : Run (step lim) [] past entries) :
    Refines entries (ledgerOf lim past) := by
  induction run with
  | nil => exact ⟨by simp,by simp⟩
  | snoc _ taken ih =>
    rw [ledgerOf_snoc]
    exact step_refines lim _ ih taken

/-- `a` is the last approval of the pair in the history; unspent means that no `consume`
of the pair returned `Ok` after it. -/
def LastApproval (lim : Limits) (past : History) (p w : String) (a : Approval) : Prop :=
  ∃ old pre clock post new,
    past = old ++ ⟨pre,.approve p w a.decision clock a.approvedAt,post⟩ :: new ∧
    ∀ t ∈ new, ¬ Approves p w t ∧ (a.spent = false → ¬ Spends lim p w t)

/-- A call that is no approval of the pair extends the later part of the history. -/
theorem LastApproval.extend (last : LastApproval lim past p w b)
    (same : b.decision = a.decision ∧ b.approvedAt = a.approvedAt) (silent : ¬ Approves p w t)
    (unspent : a.spent = false → b.spent = false ∧ ¬ Spends lim p w t) :
    LastApproval lim (past ++ [t]) p w a := by
  obtain ⟨old,pre,clock,post,new,eq,later⟩ := last
  refine ⟨old,pre,clock,post,new ++ [t],by simp [eq,same.1,same.2],?_⟩
  intro u member
  rcases List.mem_append.mp member with inside | new
  · exact ⟨(later u inside).1,fun h => (later u inside).2 (unspent h).1⟩
  · obtain rfl := List.mem_singleton.mp new
    exact ⟨silent,fun h => (unspent h).2⟩

theorem ledgerOf_last (lim : Limits) (past : History) (p w : String) (a : Approval)
    (known : ledgerOf lim past (p,w) = some a) : LastApproval lim past p w a := by
  induction past using List.reverseRecOn generalizing a with
  | nil => simp [ledgerOf] at known
  | append_singleton past t ih =>
    rw [ledgerOf_snoc] at known
    obtain ⟨pre,call,post⟩ := t
    cases call with
    | approve p' w' d clock now =>
      by_cases here : (p,w) = (p',w')
      · obtain ⟨rfl,rfl⟩ := Prod.mk.inj here
        obtain rfl : _ = a := by simpa [Ledger.record] using known
        exact ⟨past,pre,clock,post,[],rfl,by simp⟩
      · have before := ih a (by simpa [Ledger.record,Function.update_of_ne here] using known)
        apply before.extend ⟨rfl,rfl⟩
        · rintro ⟨_,_,_,event⟩
          simp only [Call.approve.injEq] at event
          exact here (by simp [event.1,event.2.1])
        · exact fun h => ⟨h,by simp [Spends]⟩
    | consume p' w' now stamp =>
      cases answer : (consume lim pre p' w' now stamp).1 with
      | error _ =>
        have before := ih a (by simpa [Ledger.record,answer] using known)
        apply before.extend ⟨rfl,rfl⟩ (by simp [Approves])
        intro h
        refine ⟨h,?_⟩
        rintro ⟨_,_,event,ok⟩
        simp only [Call.consume.injEq] at event
        obtain ⟨rfl,rfl,rfl,rfl⟩ := event
        simp [answer] at ok
      | ok _ =>
        by_cases here : (p,w) = (p',w')
        · obtain ⟨rfl,rfl⟩ := Prod.mk.inj here
          simp only [Ledger.record,answer,Function.update_self,Option.map_eq_some_iff] at known
          obtain ⟨b,before,rfl⟩ := known
          exact (ih b before).extend ⟨rfl,rfl⟩ (by simp [Approves]) (by simp)
        · have before := ih a (by simpa [Ledger.record,answer,Function.update_of_ne here] using known)
          apply before.extend ⟨rfl,rfl⟩ (by simp [Approves])
          intro h
          refine ⟨h,?_⟩
          rintro ⟨_,_,event,_⟩
          simp only [Call.consume.injEq] at event
          exact here (by simp [event.1,event.2.1])
    | status p' w' now =>
      exact (ih a known).extend ⟨rfl,rfl⟩ (by simp [Approves]) fun h => ⟨h,by simp [Spends]⟩
    | isApproved p' w' clock =>
      exact (ih a known).extend ⟨rfl,rfl⟩ (by simp [Approves]) fun h => ⟨h,by simp [Spends]⟩
    | purge clock =>
      exact (ih a known).extend ⟨rfl,rfl⟩ (by simp [Approves]) fun h => ⟨h,by simp [Spends]⟩

theorem consume_authorized (lim : Limits) (run : Run (step lim) [] past entries)
    (ok : (consume lim entries p w now stamp).1 = .ok ()) : Authorized lim past p w now := by
  obtain ⟨front,e,back,rfl,_,spendable,_⟩ := consume_ok lim entries p w now stamp ok
  have known := (run_refines lim run).agrees e (by simp)
  rw [(isFor_iff e p w).mp spendable.1] at known
  obtain ⟨old,pre,clock,post,new,eq,later⟩ := ledgerOf_last lim past p w _ known
  have valid := of_decide_eq_true spendable.2.2.2
  refine ⟨old,pre,_,clock,_,post,new,eq,spendable.2.1,valid.1,valid.2,?_⟩
  intro t member
  exact ⟨(later t member).1,(later t member).2 (by simp [ApprovalEntry.approval,spendable.2.2.1])⟩

/-- After an `Ok` the pair needs a new approval before the next one. -/
theorem Authorized.fresh (authorized : Authorized lim past p w now)
    (cut : past = before ++ t :: after) (spent : Spends lim p w t) : ∃ u ∈ after, Approves p w u := by
  obtain ⟨old,pre,d,clock,at_,post,new,eq,_,_,_,later⟩ := authorized
  rw [cut] at eq
  rcases List.append_eq_append_iff.mp eq with ⟨between,rfl,rest⟩ | ⟨between,rfl,rest⟩
  · cases between with
    | nil =>
      obtain ⟨same,rfl⟩ := List.cons.inj rest
      obtain ⟨_,_,event,_⟩ := spent
      simp [same] at event
    | cons first between =>
      obtain ⟨rfl,rfl⟩ := List.cons.inj rest
      exact ⟨⟨pre,.approve p w d clock at_,post⟩,by simp,d,clock,at_,rfl⟩
  · cases between with
    | nil =>
      obtain ⟨same,rfl⟩ := List.cons.inj rest
      obtain ⟨_,_,event,_⟩ := spent
      simp [← same] at event
    | cons first between =>
      obtain ⟨rfl,rfl⟩ := List.cons.inj rest
      exact absurd spent (later t (by simp)).2

/-- Whenever `consume` would return `Ok`, the last approval of exactly this pair
authorizes it, and no earlier `Ok` of the pair used that approval. -/
theorem consume_ok_sound (lim : Limits) (past : History) (entries : List ApprovalEntry)
    (run : Run (step lim) [] past entries) (p w : String) (now stamp : Int)
    (ok : (consume lim entries p w now stamp).1 = .ok ()) :
    Authorized lim past p w now ∧
    ∀ before t after, past = before ++ t :: after → Spends lim p w t →
      ∃ u ∈ after, Approves p w u := by
  have authorized := consume_authorized lim run ok
  exact ⟨authorized,fun _ _ _ => authorized.fresh⟩

/-- Two pairs in a registry of one entry, the second approval evicting the first. -/
theorem consume_ok_sound_replaced :
    ∃ past entries, Run (step ⟨1,10,by decide⟩) [] past entries ∧
      (consume ⟨1,10,by decide⟩ entries "prop" "api" 9 9).1 = .ok () ∧
      Authorized ⟨1,10,by decide⟩ past "prop" "api" 9 := by
  obtain ⟨past,entries,run,ok⟩ := exists_run (step ⟨1,10,by decide⟩) []
    [.approve "prop" "db" .allow (fun _ => 0) 0,.approve "prop" "api" .review (fun _ => 3) 4,
      .status "prop" "api" 5]
    (fun _ entries => (consume ⟨1,10,by decide⟩ entries "prop" "api" 9 9).1 = .ok ())
    (by decide +kernel)
  exact ⟨past,entries,run,ok,(consume_ok_sound _ past entries run "prop" "api" 9 9 ok).1⟩

end Malkuth.DrainAuth
