import Malkuth.Text

/-! The approval gate of `drain_auth.rs`: the entries of an `ApprovalRegistry` and the
critical sections that read and change them. Wall-clock readings are arguments, one
for every `SystemTime::now()` of the source, so nothing here assumes that they grow. -/
namespace Malkuth.DrainAuth

inductive GateDecision where
  | allow
  | review
  | block
  deriving DecidableEq, Repr

structure ApprovalEntry where
  proposalId : String
  workerId : String
  decision : GateDecision
  approvedAt : Int
  consumedAt : Option Int
  deriving DecidableEq, Repr

inductive ApprovalStatus where
  | approved
  | expired
  | consumed
  | blocked
  | unknown
  deriving DecidableEq, Repr

inductive DrainAuthError where
  | invalidRequest
  | invalidBudget (budget : Nat)
  | required
  | expired
  | consumed
  | blocked
  deriving DecidableEq, Repr

def DrainAuthError.code : DrainAuthError → String
  | .invalidRequest => "invalid_request"
  | .invalidBudget _ => "invalid_budget"
  | .required => "approval_required"
  | .expired => "approval_expired"
  | .consumed => "approval_consumed"
  | .blocked => "approval_blocked"

def DrainAuthError.message : DrainAuthError → String
  | .invalidRequest => "empty proposal_id or worker_id"
  | .invalidBudget budget =>
    "drain_budget_secs " ++ toString budget ++ " is outside the accepted range (1..=300)"
  | .required => "no live approval for this proposal and worker"
  | .expired => "the approval has expired"
  | .consumed => "the approval was already spent on an action"
  | .blocked => "an operator blocked this proposal"

/-- The bounds of a registry. With `max_entries` 0 the source panics in `remove(0)`. -/
structure Limits where
  maxEntries : Nat
  ttl : Nat
  positive : 0 < maxEntries

/-- `ApprovalRegistry::default()`, in nanoseconds. -/
def Limits.global : Limits := ⟨100,300 * 1000000000,by decide⟩

def ApprovalEntry.isFor (e : ApprovalEntry) (proposal worker : String) : Bool :=
  e.proposalId == proposal && e.workerId == worker

/-- `is_valid`: `duration_since` fails when the entry is stamped in the future. -/
def ApprovalEntry.isValid (e : ApprovalEntry) (ttl : Nat) (now : Int) : Bool :=
  decide (e.approvedAt ≤ now ∧ now - e.approvedAt < ttl)

/-- `entries.retain(|e| e.is_valid(ttl))`; the clock is read once for each entry. -/
def retainValid (ttl : Nat) (clock : Nat → Int) (entries : List ApprovalEntry) : List ApprovalEntry :=
  (entries.zipIdx.filter fun (e,k) => e.isValid ttl (clock k)).map Prod.fst

def approve (lim : Limits) (entries : List ApprovalEntry) (proposal worker : String)
    (decision : GateDecision) (clock : Nat → Int) (now : Int) : List ApprovalEntry :=
  let live := retainValid lim.ttl clock entries
  let room := if lim.maxEntries ≤ live.length then live.tail else live
  room.filter (fun e => !e.isFor proposal worker) ++ [⟨proposal,worker,decision,now,none⟩]

def isApproved (lim : Limits) (entries : List ApprovalEntry) (proposal worker : String)
    (clock : Nat → Int) : Bool :=
  entries.zipIdx.any fun (e,k) =>
    e.isFor proposal worker && e.decision != .block && e.isValid lim.ttl (clock k)

def statusLoop (lim : Limits) (proposal worker : String) (now : Int) :
    List ApprovalEntry → ApprovalStatus
  | [] => .unknown
  | e :: rest =>
    if !e.isFor proposal worker then statusLoop lim proposal worker now rest
    else if e.decision = .block then .blocked
    else if e.consumedAt.isSome then .consumed
    else if e.isValid lim.ttl now then .approved
    else .expired

def status (lim : Limits) (entries : List ApprovalEntry) (proposal worker : String) (now : Int) :
    ApprovalStatus :=
  statusLoop lim proposal worker now entries.reverse

/-- The loop of `consume`: its answer, and the entries with the spent one stamped. -/
def consumeLoop (lim : Limits) (proposal worker : String) (now stamp : Int) :
    List ApprovalEntry → Except DrainAuthError Unit × List ApprovalEntry
  | [] => (.error .required,[])
  | e :: rest =>
    if !e.isFor proposal worker then
      let (answer,rest') := consumeLoop lim proposal worker now stamp rest
      (answer,e :: rest')
    else if e.decision = .block then (.error .blocked,e :: rest)
    else if e.consumedAt.isSome then (.error .consumed,e :: rest)
    else if !e.isValid lim.ttl now then (.error .expired,e :: rest)
    else (.ok (),{ e with consumedAt := some stamp } :: rest)

def consume (lim : Limits) (entries : List ApprovalEntry) (proposal worker : String)
    (now stamp : Int) : Except DrainAuthError Unit × List ApprovalEntry :=
  let (answer,reversed) := consumeLoop lim proposal worker now stamp entries.reverse
  (answer,reversed.reverse)

def purge (lim : Limits) (entries : List ApprovalEntry) (clock : Nat → Int) : List ApprovalEntry :=
  retainValid lim.ttl clock entries

def validateDrainRequest (lim : Limits) (entries : List ApprovalEntry) (worker proposal : String)
    (budget : Option Nat) (now stamp : Int) : Except DrainAuthError Unit × List ApprovalEntry :=
  if Text.trim proposal = "" ∨ Text.trim worker = "" then (.error .invalidRequest,entries)
  else
    match budget with
    | some b =>
      if b = 0 ∨ b > 300 then (.error (.invalidBudget b),entries)
      else consume lim entries proposal worker now stamp
    | none => consume lim entries proposal worker now stamp

def ApprovalEntry.Spendable (e : ApprovalEntry) (lim : Limits) (proposal worker : String)
    (now : Int) : Prop :=
  e.isFor proposal worker = true ∧ e.decision ≠ .block ∧ e.consumedAt = none ∧
    e.isValid lim.ttl now = true

theorem consumeLoop_ok (lim : Limits) (p w : String) (now stamp : Int) (entries : List ApprovalEntry)
    (ok : (consumeLoop lim p w now stamp entries).1 = .ok ()) :
    ∃ front e back, entries = front ++ e :: back ∧ (∀ other ∈ front, other.isFor p w = false) ∧
      e.Spendable lim p w now ∧
      (consumeLoop lim p w now stamp entries).2 = front ++ { e with consumedAt := some stamp } :: back := by
  induction entries with
  | nil => simp [consumeLoop] at ok
  | cons e rest ih =>
    by_cases here : e.isFor p w = true
    · simp only [consumeLoop,here,Bool.not_true,Bool.false_eq_true,if_false] at ok ⊢
      split at ok
      · contradiction
      next open_ =>
        split at ok
        · contradiction
        next unspent =>
          split at ok
          · contradiction
          next valid =>
            refine ⟨[],e,rest,rfl,by simp,⟨here,open_,by simpa using unspent,by simpa using valid⟩,?_⟩
            simp [open_,unspent,valid]
    · have other : e.isFor p w = false := by simpa using here
      simp only [consumeLoop,other,Bool.not_false,if_true] at ok ⊢
      obtain ⟨front,found,back,eq,skipped,spendable,result⟩ := ih ok
      exact ⟨e :: front,found,back,by simp [eq],by simpa [other] using skipped,spendable,by simp [result]⟩

theorem consumeLoop_error (lim : Limits) (p w : String) (now stamp : Int) (entries : List ApprovalEntry)
    (refused : (consumeLoop lim p w now stamp entries).1 = .error error) :
    (consumeLoop lim p w now stamp entries).2 = entries := by
  induction entries with
  | nil => rfl
  | cons e rest ih =>
    simp only [consumeLoop] at refused ⊢
    split
    next other =>
      simp only [other,if_true] at refused
      simp [ih refused]
    next here =>
      simp only [here] at refused
      split_ifs at refused ⊢ <;> first | rfl | contradiction

/-- The two loops stop at the same entry and agree on it. -/
theorem consumeLoop_ok_iff (lim : Limits) (p w : String) (now stamp : Int) (entries : List ApprovalEntry) :
    (consumeLoop lim p w now stamp entries).1 = .ok () ↔ statusLoop lim p w now entries = .approved := by
  induction entries with
  | nil => simp [consumeLoop,statusLoop]
  | cons e rest ih =>
    simp only [consumeLoop,statusLoop]
    split
    · exact ih
    · cases e.isValid lim.ttl now
      all_goals
        simp only [Bool.not_true,Bool.not_false,if_true,Bool.false_eq_true,if_false]
        split_ifs <;> simp

theorem consume_ok_iff (lim : Limits) (entries : List ApprovalEntry) (p w : String) (now stamp : Int) :
    (consume lim entries p w now stamp).1 = .ok () ↔ status lim entries p w now = .approved :=
  consumeLoop_ok_iff lim p w now stamp entries.reverse

/-- `consume` spends the newest entry of the pair, which was live and unspent. -/
theorem consume_ok (lim : Limits) (entries : List ApprovalEntry) (p w : String) (now stamp : Int)
    (ok : (consume lim entries p w now stamp).1 = .ok ()) :
    ∃ front e back, entries = front ++ e :: back ∧ (∀ other ∈ back, other.isFor p w = false) ∧
      e.Spendable lim p w now ∧
      (consume lim entries p w now stamp).2 = front ++ { e with consumedAt := some stamp } :: back := by
  obtain ⟨front,e,back,eq,skipped,spendable,result⟩ := consumeLoop_ok lim p w now stamp entries.reverse ok
  refine ⟨back.reverse,e,front.reverse,?_,by simpa using skipped,spendable,?_⟩
  · rw [← List.reverse_reverse entries,eq]; simp
  · simp [consume,result]

theorem consume_error (lim : Limits) (entries : List ApprovalEntry) (p w : String) (now stamp : Int)
    (refused : (consume lim entries p w now stamp).1 = .error error) :
    (consume lim entries p w now stamp).2 = entries := by
  simp [consume,consumeLoop_error lim p w now stamp entries.reverse refused]

/-- A refused drain request spends nothing, whichever check refused it. -/
theorem validateDrainRequest_error (lim : Limits) (entries : List ApprovalEntry) (w p : String)
    (budget : Option Nat) (now stamp : Int)
    (refused : (validateDrainRequest lim entries w p budget now stamp).1 = .error error) :
    (validateDrainRequest lim entries w p budget now stamp).2 = entries := by
  unfold validateDrainRequest at refused ⊢
  split
  · rfl
  next named =>
    simp only [named,if_false] at refused
    cases budget with
    | none => exact consume_error lim entries p w now stamp refused
    | some b =>
      simp only at refused ⊢
      split
      · rfl
      next within =>
        simp only [within,if_false] at refused
        exact consume_error lim entries p w now stamp refused

theorem retainValid_sublist (ttl : Nat) (clock : Nat → Int) (entries : List ApprovalEntry) :
    (retainValid ttl clock entries).Sublist entries := by
  have kept := (List.filter_sublist (p := fun (x : ApprovalEntry × Nat) => x.1.isValid ttl (clock x.2))
    (l := entries.zipIdx)).map Prod.fst
  simpa [retainValid] using kept

/-- Everything `approve` keeps was there before, and nothing it keeps is of the pair. -/
theorem approve_eq (lim : Limits) (entries : List ApprovalEntry) (p w : String) (d : GateDecision)
    (clock : Nat → Int) (now : Int) :
    ∃ kept, approve lim entries p w d clock now = kept ++ [⟨p,w,d,now,none⟩] ∧
      kept.Sublist entries ∧ ∀ e ∈ kept, e.isFor p w = false := by
  refine ⟨_,rfl,?_,by simp⟩
  refine List.filter_sublist.trans (List.Sublist.trans ?_ (retainValid_sublist lim.ttl clock entries))
  split
  · exact List.tail_sublist _
  · exact List.Sublist.refl _

end Malkuth.DrainAuth
