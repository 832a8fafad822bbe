import Malkuth.RestartSignal
import Malkuth.DrainDeadline
import Mathlib.Data.List.Perm.Subperm

/-! Approvals against actions, over the whole server: what calls do to runs and workers is paid for
by approvals, one each. A call spends its approval one step and acts at another, between which
anything may happen. -/
namespace Malkuth.Mcp

open Malkuth.DrainAuth Malkuth.Lifecycle Malkuth.Supervise Transition

/-- What a call does, or pays for, under the pair it names. -/
structure Deed where
  call : Nat
  proposal : String
  worker : String
  deriving DecidableEq, Repr

def RestartArgs.deed (args : RestartArgs) (call : Nat) : Deed :=
  ⟨call,Text.trim (args.proposalId.getD ""),args.workerId⟩

def DrainArgs.deed (args : DrainArgs) (call : Nat) : Deed :=
  ⟨call,Text.trim (args.proposalId.getD ""),Text.trim (args.workerId.getD "")⟩

namespace Server

def acts (t : Taken Server Event) : Option Deed :=
  match t.event with
  | .advance call _ =>
    match t.pre.calls call with
    | .restart args .notify => some (args.deed call)
    | .drain args (.storeKind _ false) => some (args.deed call)
    | _ => none
  | _ => none

def approves (covers : String → String → Bool) (t : Taken Server Event) : Bool :=
  match t.event with
  | .approve args r =>
    match (approvePayload t.pre.registry args r).1 with
    | .ok approved => approved.decision != .block && covers approved.proposalId approved.workerId
    | .error _ => false
  | _ => false

def restarted (t : Taken Server Event) : Option (String × String) :=
  match t.event with
  | .supervise run worker .restartSignalBranch => some (run,worker)
  | _ => none

/-- A step that spends an approval. -/
def pays (t : Taken Server Event) : Option Deed :=
  match t.event with
  | .advance call r =>
    match t.pre.calls call with
    | .restart args (.consume proposal) =>
      if (consume Limits.global t.pre.registry proposal args.workerId (r.wall 0) (r.wall 1)).1.toBool then
        some ⟨call,proposal,args.workerId⟩
      else none
    | .drain _ (.validate _ proposal worker) =>
      if (validateDrainRequest Limits.global t.pre.registry worker proposal none (r.wall 0) (r.wall 1)).1.toBool then
        some ⟨call,proposal,worker⟩
      else none
    | _ => none
  | _ => none

/-- The approvals of these pairs that can be spent, at the latest when they are not too old. -/
def unspent (covers : String → String → Bool) (entries : List ApprovalEntry) : Nat :=
  entries.countP fun e => e.decision != .block && e.consumedAt.isNone && covers e.proposalId e.workerId

theorem unspent_approve (covers : String → String → Bool) (lim : Limits) (entries : List ApprovalEntry) (p w : String)
    (d : GateDecision) (clock : Nat → Int) (now : Int) :
    unspent covers (approve lim entries p w d clock now) ≤
      unspent covers entries + (if d != .block && covers p w then 1 else 0) := by
  obtain ⟨kept,eq,fewer,_⟩ := approve_eq lim entries p w d clock now
  rw [eq]
  unfold unspent
  rw [List.countP_append,List.countP_singleton]
  have kept_le := fewer.countP_le (p := fun e => e.decision != .block && e.consumedAt.isNone && covers e.proposalId e.workerId)
  simpa using kept_le

/-- To spend an approval is to have one less. -/
theorem unspent_spent (covers : String → String → Bool) (front back : List ApprovalEntry) {now : Int} (stamp : Int)
    (spendable : e.Spendable lim p w now) :
    unspent covers (front ++ { e with consumedAt := some stamp } :: back) + (if covers p w then 1 else 0) =
      unspent covers (front ++ e :: back) := by
  obtain ⟨here,open_,fresh,_⟩ := spendable
  obtain ⟨rfl,rfl⟩ : e.proposalId = p ∧ e.workerId = w := by simpa [ApprovalEntry.isFor] using here
  simp [unspent,List.countP_append,List.countP_cons,open_,fresh]
  omega

/-- What a step does to the approvals. -/
theorem step_unspent (covers : String → String → Bool) (specs : Specs) (s s' : Server) (e : Event)
    (taken : step specs s e = some s') :
    unspent covers s'.registry + (if (pays ⟨s,e,s'⟩).any (fun d => covers d.proposal d.worker) then 1 else 0) ≤
      unspent covers s.registry + (if approves covers ⟨s,e,s'⟩ then 1 else 0) := by
  cases step_moves specs s s' e taken with
  | supervised | timedOut | concluded | ticked | restartBegun | drainBegun => simp [pays,approves]
  | @approved args r =>
    simp only [pays,approves,approvePayload]
    split
    · simp
    · cases parseGateDecision args.decision with
      | error => simp
      | ok decision => simpa using unspent_approve covers _ _ _ _ _ _ _
  | @restart call args point r m point' here moves =>
    cases moves with
    | @spent proposal ok =>
      obtain ⟨front,e,back,entries,_,spendable,result⟩ := consume_ok _ _ _ _ _ _ ok
      have less := unspent_spent covers front back (r.wall 1) spendable
      rw [← result,← entries] at less
      simpa [pays,approves,here,ok,Except.toBool] using less.le
    | unspent error => simp [pays,approves,here,error,Except.toBool]
    | refused _ before => cases point <;> simp [RestartPoint.mayRefuse,pays,approves,here] at before ⊢
    | _ => simp [pays,approves,here]
  | @drain call args point r m point' here moves =>
    cases moves with
    | @spent worker proposal kind ok =>
      obtain ⟨front,e,back,entries,spendable,result⟩ := validate_spends _ _ _ _ _ _ ok
      have less := unspent_spent covers front back (r.wall 1) spendable
      rw [← result,← entries] at less
      simpa [pays,approves,here,ok,Except.toBool] using less.le
    | unspent error => simp [pays,approves,here,error,Except.toBool]
    | read reads => cases point <;> simp [DrainPoint.onlyReads,pays,approves,here] at reads ⊢
    | _ => simp [pays,approves,here]

def Call.Backed (paid : List Deed) (call : Nat) : Call → Prop
  | .idle => True
  | .restart args point =>
    match point with
    | .gate p | .snapshot p | .locked p _ | .consume p => p = (args.deed call).proposal
    | .notify => args.deed call ∈ paid
    | _ => True
  | .drain args point =>
    match point with
    | .validate _ p w => (⟨call,p,w⟩ : Deed) = args.deed call
    | .storeKind _ false => args.deed call ∈ paid
    | _ => True

def Call.over : Call → Prop
  | .idle => False
  | .restart _ (.answered _) => True
  | .restart .. => False
  | .drain _ point => point.rank < 7

theorem Call.Backed.mono (backed : Call.Backed paid call c) (more : paid ⊆ paid') : Call.Backed paid' call c := by
  cases c with
  | idle => trivial
  | restart args point =>
    cases point with
    | notify => exact more backed
    | _ => exact backed
  | drain args point =>
    cases point with
    | storeKind kind already =>
      cases already with
      | false => exact more backed
      | true => trivial
    | _ => exact backed

theorem requireProposal_ok (ok : requireProposal given = .ok proposal) : proposal = Text.trim (given.getD "") := by
  unfold requireProposal at ok
  cases given with
  | none => simp at ok
  | some id =>
    simp only [Option.map_some] at ok
    split at ok
    · exact (Except.ok.inj ok).symm
    · contradiction

theorem restartTarget_ok (ok : restartTarget spec args = .ok proposal) : proposal = (args.deed call).proposal := by
  unfold restartTarget at ok
  split at ok
  · contradiction
  · exact requireProposal_ok ok

theorem drainTarget_deed (ok : drainTarget args = .ok (proposal,worker)) :
    (⟨call,proposal,worker⟩ : Deed) = args.deed call := by
  obtain ⟨id,given,trimmed⟩ := drainTarget_ok args ok
  unfold drainTarget at ok
  split at ok
  · contradiction
  next proposal_ named =>
    simp only [given,Option.map_some] at ok
    split at ok
    · obtain ⟨rfl,rfl⟩ := Prod.mk.inj (Except.ok.inj ok)
      simp [DrainArgs.deed,given,requireProposal_ok named]
    · contradiction

/-- An access of a restart call keeps what is known of it, if what it pays is recorded. -/
theorem restartAdvance_backed (taken : restartAdvance spec s args r point = some (m,point'))
    (backed : Call.Backed paid call (.restart args point))
    (pays_ : ∀ p, point = .consume p →
      (consume Limits.global s.registry p args.workerId (r.wall 0) (r.wall 1)).1.toBool = true →
      ⟨call,p,args.workerId⟩ ∈ paid') :
    Call.Backed paid' call (.restart args point') := by
  cases point with
  | findRun =>
    simp only [restartAdvance] at taken
    split at taken <;> cases taken <;> trivial
  | checkFinished =>
    simp only [restartAdvance] at taken
    split at taken
    · cases taken; trivial
    · obtain ⟨found,_,rest⟩ := Option.bind_eq_some_iff.mp taken
      split at rest
      · cases rest; trivial
      next target => cases rest; exact restartTarget_ok target
  | gate p =>
    simp only [restartAdvance] at taken
    split at taken
    · cases taken; exact backed
    · cases taken; trivial
  | snapshot p => cases taken; exact backed
  | locked p phases =>
    simp only [restartAdvance] at taken
    split at taken
    · cases taken; exact backed
    · cases taken; trivial
  | describe code => cases taken; trivial
  | consume p =>
    simp only [restartAdvance] at taken
    split at taken
    next ok =>
      cases taken
      have paid_ := pays_ p rfl (by rw [ok]; rfl)
      rwa [show p = (args.deed call).proposal from backed] at paid_
    · cases taken; trivial
  | notify => cases taken; trivial
  | answered answer => cases taken

theorem drainAdvance_backed (taken : drainAdvance spec s args r point = some (m,point'))
    (backed : Call.Backed paid call (.drain args point))
    (pays_ : ∀ kind p w, point = .validate kind p w →
      (validateDrainRequest Limits.global s.registry w p none (r.wall 0) (r.wall 1)).1.toBool = true →
      ⟨call,p,w⟩ ∈ paid') :
    Call.Backed paid' call (.drain args point') := by
  cases point with
  | checkDraining kind =>
    simp only [drainAdvance] at taken
    split at taken
    · cases taken; trivial
    · split at taken
      · cases taken; trivial
      next target => cases taken; exact drainTarget_deed target
  | validate kind p w =>
    simp only [drainAdvance] at taken
    split at taken
    next ok =>
      cases taken
      have paid_ := pays_ kind p w rfl (by rw [ok]; rfl)
      rwa [show (⟨call,p,w⟩ : Deed) = args.deed call from backed] at paid_
    · cases taken; trivial
  | _ =>
    cases drainAdvance_steps taken <;> trivial

theorem step_restart (specs : Specs) (s s' : Server) (taken : step specs s (.advance call r) = some s')
    (here : s.calls call = .restart args point) :
    ∃ m point', restartAdvance (specs args.runId) s args r point = some (m,point') ∧
      s' = m.setCall call (.restart args point') := by
  simp only [step,advance,here] at taken
  obtain ⟨⟨m,point'⟩,moved,rfl⟩ := Option.map_eq_some_iff.mp taken
  exact ⟨m,point',moved,rfl⟩

theorem step_backed (specs : Specs) (s s' : Server) (e : Event) (taken : step specs s e = some s')
    (backed : Call.Backed paid call (s.calls call)) (more : paid ⊆ paid')
    (recorded : ∀ d, pays ⟨s,e,s'⟩ = some d → d ∈ paid') : Call.Backed paid' call (s'.calls call) := by
  cases step_callMoves specs s s' e call taken with
  | kept _ same => exact same ▸ backed.mono more
  | restartBegun | drainBegun => simp [Call.Backed]
  | @restart args point r _ _ here _ =>
    obtain ⟨m,point',moved,eq⟩ := step_restart specs s _ taken here
    rw [here] at backed
    rw [eq]
    simp only [setCall_calls,Function.update_self]
    refine restartAdvance_backed moved (backed.mono more) ?_
    rintro p rfl ok
    exact recorded _ (by simp [pays,here,ok])
  | @drain args point r _ _ here _ =>
    obtain ⟨m,point',moved,eq⟩ := step_drain specs s _ taken here
    rw [here] at backed
    rw [eq]
    simp only [setCall_calls,Function.update_self]
    refine drainAdvance_backed moved (backed.mono more) ?_
    rintro kind p w rfl ok
    exact recorded _ (by simp [pays,here,ok])

/-- A call that is over stays so. -/
theorem step_over (specs : Specs) (s s' : Server) (e : Event) (taken : step specs s e = some s')
    (over_ : Call.over (s.calls call)) : Call.over (s'.calls call) := by
  cases step_callMoves specs s s' e call taken with
  | kept _ same => rwa [same]
  | restartBegun free | drainBegun free => simp [free,Call.over] at over_
  | @restart args point r _ _ here _ =>
    obtain ⟨m,point',moved,_⟩ := step_restart specs s _ taken here
    rw [here] at over_
    cases point with
    | answered => cases moved
    | _ => exact over_.elim
  | @drain args point r _ _ here _ =>
    obtain ⟨m,point',moved,eq⟩ := step_drain specs s _ taken here
    have fewer := (drainAdvance_steps moved).rank
    rw [here] at over_
    rw [eq]
    simp only [setCall_calls,Function.update_self]
    have before : point.rank < 7 := over_
    show point'.rank < 7
    omega

/-- A call that acts has paid, and is over. -/
theorem step_acts (specs : Specs) (s s' : Server) (e : Event) (paid : List Deed) (taken : step specs s e = some s')
    (acting : acts ⟨s,e,s'⟩ = some d) :
    ¬ Call.over (s.calls d.call) ∧ Call.over (s'.calls d.call) ∧
      (Call.Backed paid d.call (s.calls d.call) → d ∈ paid) := by
  unfold acts at acting
  split at acting
  next call r event =>
    subst event
    split at acting
    next args here =>
      obtain rfl := Option.some.inj acting
      obtain ⟨m,point',moved,rfl⟩ := step_restart specs s _ taken here
      cases moved
      have here : s.calls call = .restart args .notify := here
      simp [RestartArgs.deed,here,Call.over,Call.Backed]
    next args kind here =>
      obtain rfl := Option.some.inj acting
      obtain ⟨m,point',moved,rfl⟩ := step_drain specs s _ taken here
      have here : s.calls call = .drain args (.storeKind kind false) := here
      have fewer := (drainAdvance_steps moved).rank
      refine ⟨?_,?_,?_⟩
      · simp [DrainArgs.deed,here,Call.over,DrainPoint.rank]
      · have one : point'.rank + 1 ≤ 7 := fewer
        simp only [DrainArgs.deed,setCall_calls,Function.update_self]
        show point'.rank < 7
        omega
      · simp [DrainArgs.deed,here,Call.Backed]
    · contradiction
  · contradiction

/-- The calls, after a history: who acted has paid, and no call acts twice. -/
structure Books (past : List (Taken Server Event)) (s : Server) : Prop where
  backed : ∀ call, Call.Backed (past.filterMap pays) call (s.calls call)
  over_ : ∀ d ∈ past.filterMap acts, Call.over (s.calls d.call)
  paid : past.filterMap acts ⊆ past.filterMap pays
  once : (past.filterMap acts).Nodup

theorem Books.snoc (specs : Specs) (books : Books past s) (taken : step specs s e = some s') :
    Books (past ++ [⟨s,e,s'⟩]) s' := by
  have more : past.filterMap pays ⊆ List.filterMap pays (past ++ [⟨s,e,s'⟩]) := by
    rw [List.filterMap_append]
    exact List.subset_append_left ..
  have backed (call : Nat) := step_backed specs s s' e taken (books.backed call) more
    fun d pays_ => by simp [List.filterMap_append,pays_]
  cases acting : acts ⟨s,e,s'⟩ with
  | none =>
    have same : List.filterMap acts (past ++ [⟨s,e,s'⟩]) = past.filterMap acts := by
      simp [List.filterMap_append,acting]
    refine ⟨backed,?_,?_,same ▸ books.once⟩
    · rw [same]
      exact fun d member => step_over specs s s' e taken (books.over_ d member)
    · rw [same]
      exact List.Subset.trans books.paid more
  | some d =>
    have new : List.filterMap acts (past ++ [⟨s,e,s'⟩]) = past.filterMap acts ++ [d] := by
      simp [List.filterMap_append,acting]
    obtain ⟨open_,closed,paid⟩ := step_acts specs s s' e (past.filterMap pays) taken acting
    refine ⟨backed,?_,?_,?_⟩
    · rw [new]
      intro other member
      rcases List.mem_append.mp member with early | last
      · exact step_over specs s s' e taken (books.over_ other early)
      · rwa [List.mem_singleton.mp last]
    · rw [new,List.append_subset]
      refine ⟨List.Subset.trans books.paid more,?_⟩
      rintro _ last
      rw [List.mem_singleton.mp last]
      exact more (paid (books.backed d.call))
    · rw [new,List.nodup_append]
      refine ⟨books.once,by simp,?_⟩
      rintro other member _ last rfl
      rw [List.mem_singleton.mp last] at member
      exact open_ (books.over_ d member)

theorem run_books (specs : Specs) (exec : Run (step specs) (initial start) past s) : Books past s := by
  induction exec with
  | nil => exact ⟨fun _ => trivial,by simp,by simp,by simp⟩
  | snoc _ taken ih => exact ih.snoc specs taken

/-- No more approvals of these pairs are spent than are given. -/
theorem run_unspent (specs : Specs) (covers : String → String → Bool) (exec : Run (step specs) (initial start) past s) :
    unspent covers s.registry + (past.filterMap pays).countP (fun d => covers d.proposal d.worker) ≤
      past.countP (approves covers) := by
  induction exec with
  | nil => simp [initial,unspent]
  | @snoc past m e m' _ taken ih =>
    have one := step_unspent covers specs m m' e taken
    have paid : (List.filterMap pays [⟨m,e,m'⟩]).countP (fun d => covers d.proposal d.worker) =
        if (pays ⟨m,e,m'⟩).any (fun d => covers d.proposal d.worker) then 1 else 0 := by
      cases pays_ : pays ⟨m,e,m'⟩ <;> simp [pays_,List.countP_singleton]
    rw [List.filterMap_append,List.countP_append,paid,List.countP_append,List.countP_singleton]
    omega

def notified (t : Taken Server Event) : Option (String × String) :=
  match t.event with
  | .advance call _ =>
    match t.pre.calls call with
    | .restart args .notify => some (args.runId,args.workerId)
    | _ => none
  | _ => none

theorem notified_eq (run worker : String) : (fun t => notified t == some (run,worker)) = notifies run worker := by
  funext t
  unfold notified notifies
  cases t.event with
  | advance call r =>
    dsimp only
    cases t.pre.calls call with
    | restart args point => cases point <;> rfl
    | _ => rfl
  | _ => rfl

theorem restarted_eq (run worker : String) : (fun t => restarted t == some (run,worker)) = fires run worker := by
  funext t
  unfold restarted fires
  cases t.event with
  | supervise r w a => cases a <;> rfl
  | _ => rfl

/-- A notification is an action for its worker. -/
theorem notified_acts (t : Taken Server Event) (issued : notified t = some (run,worker)) :
    ∃ d, acts t = some d ∧ d.worker = worker := by
  unfold notified at issued
  unfold acts
  cases event : t.event with
  | advance call r =>
    cases here : t.pre.calls call with
    | restart args point =>
      cases point with
      | notify =>
        simp only [event,here,Option.some.injEq,Prod.mk.injEq] at issued
        exact ⟨args.deed call,by simp [here],issued.2⟩
      | _ => simp [event,here] at issued
    | _ => simp [event,here] at issued
  | _ => simp [event] at issued

/-- Restarts that are carried out are among those that were notified. -/
theorem restarted_subperm (specs : Specs) (exec : Run (step specs) (initial start) past s) :
    (past.filterMap restarted).Subperm (past.filterMap notified) := by
  rw [List.subperm_ext_iff]
  rintro ⟨run,worker⟩ _
  have tokens := run_tokens specs run worker exec
  rw [List.count_filterMap,List.count_filterMap,restarted_eq,notified_eq]
  omega

/-- Whoever operates the server, no more actions are taken on workers than approvals were given for
them: neither calls that notify a worker or begin a drain, for any set of pairs, nor restarts that the
supervisors of all runs carry out for operators, for any set of workers. -/
theorem actions_approved (specs : Specs) (exec : Run (step specs) (initial start) past s)
    (covers : String → String → Bool) (ids : String → Bool) :
    (past.filterMap acts).countP (fun d => covers d.proposal d.worker) ≤ past.countP (approves covers) ∧
    (past.filterMap restarted).countP (fun x => ids x.2) ≤ past.countP (approves fun _ worker => ids worker) := by
  have books := run_books specs exec
  have acted (covers : String → String → Bool) :
      (past.filterMap acts).countP (fun d => covers d.proposal d.worker) ≤ past.countP (approves covers) := by
    have paid := (List.subperm_of_subset books.once books.paid).countP_le (fun d => covers d.proposal d.worker)
    have given := run_unspent specs covers exec
    omega
  refine ⟨acted covers,?_⟩
  calc (past.filterMap restarted).countP (fun x => ids x.2)
      ≤ (past.filterMap notified).countP (fun x => ids x.2) := (restarted_subperm specs exec).countP_le _
    _ ≤ (past.filterMap acts).countP (fun d => ids d.worker) := by
      rw [List.countP_filterMap,List.countP_filterMap]
      refine List.countP_mono_left fun t _ counted => ?_
      cases issued : notified t with
      | none => simp [issued] at counted
      | some x =>
        obtain ⟨d,acting,same⟩ := notified_acts t issued
        simpa [issued,acting,same] using counted
    _ ≤ _ := acted fun _ worker => ids worker

/-- Two calls find the same approval, of which one gets to act. -/
theorem actions_approved_one : ∃ past s, Run (step twins) (initial 0) past s ∧
    past.countP (approves fun _ worker => worker == "api") = 1 ∧
    (past.filterMap acts).countP (fun d => d.worker == "api") ≤ 1 ∧
    (past.filterMap restarted).countP (fun x => x.2 == "api") ≤ 1 ∧
    ∃ reason, restartAnswer s 1 = some (.error reason) := by
  obtain ⟨past,s,exec,given,refused⟩ := exists_run (step twins) (initial 0)
    (List.flatten [[.supervise "run-1" "api" .register,.supervise "run-1" "api" .checkDrain,
      .supervise "run-1" "api" (.spawned 101),.supervise "run-1" "api" (.publish 0 none),
      .supervise "run-1" "api" .park,.supervise "run-2" "api" .register,.supervise "run-2" "api" .checkDrain,
      .supervise "run-2" "api" (.spawned 102),.supervise "run-2" "api" (.publish 0 none),
      .supervise "run-2" "api" .park,.approve ⟨"p1","api",none⟩ (.at 0),
      .restart 0 ⟨"run-1","api",some "p1"⟩,.restart 1 ⟨"run-2","api",some "p1"⟩],advances 0 3,advances 1 3,
      advances 0 4,[.supervise "run-1" "api" .restartSignalBranch],advances 1 3])
    (fun past s => past.countP (approves fun _ worker => worker == "api") = 1 ∧
      restartAnswer s 1 = some (.error "approval_consumed")) (by decide +kernel)
  obtain ⟨acted,carried⟩ := actions_approved twins exec (fun _ worker => worker == "api") (fun worker => worker == "api")
  rw [given] at acted carried
  exact ⟨past,s,exec,given,acted,carried,_,refused⟩

end Server

end Malkuth.Mcp
