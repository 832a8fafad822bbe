import Malkuth.ApprovalGate

/-! What the registry says of one pair. A reachable registry has at most one entry for each
pair, so both queries look at the same entry; and `approve` makes room before it drops the old
entry of its pair, so a full registry loses an entry of another pair that would have had room. -/
namespace Malkuth.DrainAuth

open Transition

/-- The entry of a pair stands alone. -/
theorem Refines.alone (refines : Refines entries ledger) (member : e ∈ entries) (here : e.isFor p w = true) :
    ∃ front back, entries = front ++ e :: back ∧ ∀ other ∈ front ++ back, other.isFor p w = false := by
  obtain ⟨front,back,rfl⟩ := List.append_of_mem member
  refine ⟨front,back,rfl,?_⟩
  intro other elsewhere
  rw [isFor_false,← (isFor_iff e p w).mp here]
  intro same
  have unique := refines.unique
  rw [List.map_append,List.map_cons] at unique
  refine (List.nodup_cons.mp (List.nodup_middle.mp unique)).1 ?_
  rw [← List.map_append,← same]
  exact List.mem_map_of_mem elsewhere

/-- `status` says what the only entry of the pair says. -/
theorem Refines.status_eq (refines : Refines entries ledger) (lim : Limits) (member : e ∈ entries)
    (here : e.isFor p w = true) (now : Int) : status lim entries p w now = e.status lim now := by
  obtain ⟨front,back,rfl,others⟩ := refines.alone member here
  have newer : back.reverse.find? (fun e => e.isFor p w) = none := by
    rw [List.find?_eq_none]
    intro other inside
    simp [others other (List.mem_append_right _ (List.mem_reverse.mp inside))]
  rw [status,statusLoop_eq]
  simp [List.find?_append,newer,here]

theorem status_unknown (lim : Limits) (entries : List ApprovalEntry) (now : Int)
    (none_ : ∀ e ∈ entries, e.isFor p w = false) : status lim entries p w now = .unknown := by
  have nothing : entries.reverse.find? (fun e => e.isFor p w) = none := by
    rw [List.find?_eq_none]
    intro other inside
    simp [none_ other (List.mem_reverse.mp inside)]
  rw [status,statusLoop_eq,nothing]
  rfl

/-- An entry never says that there is none. -/
theorem ApprovalEntry.status_ne_unknown (e : ApprovalEntry) (lim : Limits) (now : Int) :
    e.status lim now ≠ .unknown := by
  simp only [ApprovalEntry.status]
  split_ifs <;> simp

section Queries

theorem isApproved_iff (lim : Limits) (entries : List ApprovalEntry) (p w : String) (now : Int) :
    isApproved lim entries p w (fun _ => now) = true ↔
      ∃ e ∈ entries, e.isFor p w = true ∧ e.decision ≠ .block ∧ e.isValid lim.ttl now = true := by
  simp only [isApproved,List.any_eq_true,Bool.and_eq_true,bne_iff_ne,ne_eq]
  constructor
  · rintro ⟨⟨e,k⟩,member,⟨here,open_⟩,valid⟩
    exact ⟨e,List.fst_mem_of_mem_zipIdx member,here,open_,valid⟩
  · rintro ⟨e,member,here,open_,valid⟩
    obtain ⟨k,bound,rfl⟩ := List.mem_iff_getElem.mp member
    exact ⟨(entries[k],k),List.mk_mem_zipIdx_iff_getElem?.mpr (List.getElem?_eq_getElem bound),⟨here,open_⟩,valid⟩

theorem ApprovalEntry.status_approved (e : ApprovalEntry) (lim : Limits) (now : Int) :
    e.status lim now = .approved ↔ e.decision ≠ .block ∧ e.consumedAt = none ∧ e.isValid lim.ttl now = true := by
  cases spent : e.consumedAt <;> simp [ApprovalEntry.status,spent] <;> split_ifs <;> simp_all

/-- The pair's entry is live and no block, and was spent. -/
def LiveButSpent (lim : Limits) (entries : List ApprovalEntry) (p w : String) (now : Int) : Prop :=
  ∃ e ∈ entries, e.isFor p w = true ∧ e.decision ≠ .block ∧ e.consumedAt.isSome = true ∧ e.isValid lim.ttl now = true

/-- `is_approved` agrees with `status` about a pair exactly until its live approval is spent. -/
theorem queries_agree_iff (lim : Limits) (past : History) (entries : List ApprovalEntry)
    (run : Run (step lim) [] past entries) (p w : String) (now : Int) :
    (isApproved lim entries p w (fun _ => now) = true ↔ status lim entries p w now = .approved) ↔
      ¬ LiveButSpent lim entries p w now := by
  have refines := run_refines lim run
  rw [isApproved_iff]
  constructor
  · rintro agree ⟨e,member,here,open_,spent,valid⟩
    have approved := agree.mp ⟨e,member,here,open_,valid⟩
    rw [refines.status_eq lim member here,ApprovalEntry.status_approved] at approved
    simp [approved.2.1] at spent
  · intro unspent
    by_cases found : ∃ e ∈ entries, e.isFor p w = true
    · obtain ⟨e,member,here⟩ := found
      rw [refines.status_eq lim member here,ApprovalEntry.status_approved]
      constructor
      · rintro ⟨e',member',here',open_,valid⟩
        -- the two entries are one, since they are of one pair
        obtain rfl : e' = e := List.inj_on_of_nodup_map refines.unique member' member
          (((isFor_iff e' p w).mp here').trans ((isFor_iff e p w).mp here).symm)
        refine ⟨open_,?_,valid⟩
        by_contra spent
        exact unspent ⟨e',member,here,open_,Option.isSome_iff_ne_none.mpr spent,valid⟩
      · rintro ⟨open_,_,valid⟩
        exact ⟨e,member,here,open_,valid⟩
    · have none_ (e) (member : e ∈ entries) : e.isFor p w = false := by
        simpa using fun here => found ⟨e,member,here⟩
      rw [status_unknown lim entries now none_]
      simp only [reduceCtorEq,iff_false]
      rintro ⟨e,member,here,_⟩
      exact found ⟨e,member,here⟩

/-- A block over an approval: both queries say no. -/
theorem queries_agree_blocked : ∃ past entries, Run (step Limits.global) [] past entries ∧
    isApproved Limits.global entries "prop" "api" (fun _ => 7) = false ∧
    (isApproved Limits.global entries "prop" "api" (fun _ => 7) = true ↔
      status Limits.global entries "prop" "api" 7 = .approved) := by
  obtain ⟨past,entries,run,blocked,none_⟩ := exists_run (step Limits.global) []
    [.approve "prop" "api" .allow (fun _ => 0) 0,.approve "prop" "api" .block (fun _ => 3) 4]
    (fun _ entries => isApproved Limits.global entries "prop" "api" (fun _ => 7) = false ∧
      ∀ e ∈ entries, e.decision = .block) (by decide +kernel)
  have unspent : ¬ LiveButSpent Limits.global entries "prop" "api" 7 := by
    rintro ⟨e,member,_,open_,_⟩
    exact open_ (none_ e member)
  exact ⟨past,entries,run,blocked,(queries_agree_iff Limits.global past entries run "prop" "api" 7).mpr unspent⟩

/-- Once an approval is spent, `is_approved` still says yes. -/
theorem approved_though_spent : ¬ ∀ lim past entries, Run (step lim) [] past entries → ∀ p w now,
    (isApproved lim entries p w (fun _ => now) = true ↔ status lim entries p w now = .approved) := by
  intro agree
  obtain ⟨past,entries,run,yes,spent⟩ := exists_run (step Limits.global) []
    [.approve "prop" "api" .allow (fun _ => 0) 0,.consume "prop" "api" 1 1]
    (fun _ entries => isApproved Limits.global entries "prop" "api" (fun _ => 2) = true ∧
      status Limits.global entries "prop" "api" 2 = .consumed) (by decide +kernel)
  have approved := (agree Limits.global past entries run "prop" "api" 2).mp yes
  rw [spent] at approved
  contradiction

end Queries

section Eviction

/-- For every other pair with a live entry the answer of `status` is as before, whenever it is
asked; and the pair has one entry, the new one. -/
def LeavesOthers (lim : Limits) (entries : List ApprovalEntry) (p w : String) (d : GateDecision)
    (clock : Nat → Int) (now : Int) : Prop :=
  (∀ p' w', (p',w') ≠ (p,w) → (∃ e ∈ retainValid lim.ttl clock entries, e.isFor p' w' = true) →
    ∀ later, status lim (approve lim entries p w d clock now) p' w' later = status lim entries p' w' later) ∧
  (approve lim entries p w d clock now).filter (fun e => e.isFor p w) = [⟨p,w,d,now,none⟩]

/-- The live entries leave room for one more, or the oldest of them is the pair's own. -/
def OwnOrRoom (lim : Limits) (live : List ApprovalEntry) (p w : String) : Prop :=
  live.length < lim.maxEntries ∨ ∃ e, live.head? = some e ∧ e.isFor p w = true

theorem approve_own (lim : Limits) (entries : List ApprovalEntry) (p w : String) (d : GateDecision)
    (clock : Nat → Int) (now : Int) :
    (approve lim entries p w d clock now).filter (fun e => e.isFor p w) = [⟨p,w,d,now,none⟩] := by
  obtain ⟨kept,eq,_,others⟩ := approve_eq lim entries p w d clock now
  have none_ : kept.filter (fun e => e.isFor p w) = [] := by
    rw [List.filter_eq_nil_iff]
    intro e member
    simp [others e member]
  have own : ApprovalEntry.isFor ⟨p,w,d,now,none⟩ p w = true := by simp [ApprovalEntry.isFor]
  rw [eq,List.filter_append,none_,List.filter_singleton,own]
  rfl

/-- What `approve` keeps of the live entries of other pairs. -/
theorem mem_approve (lim : Limits) (entries : List ApprovalEntry) (d : GateDecision) (clock : Nat → Int) (now : Int)
    (fits : OwnOrRoom lim (retainValid lim.ttl clock entries) p w)
    (live : e ∈ retainValid lim.ttl clock entries) (other : e.isFor p w = false) :
    e ∈ approve lim entries p w d clock now := by
  refine List.mem_append_left _ (List.mem_filter.mpr ⟨?_,by simp [other]⟩)
  split
  next full =>
    rcases fits with room | ⟨oldest,head,own⟩
    · omega
    · cases shape : retainValid lim.ttl clock entries with
      | nil => simp [shape] at live
      | cons first rest =>
        rw [shape] at live head
        obtain rfl : first = oldest := by simpa using head
        rcases List.mem_cons.mp live with rfl | rest_
        · simp [own] at other
        · exact rest_
  · exact live

/-- An approval leaves the live entries of other pairs alone exactly if the registry is not
full of live entries, or the oldest of them is the pair's own: how many of them are of other
pairs does not matter. -/
theorem approve_leaves_others_iff (lim : Limits) (past : History) (entries : List ApprovalEntry)
    (run : Run (step lim) [] past entries) (p w : String) (d : GateDecision) (clock : Nat → Int) (now : Int) :
    LeavesOthers lim entries p w d clock now ↔ OwnOrRoom lim (retainValid lim.ttl clock entries) p w := by
  have before := run_refines lim run
  have after := approve_refines lim p w d clock now before
  have fewer := retainValid_sublist lim.ttl clock entries
  constructor
  · rintro ⟨same,_⟩
    by_contra neither
    obtain ⟨full,foreign⟩ := not_or.mp neither
    cases shape : retainValid lim.ttl clock entries with
    | nil =>
      have positive := lim.positive
      simp [shape] at full
      omega
    | cons e rest =>
      have live : e ∈ retainValid lim.ttl clock entries := by simp [shape]
      have other : e.isFor p w = false := by simpa [shape] using foreign
      have apart : e.pair ≠ (p,w) := (isFor_false e p w).mp other
      have here : e.isFor e.proposalId e.workerId = true := (isFor_iff e _ _).mpr rfl
      -- the oldest live entry is removed, and with it everything the registry knew of its pair
      have gone (e') (member : e' ∈ approve lim entries p w d clock now) :
          e'.isFor e.proposalId e.workerId = false := by
        rw [isFor_false]
        intro pair
        simp only [approve,shape,List.mem_append,List.mem_filter,List.mem_singleton] at member
        rw [if_pos (by simpa [shape] using full)] at member
        rcases member with ⟨kept,_⟩ | rfl
        · have unique := (fewer.map ApprovalEntry.pair).nodup before.unique
          rw [shape,List.map_cons] at unique
          refine (List.nodup_cons.mp unique).1 ?_
          rw [show e.pair = e'.pair from pair.symm]
          exact List.mem_map_of_mem kept
        · exact apart pair.symm
      have lost := same e.proposalId e.workerId apart ⟨e,live,here⟩ now
      rw [status_unknown lim _ now gone,before.status_eq lim (fewer.subset live) here] at lost
      exact e.status_ne_unknown lim now lost.symm
  · intro fits
    refine ⟨?_,approve_own lim entries p w d clock now⟩
    rintro p' w' different ⟨e,live,here⟩ later
    have other : e.isFor p w = false := by
      rw [isFor_false,(isFor_iff e p' w').mp here]
      exact different
    rw [after.status_eq lim (mem_approve lim entries d clock now fits live other) here,
      before.status_eq lim (fewer.subset live) here]

/-- A registry of two: the older pair is approved again, and the other keeps its approval. -/
theorem approve_leaves_others_oldest : ∃ past entries, Run (step ⟨2,10,by decide⟩) [] past entries ∧
    entries.length = 2 ∧ LeavesOthers ⟨2,10,by decide⟩ entries "a" "api" .allow (fun _ => 2) 2 := by
  obtain ⟨past,entries,run,two,oldest⟩ := exists_run (step ⟨2,10,by decide⟩) []
    [.approve "a" "api" .allow (fun _ => 0) 0,.approve "b" "api" .allow (fun _ => 1) 1]
    (fun _ entries => entries.length = 2 ∧
      (retainValid 10 (fun _ => 2) entries).head? = some ⟨"a","api",.allow,0,none⟩) (by decide +kernel)
  exact ⟨past,entries,run,two,(approve_leaves_others_iff ⟨2,10,by decide⟩ past entries run "a" "api" .allow
    (fun _ => 2) 2).mpr (.inr ⟨_,oldest,by decide⟩)⟩

/-- The newer pair is approved again, and the approval of the other is lost. -/
theorem approve_evicts_other : ¬ ∀ lim past entries, Run (step lim) [] past entries → ∀ p w d clock now,
    ((retainValid lim.ttl clock entries).filter fun e => !e.isFor p w).length < lim.maxEntries →
    LeavesOthers lim entries p w d clock now := by
  intro leaves
  obtain ⟨past,entries,run,few,live,before,after⟩ := exists_run (step ⟨2,10,by decide⟩) []
    [.approve "a" "api" .allow (fun _ => 0) 0,.approve "b" "api" .allow (fun _ => 1) 1]
    (fun _ entries =>
      ((retainValid 10 (fun _ => 2) entries).filter fun e => !e.isFor "b" "api").length < 2 ∧
      (∃ e ∈ retainValid 10 (fun _ => 2) entries, e.isFor "a" "api" = true) ∧
      status ⟨2,10,by decide⟩ entries "a" "api" 3 = .approved ∧
      status ⟨2,10,by decide⟩ (approve ⟨2,10,by decide⟩ entries "b" "api" .allow (fun _ => 2) 2) "a" "api" 3 =
        .unknown) (by decide +kernel)
  have same := (leaves ⟨2,10,by decide⟩ past entries run "b" "api" .allow (fun _ => 2) 2 few).1 "a" "api"
    (by decide) live 3
  rw [before,after] at same
  contradiction

end Eviction

end Malkuth.DrainAuth
