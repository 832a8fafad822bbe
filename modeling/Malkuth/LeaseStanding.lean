import Malkuth.LeaseOverwrite

/-! When every guard of `lease.rs` has its unexpired record in the lease file. Nothing in the
code makes that so: it takes renewals that come before the expiry, and nobody else who writes
or removes the file meanwhile. -/
namespace Malkuth.Lease

open Transition

/-- The owner whose call makes the step: an acquisition, or the end of its guard. -/
def Event.goer : Event → Option String
  | .go o _ => some o
  | _ => none

def Moved (s s' : State) (o : String) (p : Point) : Prop :=
  ∃ base : State, s' = base.move o p ∧ base.now = s.now ∧ ∀ q, base.point q = s.point q

theorem Moved.own (moved : Moved s s' o p) : s'.point o = p := by
  obtain ⟨base,rfl,_,_⟩ := moved
  simp [move_point]

theorem Moved.other (moved : Moved s s' o p) (different : q ≠ o) : s'.point q = s.point q := by
  obtain ⟨base,rfl,_,points⟩ := moved
  rw [move_point,if_neg different,points]

theorem Moved.now (moved : Moved s s' o p) : s'.now = s.now := by
  obtain ⟨base,rfl,now,_⟩ := moved
  exact now

theorem moved_self (s : State) (o : String) (p : Point) : Moved s (s.move o p) o p := ⟨s,rfl,rfl,fun _ => rfl⟩

theorem rename_now (s s' : State) (renamed : s.rename = some s') : s'.now = s.now := by
  cases tmp : s.tmp <;> simp only [State.rename,tmp,Option.some.injEq,reduceCtorEq] at renamed
  · subst renamed; rfl
  · subst renamed; rfl

/-- A program becomes a holder only where it reads its record back. -/
theorem advance_moved (s s' : State) (o : String) (io : Io) (taken : s.advance o io = some s') :
    (s.point o).isHeld = false ∧ ∃ p, Moved s s' o p ∧ (p.isHeld = true → s.point o = .confirming) := by
  cases point : s.point o with
  | reading | stamping | deciding =>
    obtain rfl : _ = s' := by simpa [State.advance,point] using taken
    refine ⟨rfl,_,moved_self ..,?_⟩
    try split
    all_goals simp [Point.isHeld]
  | writing rec =>
    obtain rfl : _ = s' := by simpa [State.advance,point] using taken
    refine ⟨rfl,_,⟨s.writeTmp rec io,rfl,by simp,by simp [State.point]⟩,?_⟩
    split <;> simp [Point.isHeld]
  | renamingTmp =>
    simp only [State.advance,point] at taken
    split at taken
    next renamed =>
      obtain rfl := Option.some.inj taken
      exact ⟨rfl,_,⟨_,rfl,rename_now s _ renamed,rename_point s _ renamed⟩,by simp [Point.isHeld]⟩
    · obtain rfl := Option.some.inj taken
      exact ⟨rfl,_,moved_self ..,by simp [Point.isHeld]⟩
  | confirming =>
    obtain rfl : _ = s' := by simpa [State.advance,point] using taken
    exact ⟨rfl,_,moved_self ..,fun _ => rfl⟩
  | stopping renewal ending =>
    cases renewal with
    | asleep =>
      obtain rfl : _ = s' := by simpa [State.advance,point] using taken
      exact ⟨rfl,_,moved_self ..,by simp [Point.isHeld]⟩
    | awake | writing | renamingTmp => simp [State.advance,point] at taken
  | releaseReading ending =>
    obtain rfl : _ = s' := by simpa [State.advance,point] using taken
    refine ⟨rfl,_,moved_self ..,?_⟩
    split
    · simp [Point.isHeld]
    · cases ending <;> simp [Ending.done,Point.isHeld]
  | removing ending =>
    have ends : ending.done.isHeld = false := by cases ending <;> rfl
    simp only [State.advance,point] at taken
    split at taken
    · obtain rfl := Option.some.inj taken
      exact ⟨rfl,_,⟨{ s with lease := .absent },rfl,rfl,fun _ => rfl⟩,by simp [ends]⟩
    · obtain rfl := Option.some.inj taken
      exact ⟨rfl,_,moved_self ..,by simp [ends]⟩
  | idle | refused | failed | held | released | dropped => simp [State.advance,point] at taken

theorem renewal_now (s : State) (o : String) (io : Io) (r : Renewal) : (s.renewal o io r).1.now = s.now := by
  cases r with
  | asleep | awake => rfl
  | writing rec => simp [State.renewal]
  | renamingTmp =>
    simp only [State.renewal]
    split
    next renamed => exact rename_now s _ renamed
    · rfl

theorem renew_moved (s s' : State) (o : String) (io : Io) (taken : s.renew o io = some s') :
    ∃ p, Moved s s' o p ∧ p.isHeld = (s.point o).isHeld := by
  cases point : s.point o with
  | held r =>
    obtain rfl : _ = s' := by simpa [State.renew,point] using taken
    exact ⟨_,⟨_,rfl,renewal_now s o io r,fun q => renewal_point s o q io r⟩,rfl⟩
  | stopping r ending =>
    cases r with
    | asleep => simp [State.renew,point] at taken
    | awake | writing rec | renamingTmp =>
      obtain rfl : _ = s' := by simpa [State.renew,point] using taken
      exact ⟨_,⟨_,rfl,renewal_now s o io _,fun q => renewal_point s o q io _⟩,rfl⟩
  | idle | reading | deciding | stamping | writing | renamingTmp | confirming | refused | failed
  | releaseReading | removing | released | dropped => simp [State.renew,point] at taken

theorem finish_moved (s s' : State) (o : String) (ending : Ending) (taken : s.finish o ending = some s') :
    ∃ p, Moved s s' o p ∧ p.isHeld = false := by
  cases point : s.point o with
  | held r =>
    obtain rfl : s.move o (.stopping r ending) = s' := by simpa [State.finish,point] using taken
    exact ⟨_,moved_self ..,rfl⟩
  | released =>
    cases ending with
    | release => simp [State.finish,point] at taken
    | drop =>
      obtain rfl : _ = s' := by simpa [State.finish,point] using taken
      exact ⟨_,moved_self ..,rfl⟩
  | idle | reading | deciding | stamping | writing | renamingTmp | confirming | refused | failed
  | stopping | releaseReading | removing | dropped => simp [State.finish,point] at taken

def State.nowAfter (s : State) : Event → Nat
  | .tick ms => s.now + ms
  | _ => s.now

def State.Grants (s : State) (e : Event) (o : String) : Prop :=
  (s.point o).isHeld = true ∨ (s.point o = .confirming ∧ e.goer = some o)

/-- What a step does to who holds a guard, and to the clock. -/
theorem step_guards (s s' : State) (e : Event) (taken : step s e = some s') :
    s'.now = s.nowAfter e ∧ (∀ o, (s'.point o).isHeld = true → s.Grants e o) ∧
    ∀ o, (s.point o).isHeld = true → (∀ ending, e ≠ .finish o ending) → (s'.point o).isHeld = true := by
  have single {o : String} {p : Point} (moved : Moved s s' o p) (now : s.nowAfter e = s.now)
      (grants : p.isHeld = true → s.Grants e o)
      (keeps : (s.point o).isHeld = true → (∀ ending, e ≠ .finish o ending) → p.isHeld = true) :
      s'.now = s.nowAfter e ∧ (∀ o, (s'.point o).isHeld = true → s.Grants e o) ∧
      ∀ o, (s.point o).isHeld = true → (∀ ending, e ≠ .finish o ending) → (s'.point o).isHeld = true := by
    refine ⟨moved.now.trans now.symm,?_,?_⟩
    · intro q held
      by_cases same : q = o
      · subst same
        exact grants (moved.own ▸ held)
      · exact .inl (moved.other same ▸ held)
    · intro q held unfinished
      by_cases same : q = o
      · subst same
        rw [moved.own]
        exact keeps held unfinished
      · rw [moved.other same]
        exact held
  cases e with
  | tick ms =>
    obtain ⟨_,rfl⟩ := Option.ite_some_none_eq_some.mp taken
    exact ⟨rfl,fun _ => .inl,fun _ held _ => held⟩
  | begin o ttlMs =>
    obtain ⟨idle,rfl⟩ := Option.ite_some_none_eq_some.mp taken
    refine ⟨rfl,?_,?_⟩
    · intro q held
      rcases update_cases (fun a : Acquirer => a.point.isHeld = true) held with ⟨_,new⟩ | ⟨_,before⟩
      · contradiction
      · exact .inl before
    · intro q held _
      refine update_holds (fun a : Acquirer => a.point.isHeld = true) held fun same => ?_
      subst same
      simp [idle,Point.isHeld] at held
  | go o io =>
    obtain ⟨unheld,p,moved,confirms⟩ := advance_moved s s' o io taken
    exact single moved rfl (fun held => .inr ⟨confirms held,rfl⟩) (by simp [unheld])
  | renew o io =>
    obtain ⟨p,moved,same⟩ := renew_moved s s' o io taken
    exact single moved rfl (fun held => .inl (same ▸ held)) fun held _ => same.trans held
  | finish o ending =>
    obtain ⟨p,moved,unheld⟩ := finish_moved s s' o ending taken
    exact single moved rfl (by simp [unheld]) fun _ unfinished => absurd rfl (unfinished ending)

/-- Every guard's own record is in the lease file, unexpired. -/
def Standing (s : State) : Prop :=
  ∀ o, (s.point o).isHeld = true → ∃ rec, s.lease = .record rec ∧ rec.owner = o ∧ s.now < rec.expiresAtMs

/-- After the step, the record in the lease file is not out of date if its owner has a guard or
is just given one: renewals come in time, and no guard is handed out on an expired record. -/
def Punctual (s : State) (e : Event) : Prop :=
  ∀ rec, (s.replacement e).getD s.lease = .record rec → s.Grants e rec.owner → s.nowAfter e < rec.expiresAtMs

instance (s : State) (e : Event) (o : String) : Decidable (s.Grants e o) :=
  inferInstanceAs (Decidable ((s.point o).isHeld = true ∨ (s.point o = .confirming ∧ e.goer = some o)))

instance (s : State) (e : Event) : Decidable (Punctual s e) :=
  decidable_of_iff (∀ rec ∈ ((s.replacement e).getD s.lease).parsed, s.Grants e rec.owner →
    s.nowAfter e < rec.expiresAtMs) (by
      simp only [Punctual]
      cases (s.replacement e).getD s.lease <;> simp [File.parsed])

theorem initial_standing (lease tmp : File) (now : Nat) : Standing (initial lease tmp now) := by
  intro o held
  simp [initial,State.point,Point.isHeld] at held

theorem Standing.confirmedOwner (standing : Standing s) (held : (s.point o).isHeld = true) :
    s.confirmedOwner = some o := by
  obtain ⟨rec,here,rfl,live⟩ := standing o held
  simp [State.confirmedOwner,here,File.parsed,live,held]

theorem owner_eq_some {f : File} (owner : f.owner = some o) : ∃ rec, f = .record rec ∧ rec.owner = o := by
  cases f with
  | absent | garbled => simp [File.owner,File.parsed] at owner
  | record rec => exact ⟨rec,rfl,by simpa [File.owner,File.parsed] using owner⟩

theorem step_standing (s s' : State) (e : Event) (standing : Standing s) (respects : Respects s e)
    (punctual : Punctual s e) (taken : step s e = some s') : Standing s' := by
  obtain ⟨now,grants,_⟩ := step_guards s s' e taken
  intro o held
  have granted := grants o held
  rw [now]
  rcases step_effect s s' e taken with ⟨silent,quiet⟩ | ⟨f,replaced,replaces⟩
  · have own : ∃ rec, s.lease = .record rec ∧ rec.owner = o := by
      rcases quiet.held o held with before | here
      · obtain ⟨rec,here,owner,_⟩ := standing o before
        exact ⟨rec,here,owner⟩
      · exact here
    obtain ⟨rec,here,rfl⟩ := own
    exact ⟨rec,quiet.lease.trans here,rfl,punctual rec (by rw [silent]; exact here) granted⟩
  · have owner := respects o f (standing.confirmedOwner (replaces.held o held)) replaced
    obtain ⟨rec,rfl,rfl⟩ := owner_eq_some owner
    exact ⟨rec,replaces.lease,rfl,punctual rec (by rw [replaced]; rfl) granted⟩

/-- Steps that neither touch the file nor hand out a guard need no condition. -/
theorem idle_standing (s s' : State) (e : Event) (standing : Standing s) (silent : s.replacement e = none)
    (now : s.nowAfter e = s.now) (plain : e.goer = none) (taken : step s e = some s') : Standing s' := by
  refine step_standing s s' e standing (fun o f _ replaced => ?_) (fun rec here granted => ?_) taken
  · simp [silent] at replaced
  · rw [silent] at here
    rcases granted with held | ⟨_,go⟩
    · obtain ⟨rec',here',_,live⟩ := standing rec.owner held
      obtain rfl := File.record.inj (here.symm.trans here')
      exact now ▸ live
    · simp [plain] at go

end Malkuth.Lease
