import Malkuth.LeaderTerm
import Malkuth.LeaseStanding

/-! What `renew` of `leader.rs` says. It looks at the guard in memory and never at the lease
file, so its answer is right as long as every guard's record stands in the file. -/
namespace Malkuth.Leader

open Transition

variable {ι : Type} [DecidableEq ι]

def Event.onFile : Event ι → Option Lease.Event
  | .tick ms => some (.tick ms)
  | .go o io => some (.go o io)
  | .background o io => some (.renew o io)
  | _ => none

/-- Renewals come before the expiry, no guard is handed out on an expired record, and nobody
writes or removes the lease file of a guard whose record has not expired. -/
def Careful (s : State ι) (e : Event ι) : Prop :=
  ∀ event, e.onFile = some event → Lease.Respects s.lease event ∧ Lease.Punctual s.lease event

/-- The electors' guards and the calls that are about to store one have not been given back, and
no guard is in two places. -/
structure Guarded (s : State ι) : Prop where
  stamped : ∀ o term, s.phase o = .stamped term → (s.lease.point o).isHeld = true
  held : ∀ x o a, (s.elector x).held = some (o,a) → (s.lease.point o).isHeld = true
  caller : ∀ x o a, (s.elector x).held = some (o,a) → s.caller o = some x
  stored : ∀ x o a, (s.elector x).held = some (o,a) → s.phase o = .returned ∨ ∃ old, s.phase o = .replacing old

omit [DecidableEq ι] in
theorem guarded_of {s : State ι} (stamped : ∀ o term, s.phase o = .stamped term → (s.lease.point o).isHeld = true)
    (stored : ∀ x o a, (s.elector x).held = some (o,a) → (s.lease.point o).isHeld = true ∧ s.caller o = some x ∧
      (s.phase o = .returned ∨ ∃ old, s.phase o = .replacing old)) : Guarded s where
  stamped := stamped
  held x o a has := (stored x o a has).1
  caller x o a has := (stored x o a has).2.1
  stored x o a has := (stored x o a has).2.2

/-- A step of the lease that ends no guard but `gone`'s. -/
def Spares (s s' : Lease.State) (gone : String → Prop) : Prop :=
  ∀ o, (s.point o).isHeld = true → ¬ gone o → (s'.point o).isHeld = true

theorem finish_spares (moved : Lease.step s (.finish o ending) = some s') : Spares s s' (· = o) := by
  intro q held other
  refine (Lease.step_guards s s' _ moved).2.2 q held fun ending' same => ?_
  obtain ⟨rfl,_⟩ := Lease.Event.finish.inj same
  exact other rfl

theorem plain_spares (moved : Lease.step s event = some s') (plain : ∀ o ending, event ≠ .finish o ending) :
    Spares s s' fun _ => False :=
  fun q held _ => (Lease.step_guards s s' event moved).2.2 q held (plain q)

omit [DecidableEq ι] in
theorem underneath_spares (s : State ι) (below : s.Underneath e event) (moved : Lease.step s.lease event = some lease) :
    Spares s.lease lease fun _ => False := by
  cases e with
  | tick | go | background =>
    obtain rfl : event = _ := below
    exact plain_spares moved (by simp)
  | dropReleased o =>
    obtain ⟨rfl,released⟩ := below
    intro q held _
    refine finish_spares moved q held fun same => ?_
    subst same
    simp [released,Lease.Point.isHeld] at held
  | tryAcquire | stamp | store | unlock | abandon | renew | resign => exact absurd below (by simp [State.Underneath])

theorem Guarded.fresh (guarded : Guarded s) (held : (s.elector x).held = some (o,a))
    (phase : s.phase o' = p) (early : p ≠ .returned) (alone : ∀ old, p ≠ .replacing old) : o ≠ o' := by
  rintro rfl
  rcases guarded.stored x o a held with returned | ⟨old,replacing⟩
  · exact early (phase.symm.trans returned)
  · exact alone old (phase.symm.trans replacing)

theorem Guarded.alone (guarded : Guarded s) (first : (s.elector x).held = some (o,a))
    (second : (s.elector y).held = some (o,b)) : x = y :=
  Option.some.inj ((guarded.caller x o a first).symm.trans (guarded.caller y o b second))

/-- One call's phase and one elector change, and the lease ends no guard that is still stored or
about to be. -/
theorem Guarded.change (guarded : Guarded s) (spares : Spares s.lease lease gone) (x : ι) (el : Elector) (o : String)
    (p : Phase) (kept : ∀ q term, s.phase q = .stamped term → q ≠ o → ¬ gone q)
    (stamps : ∀ term, p = .stamped term → (lease.point o).isHeld = true)
    (others : ∀ y q a, (s.elector y).held = some (q,a) → y ≠ x → q ≠ o ∧ ¬ gone q)
    (own : ∀ q a, el.held = some (q,a) → (lease.point q).isHeld = true ∧ s.caller q = some x ∧
      (if q = o then p = .returned ∨ ∃ old, p = .replacing old
       else s.phase q = .returned ∨ ∃ old, s.phase q = .replacing old)) :
    Guarded { s with
      lease := lease, phase := Function.update s.phase o p, elector := Function.update s.elector x el } := by
  refine guarded_of ?_ ?_
  · intro q term phase
    rcases update_cases (· = Phase.stamped term) phase with ⟨rfl,new⟩ | ⟨other,before⟩
    · exact stamps term new
    · exact spares q (guarded.stamped q term before) (kept q term before other)
  · intro y q a has
    rcases update_cases (fun el : Elector => el.held = some (q,a)) has with ⟨rfl,new⟩ | ⟨other,before⟩
    · obtain ⟨held,caller,phase⟩ := own q a new
      refine ⟨held,caller,?_⟩
      by_cases same : q = o
      · subst same
        simpa using phase
      · simpa [same] using phase
    · obtain ⟨apart,stays⟩ := others y q a before other
      refine ⟨spares q (guarded.held y q a before) stays,guarded.caller y q a before,?_⟩
      simpa [apart] using guarded.stored y q a before

/-- Nothing but the lease changes, and it ends no guard that is stored or about to be. -/
theorem Guarded.onLease (guarded : Guarded s) (spares : Spares s.lease lease fun _ => False) :
    Guarded { s with lease := lease } where
  stamped q term phase := spares q (guarded.stamped q term phase) id
  held y q a has := spares q (guarded.held y q a has) id
  caller := guarded.caller
  stored := guarded.stored

theorem Spares.all (lease : Lease.State) : Spares lease lease fun _ => False := fun _ held _ => held

theorem steps_guarded (ident : Identity ι) (guarded : Guarded s) (steps : Steps ident s e s') : Guarded s' := by
  cases steps with
  | underneath below moved => exact guarded.onLease (underneath_spares s below moved)
  | looks => exact guarded
  | @tryAcquire o ttlMs lease x idle moved =>
    have spares := plain_spares moved (by simp)
    have other (y q a) (has : (s.elector y).held = some (q,a)) : q ≠ o :=
      guarded.fresh has idle (by simp) (by simp)
    refine guarded_of ?_ ?_
    · intro q term phase
      rcases update_cases (· = Phase.stamped term) phase with ⟨_,new⟩ | ⟨_,before⟩
      · contradiction
      · exact spares q (guarded.stamped q term before) id
    · intro y q a has
      have apart := other y q a has
      refine ⟨spares q (guarded.held y q a has) id,?_,?_⟩
      · simpa [apart] using guarded.caller y q a has
      · simpa [apart] using guarded.stored y q a has
  | @stamp o x term caller phase held drew =>
    have other (y q a) (has : (s.elector y).held = some (q,a)) : q ≠ o :=
      guarded.fresh has phase (by simp) (by simp)
    refine guarded.change (Spares.all s.lease) x _ o _ (fun _ _ _ _ => id) (fun _ _ => held)
      (fun y q a has _ => ⟨other y q a has,id⟩) ?_
    intro q a has
    rw [if_neg (other x q a has)]
    exact ⟨guarded.held x q a has,guarded.caller x q a has,guarded.stored x q a has⟩
  | @store o x term caller phase free absent =>
    refine guarded.change (Spares.all s.lease) x _ o _ (fun _ _ _ _ => id) (by simp)
      (fun y q a has _ => ⟨guarded.fresh has phase (by simp) (by simp),id⟩) ?_
    intro q a has
    obtain ⟨rfl,rfl⟩ := Prod.mk.inj (Option.some.inj has)
    rw [if_pos rfl]
    exact ⟨guarded.stamped o term phase,caller,.inl rfl⟩
  | @replace o x term old was lease caller phase free present moved =>
    have spares := finish_spares moved
    have fresh (y q a) (has : (s.elector y).held = some (q,a)) : q ≠ o :=
      guarded.fresh has phase (by simp) (by simp)
    refine guarded.change spares x _ o _ ?_ (by simp) ?_ ?_
    · intro q term' stamped _
      exact Ne.symm (guarded.fresh present stamped (by simp) (by simp))
    · intro y q a has other
      refine ⟨fresh y q a has,?_⟩
      rintro rfl
      exact other (guarded.alone has present)
    · intro q a has
      obtain ⟨rfl,rfl⟩ := Prod.mk.inj (Option.some.inj has)
      rw [if_pos rfl]
      exact ⟨spares o (guarded.stamped o term phase) (Ne.symm (fresh x old was present)),caller,.inr ⟨old,rfl⟩⟩
  | @unlock o x old caller phase gone =>
    refine guarded.change (Spares.all s.lease) x _ o _ (fun _ _ _ _ => id) (by simp) ?_ ?_
    · intro y q a has other
      refine ⟨?_,id⟩
      rintro rfl
      exact other (Option.some.inj ((guarded.caller y q a has).symm.trans caller))
    · intro q a has
      refine ⟨guarded.held x q a has,guarded.caller x q a has,?_⟩
      split
      · exact .inl rfl
      · exact guarded.stored x q a has
  | @abandon o lease early moved =>
    have spares := finish_spares moved
    have other (y q a) (has : (s.elector y).held = some (q,a)) : q ≠ o := by
      rcases early with phase | ⟨term,phase⟩ <;> exact guarded.fresh has phase (by simp) (by simp)
    refine guarded_of ?_ ?_
    · intro q term phase
      rcases update_cases (· = Phase.stamped term) phase with ⟨_,new⟩ | ⟨different,before⟩
      · contradiction
      · exact spares q (guarded.stamped q term before) different
    · intro y q a has
      have apart := other y q a has
      refine ⟨spares q (guarded.held y q a has) apart,guarded.caller y q a has,?_⟩
      simpa [State.setPhase,apart] using guarded.stored y q a has
  | @resign x o was lease free present moved =>
    refine guarded_of ?_ ?_
    · intro q term phase
      exact finish_spares moved q (guarded.stamped q term phase)
        (Ne.symm (guarded.fresh present phase (by simp) (by simp)))
    · intro y q a has
      rcases update_cases (fun el : Elector => el.held = some (q,a)) has with ⟨_,new⟩ | ⟨other,before⟩
      · contradiction
      · refine ⟨finish_spares moved q (guarded.held y q a before) ?_,guarded.caller y q a before,
          guarded.stored y q a before⟩
        rintro rfl
        exact other (guarded.alone before present)

theorem finish_standing (standing : Lease.Standing s) (moved : Lease.step s (.finish o ending) = some s') :
    Lease.Standing s' :=
  Lease.idle_standing s s' _ standing rfl rfl rfl moved

theorem steps_standing (ident : Identity ι) (standing : Lease.Standing s.lease) (careful : Careful s e)
    (steps : Steps ident s e s') : Lease.Standing s'.lease := by
  cases steps with
  | @underneath e event lease below moved =>
    cases e with
    | tick | go | background =>
      obtain rfl : event = _ := below
      obtain ⟨respects,punctual⟩ := careful _ rfl
      exact Lease.step_standing s.lease lease _ standing respects punctual moved
    | dropReleased o =>
      obtain ⟨rfl,_⟩ := below
      exact finish_standing standing moved
    | tryAcquire | stamp | store | unlock | abandon | renew | resign =>
      exact absurd below (by simp [State.Underneath])
  | looks => exact standing
  | tryAcquire idle moved => exact Lease.idle_standing _ _ _ standing rfl rfl rfl moved
  | stamp => exact standing
  | store => exact standing
  | replace _ _ _ _ moved => exact finish_standing standing moved
  | unlock => exact standing
  | abandon _ moved => exact finish_standing standing moved
  | resign _ _ moved => exact finish_standing standing moved

/-- The lease file holds an unexpired record of the guard that the elector keeps. -/
def State.Leads (s : State ι) (e : ι) : Prop :=
  ∃ o a rec, (s.elector e).held = some (o,a) ∧ s.lease.lease = .record rec ∧ rec.owner = o ∧
    s.lease.now < rec.expiresAtMs

/-- The lease file holds an unexpired record of another elector. -/
def State.Superseded (s : State ι) (e : ι) : Prop :=
  ∃ rec x, s.lease.lease = .record rec ∧ s.caller rec.owner = some x ∧ x ≠ e ∧ s.lease.now < rec.expiresAtMs

theorem run_guards_stand (ident : Identity ι) (run : Run (step ident) (initial lease tmp now) past s)
    (careful : ∀ t ∈ past, Careful t.pre t.event) : Guarded s ∧ Lease.Standing s.lease := by
  refine run.invariant (P := fun s => Guarded s ∧ Lease.Standing s.lease) (C := Careful) ?_ ?_ careful
  · exact ⟨⟨by simp [initial],by simp [initial],by simp [initial],by simp [initial]⟩,Lease.initial_standing lease tmp now⟩
  · intro s e s' both meets taken
    have steps := step_steps ident s s' e taken
    exact ⟨steps_guarded ident both.1 steps,steps_standing ident both.2 meets steps⟩

/-- With renewals in time and nobody writing over a standing lease, `renew` answers `true` only
to the elector whose record is in the file, and `false` to a leader that was superseded. -/
theorem renew_follows_lease (ident : Identity ι) (lease tmp : Lease.File) (now : Nat)
    (past : List (Taken (State ι) (Event ι))) (s : State ι)
    (run : Run (step ident) (initial lease tmp now) past s)
    (careful : ∀ t ∈ past, Careful t.pre t.event) (e : ι) :
    (s.renewAnswer e = some true → s.Leads e) ∧
    (s.Superseded e → ∀ answer, s.renewAnswer e = some answer → answer = false) := by
  obtain ⟨guarded,standing⟩ := run_guards_stand ident run careful
  have leads (answered : s.renewAnswer e = some true) : s.Leads e := by
    obtain ⟨_,present⟩ := Option.ite_none_left_eq_some.mp answered
    obtain ⟨⟨o,a⟩,held⟩ := Option.isSome_iff_exists.mp (Option.some.inj present)
    obtain ⟨rec,here,owner,live⟩ := standing o (guarded.held e o a held)
    exact ⟨o,a,rec,held,here,owner,live⟩
  refine ⟨leads,?_⟩
  rintro ⟨rec,x,here,caller,other,_⟩ answer answered
  cases answer with
  | false => rfl
  | true =>
    obtain ⟨o,a,rec',held,here',rfl,_⟩ := leads answered
    obtain rfl := Lease.File.record.inj (here.symm.trans here')
    exact absurd (Option.some.inj (caller.symm.trans (guarded.caller e rec.owner a held))) other

instance (s : State ι) (e : Event ι) : Decidable (Careful s e) :=
  decidable_of_iff (∀ event ∈ e.onFile, Lease.Respects s.lease event ∧ Lease.Punctual s.lease event) (by
    simp [Careful])

def renews (o : String) : List (Event Nat) := List.replicate 4 (.background o .ok)

/-- A leader renews in time, resigns, and another leads. -/
theorem renew_follows_lease_in_time : ∃ past, ∃ s : State Nat,
    Run (step identity) (initial .absent .absent 5000) past s ∧ s.lease.now = 6200 ∧
    s.renewAnswer 0 = some false ∧ s.renewAnswer 1 = some true ∧ s.Leads 1 := by
  obtain ⟨past,s,run,careful,now,former,answered⟩ := exists_run (step identity) (initial .absent .absent 5000)
    (leads 0 "pid7-0-5000" ++ [.tick 300] ++ renews "pid7-0-5000" ++ [.tick 900] ++ resigns 0 "pid7-0-5000" ++
      leads 1 "pid8-0-6200")
    (fun past s => (∀ t ∈ past, Careful t.pre t.event) ∧ s.lease.now = 6200 ∧ s.renewAnswer 0 = some false ∧
      s.renewAnswer 1 = some true) (by decide +kernel)
  exact ⟨past,s,run,now,former,answered,
    (renew_follows_lease identity .absent .absent 5000 past s run careful 1).1 answered⟩

/-- The renew thread of a leader is late, another elector takes the expired lease over, and
`renew` still says `true`. -/
theorem renew_outlives_lease : ¬ ∀ (ident : Identity Nat) lease tmp now past s,
    Run (step ident) (initial lease tmp now) past s → ∀ e,
    (s.renewAnswer e = some true → s.Leads e) ∧
    (s.Superseded e → ∀ answer, s.renewAnswer e = some answer → answer = false) := by
  intro follows
  obtain ⟨past,s,run,answered,here,caller,live⟩ := exists_run (step identity) (initial .absent .absent 5000)
    (leads 0 "pid7-0-5000" ++ [.tick 2000] ++ leads 1 "pid8-0-7000")
    (fun _ s => s.renewAnswer 0 = some true ∧ s.lease.lease = .record (Lease.freshRecord "pid8-0-7000" 7000 1000) ∧
      s.caller "pid8-0-7000" = some 1 ∧ s.lease.now = 7000) (by decide +kernel)
  have superseded : s.Superseded 0 := ⟨_,1,here,caller,by decide,by rw [live]; decide⟩
  exact absurd ((follows identity .absent .absent 5000 past s run 0).2 superseded true answered) (by decide)

end Malkuth.Leader
