import Malkuth.ConnTask
import Malkuth.RoundRobin

/-! `ClientPool` of `client.rs`: connections with a task each, and a counter by which calls are given to
them in turn. A call takes its turn first, and comes to the channel of its connection later. -/
namespace Malkuth.ClientPool

open Json JsonRpc Codec Transition ConnTask

/-- The connections of a pool; a call on a pool that has none panics. -/
structure Size where
  count : Nat
  positive : 0 < count

/-- Where the ids of a connection start: `1_000_000` apart. -/
def idBase (i : Nat) : UInt64 := 1 + 1000000 * UInt64.ofNat i

/-- `given` are the calls with their connections, in the order of their turns; `waiting` those of them
that are not at their channel yet. -/
structure Pool where
  next : Nat
  given : List (CallMsg × Nat)
  waiting : List (CallMsg × Nat)
  conns : Nat → State
  dropped : Bool

/-- The call has returned, or was dropped; it borrows the pool until then. -/
def Pool.finished (p : Pool) (g : CallMsg × Nat) : Bool :=
  g.1.caller ∈ (p.conns g.2).cancelled ∨ g.1.caller ∈ (p.conns g.2).replies.map Prod.fst

inductive Event where
  /-- `fetch_add`. -/
  | call (msg : CallMsg)
  | send (msg : CallMsg) (i : Nat)
  | conn (i : Nat) (e : ConnTask.Event)
  | drop

def Pool.admits (p : Pool) : ConnTask.Event → Bool
  | .submit _ => false
  | .poolDropped => p.dropped
  | _ => true

variable {Error : Type} (serde : Serde Error) (size : Size)

def step (p : Pool) : Event → Option Pool
  | .call msg =>
    if p.dropped ∨ msg.caller ∈ p.given.map fun g => g.1.caller then none
    else
      let idx := p.next % size.count
      some { p with next := (p.next + 1) % 2^64, given := p.given ++ [(msg,idx)], waiting := p.waiting ++ [(msg,idx)] }
  | .send msg i =>
    if (msg,i) ∈ p.waiting then (ConnTask.step serde (p.conns i) (.submit msg)).map fun s =>
      { p with waiting := p.waiting.erase (msg,i), conns := Function.update p.conns i s }
    else none
  | .conn i e =>
    if i < size.count ∧ p.admits e then (ConnTask.step serde (p.conns i) e).map fun s =>
      { p with conns := Function.update p.conns i s }
    else none
  | .drop => if p.given.all p.finished then some { p with dropped := true } else none

def initial : Pool := ⟨0,[],[],fun i => ConnTask.initial (idBase i),false⟩

section Carried

/-- A connection has this request to write, or has written it. -/
def Carries (s : State) (msg : CallMsg) : Prop :=
  msg ∈ s.sending ∨ msg ∈ s.queue ∨ (∃ id, s.phase = .writing msg id) ∨ ∃ id, (msg,id) ∈ s.wrote

theorem close_carries (carries : Carries s.close msg) : Carries s msg := by
  rcases carries with sending | queued | ⟨id,writing⟩ | wrote
  · simp [State.close] at sending
  · simp [State.close] at queued
  · simp [State.close] at writing
  · exact .inr (.inr (.inr wrote))

theorem settle_same (s : State) (resp : Response) :
    (s.settle resp).submitted = s.submitted ∧ ∀ msg, Carries (s.settle resp) msg → Carries s msg := by
  simp only [State.settle]
  split
  · split
    next taken =>
      obtain ⟨p,_,same⟩ := Option.map_eq_some_iff.mp taken
      obtain ⟨_,rfl⟩ := Prod.mk.inj same
      exact ⟨rfl,fun _ => id⟩
    · exact ⟨rfl,fun _ => id⟩
  · exact ⟨rfl,fun _ => id⟩

/-- A connection gets its calls from the pool only. -/
theorem step_carries (p : Pool) (taken : ConnTask.step serde s e = some s') (own : p.admits e = true) :
    s'.submitted = s.submitted ∧ ∀ msg, Carries s' msg → Carries s msg := by
  cases e with
  | submit => simp [Pool.admits] at own
  | enter entering =>
    obtain ⟨⟨member,_⟩,rfl⟩ := Option.ite_some_none_eq_some.mp taken
    refine ⟨rfl,?_⟩
    rintro msg (sending | queued | rest)
    · exact .inl (List.mem_of_mem_erase sending)
    · rcases List.mem_append.mp queued with before | last
      · exact .inr (.inl before)
      · exact .inl (List.mem_singleton.mp last ▸ member)
    · exact .inr (.inr rest)
  | cancel caller =>
    obtain ⟨_,rfl⟩ := Option.ite_some_none_eq_some.mp taken
    exact ⟨rfl,fun msg => Or.imp_left List.mem_of_mem_filter⟩
  | recv =>
    simp only [ConnTask.step] at taken
    split at taken
    next first queue idle queued =>
      obtain rfl := Option.some.inj taken
      refine ⟨rfl,?_⟩
      rintro msg (sending | later | ⟨id,writing⟩ | wrote)
      · exact .inl sending
      · exact .inr (.inl (queued ▸ List.mem_cons_of_mem _ later))
      · obtain ⟨rfl,_⟩ := Phase.writing.inj writing
        exact .inr (.inl (queued ▸ List.mem_cons_self))
      · exact .inr (.inr (.inr wrote))
    · contradiction
  | written =>
    simp only [ConnTask.step] at taken
    split at taken
    next first id writing =>
      obtain rfl := Option.some.inj taken
      refine ⟨rfl,?_⟩
      rintro msg (sending | queued | ⟨_,idle⟩ | ⟨key,wrote⟩)
      · exact .inl sending
      · exact .inr (.inl queued)
      · contradiction
      · rcases List.mem_append.mp wrote with before | last
        · exact .inr (.inr (.inr ⟨key,before⟩))
        · obtain ⟨rfl,rfl⟩ := Prod.mk.inj (List.mem_singleton.mp last)
          exact .inr (.inr (.inl ⟨_,writing⟩))
    · contradiction
  | writeFails message =>
    simp only [ConnTask.step] at taken
    split at taken
    · obtain rfl := Option.some.inj taken
      exact ⟨rfl,fun msg carries => (close_carries carries :)⟩
    · contradiction
  | receive chunk =>
    obtain ⟨idle,taken⟩ := Option.ite_none_right_eq_some.mp taken
    obtain ⟨reader,received,rfl⟩ := Option.map_eq_some_iff.mp taken
    exact ⟨rfl,fun _ => id⟩
  | disconnect | poolDropped =>
    obtain ⟨_,rfl⟩ := Option.ite_some_none_eq_some.mp taken
    exact ⟨rfl,fun _ => close_carries⟩
  | frame =>
    obtain ⟨idle,taken⟩ := Option.ite_none_right_eq_some.mp taken
    obtain ⟨⟨res,reader⟩,took,rfl⟩ := Option.map_eq_some_iff.mp taken
    cases res with
    | error err => exact ⟨rfl,fun msg carries => (close_carries carries :)⟩
    | ok v =>
      simp only [State.afterFrame]
      split
      · exact ⟨rfl,fun _ => id⟩
      · split
        next resp _ => exact settle_same { s with reader := reader } resp
        · exact ⟨rfl,fun _ => id⟩

theorem submit_carries (taken : ConnTask.step serde s (.submit msg) = some s') :
    s'.submitted = s.submitted ++ [msg.caller] ∧ ∀ other, Carries s' other → Carries s other ∨ other = msg := by
  obtain ⟨_,taken⟩ := Option.ite_none_left_eq_some.mp taken
  split at taken
  · obtain rfl := Option.some.inj taken
    exact ⟨rfl,fun _ => .inl⟩
  · obtain rfl := Option.some.inj taken
    refine ⟨rfl,?_⟩
    rintro other (sending | rest)
    · rcases List.mem_append.mp sending with before | last
      · exact .inl (.inl before)
      · exact .inr (List.mem_singleton.mp last)
    · exact .inl (.inr rest)

end Carried

section Books

structure Books (p : Pool) : Prop where
  next : p.next = p.given.length % 2^64
  turns : p.given.map Prod.snd = RoundRobin.turns (2^64) size.count p.given.length
  once : (p.given.map fun g => g.1.caller).Nodup
  waiting : ∀ g ∈ p.waiting, g ∈ p.given
  carried : ∀ i msg, Carries (p.conns i) msg → (msg,i) ∈ p.given
  submitted : ∀ i c, c ∈ (p.conns i).submitted → ∃ msg, (msg,i) ∈ p.given ∧ msg.caller = c
  sent : ∀ g ∈ p.given, g ∈ p.waiting ∨ g.1.caller ∈ (p.conns g.2).submitted

theorem initial_books : Books size initial where
  next := rfl
  turns := rfl
  once := List.nodup_nil
  waiting := by simp [initial]
  carried := by simp [initial,ConnTask.initial,Carries]
  submitted := by simp [initial,ConnTask.initial]
  sent := by simp [initial]

theorem step_books (p : Pool) (e : Event) (p' : Pool) (books : Books size p) (taken : step serde size p e = some p') :
    Books size p' := by
  cases e with
  | call msg =>
    obtain ⟨fresh,taken⟩ := Option.ite_none_left_eq_some.mp taken
    obtain rfl := Option.some.inj taken
    have length : (p.given ++ [(msg,p.next % size.count)]).length = p.given.length + 1 := by simp
    refine ⟨?_,?_,?_,?_,?_,?_,?_⟩
    · rw [length]
      show (p.next + 1) % 2^64 = _
      rw [books.next,Nat.mod_add_mod]
    · rw [length,RoundRobin.turns_succ,List.map_append,books.turns,books.next]
      rfl
    · rw [List.map_append]
      have apart : List.Disjoint (p.given.map fun g => g.1.caller) [msg.caller] :=
        List.disjoint_singleton.mpr fun inside => fresh (.inr inside)
      exact books.once.append (List.nodup_singleton _) apart
    · intro g member
      rcases List.mem_append.mp member with before | last
      · exact List.mem_append_left _ (books.waiting g before)
      · exact List.mem_append_right _ last
    · exact fun i m carries => List.mem_append_left _ (books.carried i m carries)
    · intro i c member
      obtain ⟨m,given,caller⟩ := books.submitted i c member
      exact ⟨m,List.mem_append_left _ given,caller⟩
    · intro g member
      rcases List.mem_append.mp member with before | last
      · exact (books.sent g before).imp_left (List.mem_append_left _)
      · exact .inl (List.mem_append_right _ last)
  | send msg i =>
    obtain ⟨member,taken⟩ := Option.ite_none_right_eq_some.mp taken
    obtain ⟨s,sent,rfl⟩ := Option.map_eq_some_iff.mp taken
    obtain ⟨submitted,carries⟩ := submit_carries serde sent
    have given := books.waiting _ member
    refine ⟨books.next,books.turns,books.once,fun g inside => books.waiting g (List.mem_of_mem_erase inside),?_,?_,?_⟩
    · intro j other here
      rcases update_cases (Carries · other) here with ⟨rfl,own⟩ | ⟨_,before⟩
      · rcases carries other own with before | rfl
        · exact books.carried j other before
        · exact given
      · exact books.carried j other before
    · intro j c inside
      rcases update_cases (c ∈ State.submitted ·) inside with ⟨rfl,own⟩ | ⟨_,before⟩
      · rw [submitted] at own
        rcases List.mem_append.mp own with before | last
        · exact books.submitted j c before
        · exact ⟨msg,given,(List.mem_singleton.mp last).symm⟩
      · exact books.submitted j c before
    · intro g there
      by_cases this : g = (msg,i)
      · subst this
        simp [submitted]
      · rcases books.sent g there with still | before
        · exact .inl ((List.mem_erase_of_ne this).mpr still)
        · refine .inr (update_holds (g.1.caller ∈ State.submitted ·) before ?_)
          rintro rfl
          rw [submitted]
          exact List.mem_append_left _ before
  | conn i e =>
    obtain ⟨⟨_,own⟩,taken⟩ := Option.ite_none_right_eq_some.mp taken
    obtain ⟨s,moved,rfl⟩ := Option.map_eq_some_iff.mp taken
    obtain ⟨submitted,carries⟩ := step_carries serde p moved own
    refine ⟨books.next,books.turns,books.once,books.waiting,?_,?_,?_⟩
    · intro j other here
      rcases update_cases (Carries · other) here with ⟨rfl,own⟩ | ⟨_,before⟩
      · exact books.carried j other (carries other own)
      · exact books.carried j other before
    · intro j c inside
      rcases update_cases (c ∈ State.submitted ·) inside with ⟨rfl,own⟩ | ⟨_,before⟩
      · exact books.submitted j c (submitted ▸ own)
      · exact books.submitted j c before
    · intro g there
      refine (books.sent g there).imp_right fun before => update_holds (g.1.caller ∈ State.submitted ·) before ?_
      rintro rfl
      rwa [submitted]
  | drop =>
    obtain ⟨_,rfl⟩ := Option.ite_some_none_eq_some.mp taken
    exact ⟨books.next,books.turns,books.once,books.waiting,books.carried,books.submitted,books.sent⟩

theorem run_books (run : Run (step serde size) initial past p) : Books size p :=
  run.always (initial_books size) (step_books serde size)

end Books

def part (i : Nat) (t : Taken Pool Event) : Option ConnTask.Event :=
  match t.event with
  | .call _ => none
  | .send msg j => if j = i then some (.submit msg) else none
  | .conn j e => if j = i then some e else none
  | .drop => none

theorem step_part (p : Pool) (e : Event) (p' : Pool) (i : Nat) (taken : step serde size p e = some p') :
    Follows (ConnTask.step serde) (part i ⟨p,e,p'⟩) (p.conns i) (p'.conns i) := by
  cases e with
  | call msg =>
    obtain ⟨_,taken⟩ := Option.ite_none_left_eq_some.mp taken
    obtain rfl := Option.some.inj taken
    rfl
  | send msg j =>
    obtain ⟨_,taken⟩ := Option.ite_none_right_eq_some.mp taken
    obtain ⟨s,moved,rfl⟩ := Option.map_eq_some_iff.mp taken
    by_cases own : j = i
    · subst own
      simpa [Follows,part] using moved
    · simp [Follows,part,own,Ne.symm own]
  | conn j e =>
    obtain ⟨_,taken⟩ := Option.ite_none_right_eq_some.mp taken
    obtain ⟨s,moved,rfl⟩ := Option.map_eq_some_iff.mp taken
    by_cases own : j = i
    · subst own
      simpa [Follows,part] using moved
    · simp [Follows,part,own,Ne.symm own]
  | drop =>
    obtain ⟨_,rfl⟩ := Option.ite_some_none_eq_some.mp taken
    rfl

/-- Every connection runs as a task of its own. -/
theorem conn_run (run : Run (step serde size) initial past p) (i : Nat) :
    Run (ConnTask.step serde) (ConnTask.initial (idBase i)) (watch (fun p : Pool => p.conns i) (part i) past) (p.conns i) :=
  @Run.follows _ _ _ _ _ _ _ _ (fun p : Pool => p.conns i) (part i) _ run
    fun t member => step_part serde size t.pre t.event t.post i (run.enabled member)

theorem call_unique (books : Books size p) (here : (msg,i) ∈ p.given) (there : (msg',j) ∈ p.given)
    (same : msg.caller = msg'.caller) : msg = msg' ∧ i = j :=
  Prod.mk.inj (List.inj_on_of_nodup_map books.once here there same)

/-- Calls are given to the connections in turn, which are served evenly, to one, up to the wrap of the counter, or
for ever if the wrap falls between two rounds. A call is at one connection only, has one reply at most, and a
response that it gets was read there under the id that its own request was written with. A call that is not
cancelled is on its way to its connection, held by it, or replied to; one that has ended holds none. -/
theorem pool_calls_exact (run : Run (step serde size) initial past p) :
    p.given.map Prod.snd = RoundRobin.turns (2^64) size.count p.given.length ∧
    (size.count ∣ 2^64 ∨ p.given.length ≤ 2^64 → RoundRobin.EvenlyServed size.count (p.given.map Prod.snd)) ∧
    (∀ i, ((p.conns i).replies.map Prod.fst).Nodup) ∧
    (∀ c r i, (c,r) ∈ (p.conns i).replies → ∀ r' j, (c,r') ∈ (p.conns j).replies → i = j ∧ r = r') ∧
    (∀ c resp i, (c,.response resp) ∈ (p.conns i).replies → ∃ msg id out, (msg,i) ∈ p.given ∧ msg.caller = c ∧
      (msg,id) ∈ (p.conns i).wrote ∧ resp.id = .num id ∧ (p.conns i).reader.Returned serde.json out ∧ resp ∈ responses out) ∧
    (∀ msg i, (msg,i) ∈ p.given → msg.caller ∉ (p.conns i).cancelled →
      (msg,i) ∈ p.waiting ∨ msg.caller ∈ (p.conns i).held ∨ msg.caller ∈ (p.conns i).replies.map Prod.fst) ∧
    ∀ i, (p.conns i).phase = .ended → (p.conns i).held = [] := by
  have books := run_books serde size run
  have accounted (i : Nat) : Accounted (p.conns i) := run_accounted serde (conn_run serde size run i)
  have replied (i c : Nat) (r : Reply) (member : (c,r) ∈ (p.conns i).replies) : c ∈ (p.conns i).submitted := by
    have once := (accounted i).once c
    have here : 0 < ((p.conns i).replies.map Prod.fst).count c :=
      List.count_pos_iff.mpr (List.mem_map.mpr ⟨_,member,rfl⟩)
    rw [State.tally] at once
    split at once
    · assumption
    · omega
  refine ⟨books.turns,?_,fun i => (accounted i).replies_once,?_,?_,?_,fun i => (accounted i).ended⟩
  · intro even
    rw [books.turns]
    exact RoundRobin.evenlyServed_turns _ _ _ _ (Nat.le_refl _) even
  · intro c r i here r' j there
    obtain ⟨msg,given,rfl⟩ := books.submitted i c (replied i c r here)
    obtain ⟨msg',given',same⟩ := books.submitted j _ (replied j _ r' there)
    obtain ⟨rfl,rfl⟩ := call_unique size books given given' same.symm
    exact ⟨rfl,congrArg Prod.snd (List.inj_on_of_nodup_map (accounted i).replies_once here there rfl)⟩
  · intro c resp i here
    obtain ⟨out,sourced⟩ := run_sourced serde (conn_run serde size run i)
    obtain ⟨read,msg,id,written,caller,has⟩ := sourced.replies c resp here
    exact ⟨msg,id,out,books.carried i msg (.inr (.inr (.inr ⟨id,written⟩))),caller,written,has,sourced.returned,read⟩
  · intro msg i given stays
    refine (books.sent _ given).imp_right fun submitted => ?_
    have one := (accounted i).present _ submitted stays
    rw [State.tally] at one
    by_cases held : msg.caller ∈ (p.conns i).held
    · exact .inl held
    · rw [List.count_eq_zero.mpr held,Nat.zero_add] at one
      exact .inr (List.count_pos_iff.mp (one ▸ Nat.one_pos))

/-- Three calls over two connections. -/
theorem pool_calls_exact_third : ∃ past, ∃ p : Pool, Run (step (tableSerde twoCalls) ⟨2,by decide⟩) initial past p ∧
    p.given.map Prod.snd = [0,1,0] ∧ RoundRobin.EvenlyServed 2 (p.given.map Prod.snd) ∧
    (p.conns 0).replies = [(0,.response (.ok (.num 1) (.bool true)))] ∧
    ((2 ∈ p.waiting.map fun g => g.1.caller) ∨ 2 ∈ (p.conns 0).held) := by
  obtain ⟨past,p,run,turns,replies,here⟩ := exists_run (step (tableSerde twoCalls) ⟨2,by decide⟩) initial
    [.call ⟨0,"a",.null⟩,.call ⟨1,"b",.null⟩,.call ⟨2,"a",.null⟩,.send ⟨1,"b",.null⟩ 1,.send ⟨2,"a",.null⟩ 0,
      .send ⟨0,"a",.null⟩ 0,.conn 0 (.enter ⟨0,"a",.null⟩),.conn 0 .recv,.conn 0 .written,
      .conn 0 (.receive (text "\x7b\"id\":1,\"jsonrpc\":\"2.0\",\"result\":true\x7d\n")),.conn 0 .frame]
    (fun _ p => p.given.map Prod.snd = [0,1,0] ∧ (p.conns 0).replies = [(0,.response (.ok (.num 1) (.bool true)))] ∧
      (⟨2,"a",.null⟩,0) ∈ p.given ∧ 2 ∉ (p.conns 0).cancelled)
    (by decide +kernel)
  obtain ⟨given,stays⟩ := here
  obtain ⟨_,even,_,_,_,there,_⟩ := pool_calls_exact (tableSerde twoCalls) ⟨2,by decide⟩ run
  refine ⟨past,p,run,turns,even (.inl (by decide)),replies,?_⟩
  rcases there _ _ given stays with waiting | held | replied
  · exact .inl (List.mem_map.mpr ⟨_,waiting,rfl⟩)
  · exact .inr held
  · rw [replies] at replied
    simp at replied

end Malkuth.ClientPool
