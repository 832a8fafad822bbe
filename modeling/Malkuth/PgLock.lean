import Malkuth.ReentrantLock
import Malkuth.Transition

/-! The advisory locks of `pg_lock.rs`. Any number of `PgLock` values share any number of
sessions; the server takes `pg_try_advisory_lock` and `pg_advisory_unlock` one at a time.
A call may fail before the server saw it, or after, with only its answer lost. -/
namespace Malkuth.Pg

open Transition ReentrantLock

/-- `key_to_i64`: fnv-1a over the bytes of the key, reinterpreted. -/
def keyToI64 (key : String) : Int64 :=
  ((key.toList.flatMap String.utf8EncodeChar).foldl
    (fun h (b : UInt8) => (h ^^^ b.toUInt64) * 0x100000001b3) (0xcbf29ce484222325 : UInt64)).toInt64

/-- `client` names the session behind the `Arc<Client>`. -/
structure PgLock (Session : Type) where
  client : Session

/-- A guard that was handed out; `name` is the key it was asked for, and `released` says
that `release` was called on it. Dropping it does nothing. -/
structure PgGuard (Session : Type) where
  client : Session
  key : Int64
  name : String
  released : Bool

structure State (Session : Type) where
  table : Table Int64 Session
  guards : List (PgGuard Session)

def State.new : State Session := ⟨fun _ => none,[]⟩

/-- What became of a query. -/
inductive Reply where
  | answered
  /-- The server ran it; the caller got an error or was cancelled. -/
  | lost
  /-- The server never saw it. -/
  | failed
  deriving DecidableEq, Repr

inductive Event (Session : Type) where
  | acquire (lock : PgLock Session) (key : String) (reply : Reply)
  | release (guard : Nat) (reply : Reply)

section Steps

variable {Session : Type} [DecidableEq Session]

/-- `PgLock::acquire`: a guard on an answered success, else `Contended` or an I/O error. -/
def State.acquire (s : State Session) (lock : PgLock Session) (key : String) (reply : Reply) : State Session :=
  let k := keyToI64 key
  let (got,table) := tryLock s.table lock.client k
  match reply with
  | .answered => ⟨table,if got then s.guards ++ [⟨lock.client,k,key,false⟩] else s.guards⟩
  | .lost => { s with table := table }
  | .failed => s

/-- `PgGuard::release`: the answer of `pg_advisory_unlock` and its errors are ignored. -/
def State.release (s : State Session) (i : Nat) (reply : Reply) : Option (State Session) :=
  (s.guards[i]?).map fun g =>
    ⟨if reply = .failed then s.table else unlock s.table g.client g.key,
      s.guards.set i { g with released := true }⟩

def step (s : State Session) : Event Session → Option (State Session)
  | .acquire lock key reply => some (s.acquire lock key reply)
  | .release i reply => s.release i reply

end Steps

/-- The guards that were acquired and not yet released. -/
def State.live (s : State Session) : List (PgGuard Session) := s.guards.filter fun g => !g.released

def Exclusive (s : State Session) : Prop := (s.live.map PgGuard.name).Nodup

/-- No session takes a key that it has a guard for, and no guard is released again while its
session has a newer guard of that lock. -/
def Careful (s : State Session) : Event Session → Prop
  | .acquire lock key reply => reply = .answered → ∀ g ∈ s.live, g.client = lock.client → g.name ≠ key
  | .release i _ => ∀ g, s.guards[i]? = some g → g.released = true →
    ∀ other ∈ s.live, other.client = g.client → other.key ≠ g.key

instance [DecidableEq Session] (s : State Session) (e : Event Session) : Decidable (Careful s e) :=
  match e with
  | .acquire lock key reply =>
    inferInstanceAs (Decidable (reply = .answered → ∀ g ∈ s.live, g.client = lock.client → g.name ≠ key))
  | .release i _ => decidable_of_iff (∀ g ∈ s.guards[i]?, g.released = true →
      ∀ other ∈ s.live, other.client = g.client → other.key ≠ g.key) Iff.rfl

section Exclusion

variable {Session : Type} [DecidableEq Session] {s : State Session}

def PgGuard.Live (g : PgGuard Session) (k : Int64) (c : Session) : Bool :=
  !g.released && (g.key == k && g.client == c)

def State.liveCount (s : State Session) (k : Int64) (c : Session) : Nat := s.guards.countP fun g => g.Live k c

/-- Every live guard is backed by a success of its own on the server, and a session has one
for each key. -/
structure Backed (s : State Session) : Prop where
  backs : ∀ k c, s.liveCount k c ≤ held s.table k c
  apart : (s.live.map fun g => (g.client,g.name)).Nodup
  keyed : ∀ g ∈ s.live, g.key = keyToI64 g.name

theorem liveCount_pos (s : State Session) (member : g ∈ s.live) : 0 < s.liveCount g.key g.client := by
  obtain ⟨member,live⟩ := List.mem_filter.mp member
  have unreleased : g.released = false := by simpa using live
  exact List.countP_pos_iff.mpr ⟨g,member,by simp [PgGuard.Live,unreleased]⟩

theorem liveCount_snoc (s : State Session) (table) (client : Session) (key : Int64) (name : String) (k c) :
    State.liveCount ⟨table,s.guards ++ [⟨client,key,name,false⟩]⟩ k c =
      s.liveCount k c + if key = k ∧ client = c then 1 else 0 := by
  simp [State.liveCount,List.countP_append,List.countP_singleton,PgGuard.Live]

theorem backed_new : Backed (State.new : State Session) := by
  constructor <;> simp [State.new,State.liveCount,State.live]

/-- Two live guards of one key would be two successes on one lock, so of one session. -/
theorem Backed.exclusive (backed : Backed s) : Exclusive s := by
  rw [Exclusive,List.Nodup,List.pairwise_map]
  have apart := backed.apart
  rw [List.Nodup,List.pairwise_map] at apart
  apply apart.imp_of_mem
  intro g g' first second differ same
  have shared : g.key = g'.key := by rw [backed.keyed g first,backed.keyed g' second,same]
  have mine := Nat.lt_of_lt_of_le (liveCount_pos s first) (backed.backs _ _)
  have theirs := Nat.lt_of_lt_of_le (liveCount_pos s second) (backed.backs _ _)
  rw [← shared] at theirs
  exact differ (Prod.ext (held_sole s.table g.key mine theirs) same)

/-- A table in which no session has lost anything backs the same guards. -/
theorem Backed.grow (backed : Backed s) (more : ∀ k c, held s.table k c ≤ held table k c) :
    Backed ⟨table,s.guards⟩ where
  backs k c := Nat.le_trans (backed.backs k c) (more k c)
  apart := backed.apart
  keyed := backed.keyed

theorem acquire_backed (s : State Session) (lock : PgLock Session) (key : String) (reply : Reply)
    (backed : Backed s) (careful : Careful s (.acquire lock key reply)) :
    Backed (s.acquire lock key reply) := by
  have grown := backed.grow fun k c => held_le_tryLock s.table lock.client (keyToI64 key) k c
  cases reply with
  | failed => exact backed
  | lost => exact grown
  | answered =>
    cases got : (tryLock s.table lock.client (keyToI64 key)).1 with
    | false => simpa [State.acquire,got] using grown
    | true =>
      have after : s.acquire lock key .answered = ⟨(tryLock s.table lock.client (keyToI64 key)).2,
          s.guards ++ [⟨lock.client,keyToI64 key,key,false⟩]⟩ := by simp [State.acquire,got]
      have live : (s.acquire lock key .answered).live = s.live ++ [⟨lock.client,keyToI64 key,key,false⟩] := by
        simp [after,State.live]
      refine ⟨?_,?_,?_⟩
      · intro k c
        rw [after,liveCount_snoc]
        by_cases here : keyToI64 key = k ∧ lock.client = c
        · obtain ⟨rfl,rfl⟩ := here
          rw [held_tryLock s.table lock.client (keyToI64 key) got]
          simpa using backed.backs _ _
        · rw [if_neg here]
          exact grown.backs k c
      · rw [live,List.map_append,List.nodup_append]
        refine ⟨backed.apart,by simp,?_⟩
        intro pair known new isNew same
        obtain ⟨g,member,rfl⟩ := List.mem_map.mp known
        obtain rfl : new = (lock.client,key) := by simpa using isNew
        exact careful rfl g member (Prod.mk.inj same).1 (Prod.mk.inj same).2
      · intro g member
        rw [live] at member
        rcases List.mem_append.mp member with old | new
        · exact backed.keyed g old
        · obtain rfl := List.mem_singleton.mp new
          rfl

omit [DecidableEq Session] in
/-- Releasing a guard leaves the other live ones, in their order. -/
theorem live_set (s : State Session) (i : Nat) (g : PgGuard Session) (table) :
    (State.live ⟨table,s.guards.set i { g with released := true }⟩).Sublist s.live := by
  unfold State.live
  generalize s.guards = guards
  induction guards generalizing i with
  | nil => simp
  | cons first rest ih =>
    cases i with
    | zero =>
      rw [List.set_cons_zero,List.filter_cons_of_neg (by simp)]
      exact (List.sublist_cons_self first rest).filter _
    | succ i =>
      rw [List.set_cons_succ,List.filter_cons,List.filter_cons]
      split
      · exact (ih i).cons_cons first
      · exact ih i

theorem release_backed (s s' : State Session) (i : Nat) (reply : Reply) (backed : Backed s)
    (careful : Careful s (.release i reply)) (taken : s.release i reply = some s') : Backed s' := by
  obtain ⟨g,found,rfl⟩ := Option.map_eq_some_iff.mp taken
  have fewer := live_set s i g (if reply = .failed then s.table else unlock s.table g.client g.key)
  refine ⟨?_,(fewer.map _).nodup backed.apart,fun other member => backed.keyed other (fewer.subset member)⟩
  intro k c
  obtain ⟨bound,at_i⟩ := List.getElem?_eq_some_iff.mp found
  have before := backed.backs k c
  -- the unlock may take a success from the session; then a live guard of it has gone, or it had none
  have unlocked : held s.table k c - (if k = g.key ∧ c = g.client then 1 else 0) ≤
      held (if reply = .failed then s.table else unlock s.table g.client g.key) k c := by
    by_cases unseen : reply = .failed
    · rw [if_pos unseen]
      exact Nat.sub_le ..
    · exact Nat.le_of_eq (by rw [if_neg unseen,held_unlock])
  have after (table) : State.liveCount ⟨table,s.guards.set i { g with released := true }⟩ k c =
      s.liveCount k c - (if g.Live k c then 1 else 0) := by
    rw [State.liveCount,List.countP_set bound,at_i]
    simp [State.liveCount,PgGuard.Live]
  rw [after]
  refine Nat.le_trans ?_ unlocked
  by_cases here : k = g.key ∧ c = g.client
  · obtain ⟨rfl,rfl⟩ := here
    cases released : g.released with
    | false =>
      have live : g.Live g.key g.client = true := by simp [PgGuard.Live,released]
      simp only [live,and_self,if_true]
      omega
    | true =>
      have none_ : s.liveCount g.key g.client = 0 := by
        rw [State.liveCount,List.countP_eq_zero]
        intro other member live
        simp only [PgGuard.Live,Bool.and_eq_true,Bool.not_eq_true',beq_iff_eq] at live
        have inLive : other ∈ s.live := List.mem_filter.mpr ⟨member,by simp [live.1]⟩
        exact careful g found released other inLive live.2.2 live.2.1
      simp [none_]
  · have other : g.Live k c = false := by
      simp only [PgGuard.Live,Bool.and_eq_false_imp,beq_eq_false_iff_ne,beq_iff_eq]
      intro _ same
      exact fun client => here ⟨same.symm,client.symm⟩
    simpa [here,other] using before

theorem step_backed (s : State Session) (e : Event Session) (s' : State Session) (backed : Backed s)
    (careful : Careful s e) (taken : step s e = some s') : Backed s' := by
  cases e with
  | acquire lock key reply =>
    obtain rfl := Option.some.inj taken
    exact acquire_backed s lock key reply backed careful
  | release i reply => exact release_backed s s' i reply backed careful taken

/-- In every run in which no session asks for a key that it has a guard for, and no guard is
released again over a newer one, there is at most one live guard for each key. -/
theorem at_most_one_guard (past : List (Taken (State Session) (Event Session))) (s : State Session)
    (run : Run step State.new past s) (careful : ∀ t ∈ past, Careful t.pre t.event) : Exclusive s :=
  (run.invariant backed_new step_backed careful).exclusive

end Exclusion

/-- Two sessions: the second is refused, then takes the key over after the release, which is
called twice. -/
theorem at_most_one_guard_handed : ∃ past, ∃ s : State Nat, Run step State.new past s ∧
    (∀ t ∈ past, Careful t.pre t.event) ∧ s.guards.length = 2 ∧ Exclusive s := by
  let events : List (Event Nat) := [.acquire ⟨1⟩ "device-a" .answered,.acquire ⟨2⟩ "device-a" .answered,
    .release 0 .answered,.release 0 .answered,.acquire ⟨2⟩ "device-a" .answered]
  obtain ⟨past,s,run,careful,two⟩ := exists_run step State.new events
    (fun past s => (∀ t ∈ past, Careful t.pre t.event) ∧ s.guards.length = 2) (by decide +kernel)
  exact ⟨past,s,run,careful,two,at_most_one_guard past s run careful⟩

/-- The key that a call asks for. -/
def Event.asks : Event Session → Option String
  | .acquire _ key _ => some key
  | .release _ _ => none

def HashesApart (past : List (Taken (State Session) (Event Session))) : Prop :=
  ∀ t ∈ past, ∀ u ∈ past, ∀ k ∈ t.event.asks, ∀ l ∈ u.event.asks, keyToI64 k = keyToI64 l → k = l

/-- One lock object, asked twice: both callers get a guard. -/
theorem guards_shared : ¬ ∀ past, ∀ s : State Nat, Run step State.new past s → HashesApart past → Exclusive s := by
  intro exclusive
  obtain ⟨past,s,run,asked,twice⟩ := exists_run step State.new
    [.acquire ⟨1⟩ "device-a" .answered,.acquire ⟨1⟩ "device-a" .answered]
    (fun past (s : State Nat) => (∀ t ∈ past, t.event.asks = some "device-a") ∧
      ¬ (s.live.map PgGuard.name).Nodup) (by decide +kernel)
  have apart : HashesApart past := by
    intro t first u second k asks l asks' _
    have own := Option.some.inj ((asked t first).symm.trans asks)
    exact own.symm.trans (Option.some.inj ((asked u second).symm.trans asks'))
  exact twice (exclusive past s run apart)

end Malkuth.Pg
