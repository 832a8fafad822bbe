import Malkuth.FrameReader
import Malkuth.JsonRpc
import Malkuth.Transition
import Mathlib.Data.List.Nodup

/-! `conn_task` of `client.rs` with the callers of `ClientPool::call` that were given its
connection: its channel, its table of pending ids and its reads, which `select!` drops and
starts again whenever a call comes in. -/
namespace Malkuth.ConnTask

open Codec Json JsonRpc Transition

structure CallMsg where
  caller : Nat
  method : String
  params : Value
  deriving DecidableEq

/-- What a caller gets: a response frame's, or an error of the client's own. -/
inductive Reply where
  | response (resp : Response)
  | failed (e : RpcError)
  deriving DecidableEq

inductive Phase where
  | selecting
  /-- In `write_msg`. -/
  | writing (msg : CallMsg) (id : UInt64)
  | ended
  deriving DecidableEq

/-- `sending` are the callers that wait for room in the channel, `cancelled` those whose future
was dropped. `wrote` are the requests that were written, with their ids. -/
structure State where
  phase : Phase
  nextId : UInt64
  reader : Reader
  sending : List CallMsg
  queue : List CallMsg
  pending : List (UInt64 × Nat)
  submitted : List Nat
  cancelled : List Nat
  wrote : List (CallMsg × UInt64)
  replies : List (Nat × Reply)
  deriving DecidableEq

inductive Event where
  /-- `ClientPool::call` picks this connection. -/
  | submit (msg : CallMsg)
  /-- A sender gets its place in the channel. -/
  | enter (msg : CallMsg)
  | cancel (caller : Nat)
  /-- `rx.recv()`. -/
  | recv
  | written
  | writeFails (message : String)
  | receive (chunk : List UInt8)
  /-- A read of the stream fails or returns nothing. -/
  | disconnect
  | frame
  /-- The pool is gone and its channel empty. -/
  | poolDropped

def capacity : Nat := 128

def closedError : RpcError := .server "connection task closed"

def droppedError : RpcError := .server "connection task dropped reply"

def State.hears (s : State) (reply : Reply) (callers : List Nat) : List (Nat × Reply) :=
  (callers.filter fun c => c ∉ s.cancelled).map fun c => (c,reply)

/-- The task returns: its receiver and its table are dropped, and with them the senders of all
replies. -/
def State.close (s : State) : State :=
  { s with
    phase := .ended, sending := [], queue := [], pending := []
    replies := s.replies ++ s.hears (.failed droppedError) (s.queue.map CallMsg.caller ++ s.pending.map Prod.snd) ++
      s.hears (.failed closedError) (s.sending.map CallMsg.caller) }

def State.takePending (s : State) (id : UInt64) : Option (Nat × State) :=
  (s.pending.find? fun p => p.1 = id).map fun p =>
    (p.2,{ s with pending := s.pending.filter fun p => p.1 ≠ id })

/-- `pending.insert`, which drops a sender that was there under the same id. -/
def State.putPending (s : State) (id : UInt64) (caller : Nat) : State :=
  let old := (s.pending.filter fun p => p.1 = id).map Prod.snd
  { s with
    pending := (s.pending.filter fun p => p.1 ≠ id) ++ [(id,caller)]
    replies := s.replies ++ s.hears (.failed droppedError) old }

/-- A response frame. -/
def State.settle (s : State) (resp : Response) : State :=
  match resp.id with
  | .num id =>
    match s.takePending id with
    | some (caller,s') => { s' with replies := s.replies ++ s.hears (.response resp) [caller] }
    | none => s
  | _ => s

variable {Error : Type} (serde : Serde Error)

def State.afterFrame (s : State) : Except Error Value → State
  | .error _ => s.close
  | .ok v =>
    if v = .null then s
    else
      match Response.fromValue v with
      | some resp => s.settle resp
      | none => s

def step (s : State) : Event → Option State
  | .submit msg =>
    if msg.caller ∈ s.submitted then none
    else if s.phase = .ended then
      some { s with
        submitted := s.submitted ++ [msg.caller], replies := s.replies ++ [(msg.caller,.failed closedError)] }
    else some { s with submitted := s.submitted ++ [msg.caller], sending := s.sending ++ [msg] }
  | .enter msg =>
    if msg ∈ s.sending ∧ s.queue.length < capacity then
      some { s with sending := s.sending.erase msg, queue := s.queue ++ [msg] }
    else none
  | .cancel caller =>
    if caller ∈ s.submitted then
      some { s with
        cancelled := s.cancelled ++ [caller], sending := s.sending.filter fun msg => msg.caller ≠ caller }
    else none
  | .recv =>
    match s.phase, s.queue with
    | .selecting, msg :: queue =>
      some { s with phase := .writing msg s.nextId, nextId := s.nextId + 1, queue := queue }
    | _, _ => none
  | .written =>
    match s.phase with
    | .writing msg id => some ({ s with phase := .selecting, wrote := s.wrote ++ [(msg,id)] }.putPending id msg.caller)
    | _ => none
  | .writeFails message =>
    match s.phase with
    | .writing msg _ =>
      some { s with replies := s.replies ++ s.hears (.failed (.server ("write: " ++ message))) [msg.caller] }.close
    | _ => none
  | .receive chunk =>
    if s.phase = .selecting then (s.reader.receive serde.json chunk).map fun reader => { s with reader := reader }
    else none
  | .disconnect =>
    if s.phase = .selecting ∧ (takeFrame serde.json s.reader.rdBuf).isNone then some s.close else none
  | .frame =>
    if s.phase = .selecting then
      (s.reader.take serde.json).map fun (res,reader) => { s with reader := reader }.afterFrame res
    else none
  | .poolDropped => if s.phase = .selecting ∧ s.sending = [] ∧ s.queue = [] then some s.close else none

def initial (idBase : UInt64) : State := ⟨.selecting,idBase,.new,[],[],[],[],[],[],[]⟩

section Inversion

def Phase.writer : Phase → List Nat
  | .writing msg _ => [msg.caller]
  | _ => []

@[simp] theorem writer_ended : Phase.writer .ended = [] := rfl

@[simp] theorem writer_selecting : Phase.writer .selecting = [] := rfl

@[simp] theorem writer_writing (msg : CallMsg) (id : UInt64) : Phase.writer (.writing msg id) = [msg.caller] := rfl

/-- The task returns; who is at the wire hears of it first. -/
def State.fail (s : State) (e : RpcError) : State :=
  { s with replies := s.replies ++ s.hears (.failed e) s.phase.writer }.close

theorem close_eq_fail (s : State) (idle : s.phase = .selecting) : s.close = s.fail droppedError := by
  have nobody : s.hears (.failed droppedError) s.phase.writer = [] := by rw [idle]; rfl
  rw [State.fail,nobody,List.append_nil]

inductive Steps (s : State) : State → Prop where
  | refuse (msg : CallMsg) : msg.caller ∉ s.submitted → s.phase = .ended →
      Steps s { s with
        submitted := s.submitted ++ [msg.caller], replies := s.replies ++ [(msg.caller,.failed closedError)] }
  | submit (msg : CallMsg) : msg.caller ∉ s.submitted → s.phase ≠ .ended →
      Steps s { s with submitted := s.submitted ++ [msg.caller], sending := s.sending ++ [msg] }
  | enter : msg ∈ s.sending → Steps s { s with sending := s.sending.erase msg, queue := s.queue ++ [msg] }
  | cancel (caller : Nat) : Steps s { s with
      cancelled := s.cancelled ++ [caller], sending := s.sending.filter fun msg => msg.caller ≠ caller }
  | recv : s.phase = .selecting → s.queue = msg :: queue →
      Steps s { s with phase := .writing msg s.nextId, nextId := s.nextId + 1, queue := queue }
  | written (msg : CallMsg) (id : UInt64) : s.phase = .writing msg id →
      Steps s ({ s with phase := .selecting, wrote := s.wrote ++ [(msg,id)] }.putPending id msg.caller)
  | fail (e : RpcError) : s.phase ≠ .ended →
      (reader = s.reader ∨ ∃ err, s.reader.take serde.json = some (.error err,reader)) →
      Steps s ({ s with reader := reader }.fail e)
  | receive : s.phase = .selecting → s.reader.receive serde.json chunk = some reader →
      Steps s { s with reader := reader }
  | skip : s.phase = .selecting → s.reader.take serde.json = some (.ok v,reader) → Steps s { s with reader := reader }
  | settle (reader : Reader) (v : Value) (resp : Response) : s.phase = .selecting →
      s.reader.take serde.json = some (.ok v,reader) → v ≠ .null →
      Response.fromValue v = some resp → Steps s ({ s with reader := reader }.settle resp)

theorem step_steps (taken : step serde s e = some s') : Steps serde s s' := by
  cases e with
  | submit msg =>
    obtain ⟨fresh,taken⟩ := Option.ite_none_left_eq_some.mp taken
    split at taken
    next ended =>
      obtain rfl := Option.some.inj taken
      exact .refuse msg fresh ended
    next running =>
      obtain rfl := Option.some.inj taken
      exact .submit msg fresh running
  | enter msg =>
    obtain ⟨⟨member,_⟩,rfl⟩ := Option.ite_some_none_eq_some.mp taken
    exact .enter member
  | cancel caller =>
    obtain ⟨_,rfl⟩ := Option.ite_some_none_eq_some.mp taken
    exact .cancel caller
  | recv =>
    simp only [step] at taken
    split at taken
    next msg queue idle first =>
      obtain rfl := Option.some.inj taken
      exact .recv idle first
    · contradiction
  | written =>
    simp only [step] at taken
    split at taken
    next msg id writing =>
      obtain rfl := Option.some.inj taken
      exact .written msg id writing
    · contradiction
  | writeFails message =>
    simp only [step] at taken
    split at taken
    next msg id writing =>
      obtain rfl := Option.some.inj taken
      have failed : Steps serde s ({ s with reader := s.reader }.fail (.server ("write: " ++ message))) :=
        .fail _ (by simp [writing]) (.inl rfl)
      simpa only [State.fail,writing,writer_writing] using failed
    · contradiction
  | receive chunk =>
    obtain ⟨idle,taken⟩ := Option.ite_none_right_eq_some.mp taken
    obtain ⟨reader,received,rfl⟩ := Option.map_eq_some_iff.mp taken
    exact .receive idle received
  | disconnect =>
    obtain ⟨⟨idle,_⟩,rfl⟩ := Option.ite_some_none_eq_some.mp taken
    rw [close_eq_fail s idle]
    exact .fail _ (by simp [idle]) (.inl rfl)
  | frame =>
    obtain ⟨idle,taken⟩ := Option.ite_none_right_eq_some.mp taken
    obtain ⟨⟨res,reader⟩,took,rfl⟩ := Option.map_eq_some_iff.mp taken
    cases res with
    | error err =>
      have failed : Steps serde s ({ s with reader := reader }.fail droppedError) :=
        .fail _ (by simp [idle]) (.inr ⟨err,took⟩)
      rw [← close_eq_fail { s with reader := reader } idle] at failed
      exact failed
    | ok v =>
      simp only [State.afterFrame]
      split
      · exact .skip idle took
      next some_ =>
        split
        next resp read => exact .settle reader v resp idle took some_ read
        · exact .skip idle took
  | poolDropped =>
    obtain ⟨⟨idle,_⟩,rfl⟩ := Option.ite_some_none_eq_some.mp taken
    rw [close_eq_fail s idle]
    exact .fail _ (by simp [idle]) (.inl rfl)

end Inversion

section Tally

/-- The callers whose request is not written yet. -/
def State.unwritten (s : State) : List Nat :=
  s.sending.map CallMsg.caller ++ s.queue.map CallMsg.caller ++ s.phase.writer

def State.held (s : State) : List Nat := s.unwritten ++ s.pending.map Prod.snd

def State.tally (s : State) (c : Nat) : Nat := s.held.count c + (s.replies.map Prod.fst).count c

/-- How often the request of a caller was written or is still to be. -/
def State.ledger (s : State) (c : Nat) : Nat :=
  s.unwritten.count c + (s.wrote.map fun w => w.1.caller).count c

/-- A caller is never in two places, and nobody is lost but who went away. -/
structure Accounted (s : State) : Prop where
  once : ∀ c, s.tally c ≤ if c ∈ s.submitted then 1 else 0
  present : ∀ c ∈ s.submitted, c ∉ s.cancelled → s.tally c = 1
  ledger : ∀ c, s.ledger c ≤ if c ∈ s.submitted then 1 else 0
  keys : (s.pending.map Prod.fst).Nodup
  ended : s.phase = .ended → s.held = []

/-- A step moves callers from place to place, and drops none that is still there. -/
structure Moves (s s' : State) : Prop where
  submitted : s'.submitted = s.submitted
  cancelled : s.cancelled ⊆ s'.cancelled
  less : ∀ c, s'.tally c ≤ s.tally c
  same : ∀ c, c ∉ s'.cancelled → s'.tally c = s.tally c
  ledger : ∀ c, s'.ledger c ≤ s.ledger c
  keys : (s'.pending.map Prod.fst).Nodup
  ended : s'.phase = .ended → s'.held = []

theorem Accounted.moves (accounted : Accounted s) (moves : Moves s s') : Accounted s' where
  once c := by
    rw [moves.submitted]
    exact Nat.le_trans (moves.less c) (accounted.once c)
  present c member stays := by
    rw [moves.submitted] at member
    rw [moves.same c stays]
    exact accounted.present c member fun gone => stays (moves.cancelled gone)
  ledger c := by
    rw [moves.submitted]
    exact Nat.le_trans (moves.ledger c) (accounted.ledger c)
  keys := moves.keys
  ended := moves.ended

theorem hears_callers (s : State) (reply : Reply) (callers : List Nat) (c : Nat) :
    ((s.hears reply callers).map Prod.fst).count c = if c ∈ s.cancelled then 0 else callers.count c := by
  have same : (s.hears reply callers).map Prod.fst = callers.filter fun c => c ∉ s.cancelled := by
    rw [State.hears,List.map_map]
    exact List.map_id _
  rw [same]
  by_cases gone : c ∈ s.cancelled
  · rw [if_pos gone,List.count_eq_zero]
    simp [gone]
  · rw [if_neg gone,List.count_filter (by simpa using gone)]

theorem count_split (pending : List (UInt64 × Nat)) (id : UInt64) (c : Nat) :
    (pending.map Prod.snd).count c =
      ((pending.filter fun p => p.1 = id).map Prod.snd).count c +
      ((pending.filter fun p => p.1 ≠ id).map Prod.snd).count c := by
  have parts := ((List.filter_append_perm (fun p => decide (p.1 = id)) pending).map Prod.snd).count_eq c
  simp only [List.map_append,List.count_append] at parts
  simp only [ne_eq,decide_not]
  exact parts.symm

theorem tally_eq (s : State) (c : Nat) :
    s.tally c = (s.sending.map CallMsg.caller).count c + (s.queue.map CallMsg.caller).count c +
      s.phase.writer.count c + (s.pending.map Prod.snd).count c + (s.replies.map Prod.fst).count c := by
  simp only [State.tally,State.held,State.unwritten,List.count_append]

theorem ledger_eq (s : State) (c : Nat) :
    s.ledger c = (s.sending.map CallMsg.caller).count c + (s.queue.map CallMsg.caller).count c +
      s.phase.writer.count c + (s.wrote.map fun w => w.1.caller).count c := by
  simp only [State.ledger,State.unwritten,List.count_append]

theorem fail_moves (s : State) (e : RpcError) : Moves s (s.fail e) := by
  have tally (c : Nat) : (s.fail e).tally c =
      (s.replies.map Prod.fst).count c + if c ∈ s.cancelled then 0 else s.held.count c := by
    rw [tally_eq]
    simp only [State.fail,State.close,writer_ended,List.map_append,List.count_append,List.map_nil,List.count_nil]
    rw [hears_callers,hears_callers,hears_callers]
    simp only [List.count_append,State.held,State.unwritten]
    split <;> omega
  refine ⟨rfl,List.Subset.refl _,?_,?_,?_,List.nodup_nil,fun _ => rfl⟩
  · intro c
    rw [tally,State.tally]
    split <;> omega
  · intro c stays
    have stays : c ∉ s.cancelled := stays
    rw [tally,if_neg stays,State.tally]
    omega
  · intro c
    rw [ledger_eq,ledger_eq]
    simp only [State.fail,State.close,writer_ended,List.map_nil,List.count_nil]
    omega

theorem filter_found (pending : List (UInt64 × Nat)) (id : UInt64) (keys : (pending.map Prod.fst).Nodup)
    (found : pending.find? (fun p => p.1 = id) = some p) : (pending.filter fun p => p.1 = id) = [p] := by
  induction pending with
  | nil => simp at found
  | cons q pending ih =>
    obtain ⟨fresh,keys⟩ := List.nodup_cons.mp keys
    by_cases here : q.1 = id
    · obtain rfl : q = p := by simpa [here] using found
      have none_ : (pending.filter fun p => p.1 = id) = [] := by
        refine List.filter_eq_nil_iff.mpr fun r member same => fresh ?_
        rw [here,← of_decide_eq_true same]
        exact List.mem_map_of_mem member
      rw [List.filter_cons_of_pos (by simp [here]),none_]
    · rw [List.filter_cons_of_neg (by simp [here])]
      exact ih keys (by simpa [here] using found)

theorem keys_filter {pending : List (UInt64 × Nat)} (keys : (pending.map Prod.fst).Nodup) (p : UInt64 × Nat → Bool) :
    ((pending.filter p).map Prod.fst).Nodup := keys.sublist (List.filter_sublist.map _)

theorem settle_moves (s : State) (resp : Response) (keys : (s.pending.map Prod.fst).Nodup)
    (running : s.phase ≠ .ended) : Moves s (s.settle resp) := by
  have still : Moves s s := ⟨rfl,List.Subset.refl _,fun _ => Nat.le_refl _,fun _ _ => rfl,fun _ => Nat.le_refl _,keys,
    fun ended => absurd ended running⟩
  simp only [State.settle]
  split
  next id _ =>
    cases found : s.pending.find? (fun p => p.1 = id) with
    | none => simpa [State.takePending,found] using still
    | some p =>
      simp only [State.takePending,found,Option.map_some]
      have one := filter_found s.pending id keys found
      have split_ (c : Nat) := count_split s.pending id c
      simp only [one] at split_
      refine ⟨rfl,List.Subset.refl _,?_,?_,fun _ => Nat.le_refl _,keys_filter keys _,fun ended => absurd ended running⟩
      · intro c
        rw [tally_eq,tally_eq,split_ c]
        simp only [List.map_append,List.count_append,hears_callers,List.map_cons,List.map_nil]
        split <;> omega
      · intro c stays
        have stays : c ∉ s.cancelled := stays
        rw [tally_eq,tally_eq,split_ c]
        simp only [List.map_append,List.count_append,hears_callers,List.map_cons,List.map_nil,if_neg stays]
        omega
  · exact still

theorem written_moves (s : State) (msg : CallMsg) (id : UInt64) (keys : (s.pending.map Prod.fst).Nodup)
    (writing : s.phase = .writing msg id) :
    Moves s ({ s with phase := .selecting, wrote := s.wrote ++ [(msg,id)] }.putPending id msg.caller) := by
  have tally (c : Nat) :
      ({ s with phase := .selecting, wrote := s.wrote ++ [(msg,id)] }.putPending id msg.caller).tally c =
        (s.sending.map CallMsg.caller).count c + (s.queue.map CallMsg.caller).count c + [msg.caller].count c +
        ((s.pending.filter fun p => p.1 ≠ id).map Prod.snd).count c + (s.replies.map Prod.fst).count c +
        if c ∈ s.cancelled then 0 else ((s.pending.filter fun p => p.1 = id).map Prod.snd).count c := by
    rw [tally_eq]
    simp only [State.putPending,writer_selecting,List.map_append,List.count_append,hears_callers,List.map_cons,
      List.map_nil,List.count_nil]
    omega
  have before (c : Nat) := tally_eq s c
  simp only [writing,writer_writing,count_split s.pending id] at before
  refine ⟨rfl,List.Subset.refl _,?_,?_,?_,?_,by simp [State.putPending]⟩
  · intro c
    rw [tally,before]
    split <;> omega
  · intro c stays
    have stays : c ∉ s.cancelled := stays
    rw [tally,before,if_neg stays]
    omega
  · intro c
    rw [ledger_eq,ledger_eq,writing]
    simp only [State.putPending,writer_selecting,writer_writing,List.map_append,List.count_append,List.map_cons,
      List.map_nil,List.count_nil]
    omega
  · simp only [State.putPending,List.map_append,List.map_cons,List.map_nil]
    refine List.nodup_append.mpr ⟨keys_filter keys _,List.nodup_singleton _,?_⟩
    intro key inside other single
    obtain rfl := List.mem_singleton.mp single
    obtain ⟨p,member,rfl⟩ := List.mem_map.mp inside
    simpa using (List.mem_filter.mp member).2

theorem enter_moves (s : State) (msg : CallMsg) (keys : (s.pending.map Prod.fst).Nodup) (member : msg ∈ s.sending)
    (running : s.phase ≠ .ended) : Moves s { s with sending := s.sending.erase msg, queue := s.queue ++ [msg] } := by
  have split_ (c : Nat) := ((List.perm_cons_erase member).map CallMsg.caller).count_eq c
  simp only [List.map_cons,List.count_cons] at split_
  have tally (c : Nat) : ({ s with sending := s.sending.erase msg, queue := s.queue ++ [msg] } : State).tally c = s.tally c := by
    rw [tally_eq,tally_eq,split_ c]
    simp only [List.map_append,List.count_append,List.map_cons,List.map_nil,List.count_cons,List.count_nil]
    omega
  refine ⟨rfl,List.Subset.refl _,fun c => Nat.le_of_eq (tally c),fun c _ => tally c,?_,keys,fun ended => absurd ended running⟩
  intro c
  rw [ledger_eq,ledger_eq,split_ c]
  simp only [List.map_append,List.count_append,List.map_cons,List.map_nil,List.count_cons,List.count_nil]
  omega

theorem cancel_moves (s : State) (caller : Nat) (keys : (s.pending.map Prod.fst).Nodup)
    (ended : s.phase = .ended → s.held = []) : Moves s { s with
      cancelled := s.cancelled ++ [caller], sending := s.sending.filter fun msg => msg.caller ≠ caller } := by
  have kept (c : Nat) : ((s.sending.filter fun msg => msg.caller ≠ caller).map CallMsg.caller).count c =
      if c = caller then 0 else (s.sending.map CallMsg.caller).count c := by
    have same : (s.sending.filter fun msg => msg.caller ≠ caller).map CallMsg.caller =
        (s.sending.map CallMsg.caller).filter fun c => c ≠ caller := by
      rw [List.filter_map]
      rfl
    rw [same]
    by_cases here : c = caller
    · rw [if_pos here,List.count_eq_zero]
      simp [here]
    · rw [if_neg here,List.count_filter (by simpa using here)]
  refine ⟨rfl,List.subset_append_left _ _,?_,?_,?_,keys,?_⟩
  · intro c
    rw [tally_eq,tally_eq]
    simp only [kept]
    split <;> omega
  · intro c stays
    have other : c ≠ caller := fun here => stays (List.mem_append_right _ (List.mem_singleton.mpr here))
    rw [tally_eq,tally_eq]
    simp only [kept,if_neg other]
  · intro c
    rw [ledger_eq,ledger_eq]
    simp only [kept]
    split <;> omega
  · intro phase
    have nobody := ended phase
    simp only [State.held,State.unwritten,List.append_eq_nil_iff,List.map_eq_nil_iff] at nobody ⊢
    obtain ⟨⟨⟨sending,queue⟩,writer⟩,pending⟩ := nobody
    exact ⟨⟨⟨by rw [sending]; rfl,queue⟩,writer⟩,pending⟩

theorem recv_moves (s : State) (msg : CallMsg) (keys : (s.pending.map Prod.fst).Nodup) (idle : s.phase = .selecting)
    (first : s.queue = msg :: queue) :
    Moves s { s with phase := .writing msg s.nextId, nextId := s.nextId + 1, queue := queue } := by
  have tally (c : Nat) :
      ({ s with phase := .writing msg s.nextId, nextId := s.nextId + 1, queue := queue } : State).tally c = s.tally c := by
    rw [tally_eq,tally_eq,idle,first]
    simp only [writer_selecting,writer_writing,List.map_cons,List.count_cons,List.count_nil]
    omega
  refine ⟨rfl,List.Subset.refl _,fun c => Nat.le_of_eq (tally c),fun c _ => tally c,?_,keys,by simp⟩
  intro c
  rw [ledger_eq,ledger_eq,idle,first]
  simp only [writer_selecting,writer_writing,List.map_cons,List.count_cons,List.count_nil]
  omega

/-- A new caller is in one place. -/
theorem Accounted.join (accounted : Accounted s) (caller : Nat) (fresh : caller ∉ s.submitted)
    (submitted : s'.submitted = s.submitted ++ [caller]) (cancelled : s'.cancelled = s.cancelled)
    (tally : ∀ c, s'.tally c = s.tally c + [caller].count c)
    (ledger : ∀ c, s'.ledger c ≤ s.ledger c + [caller].count c)
    (keys : s'.pending = s.pending) (ended : s'.phase = .ended → s'.held = []) : Accounted s' := by
  have none_ : s.tally caller = 0 := by simpa [fresh] using accounted.once caller
  have unwritten : s.ledger caller = 0 := by simpa [fresh] using accounted.ledger caller
  have other (c : Nat) (different : c ≠ caller) : [caller].count c = 0 :=
    List.count_eq_zero.mpr (by simpa using different)
  refine ⟨?_,?_,?_,by rw [keys]; exact accounted.keys,ended⟩
  · intro c
    rw [tally,submitted]
    by_cases here : c = caller
    · simp [here,none_]
    · simpa [here,other c here] using accounted.once c
  · intro c member stays
    rw [tally]
    by_cases here : c = caller
    · simp [here,none_]
    · have old : c ∈ s.submitted := by simpa [submitted,here] using member
      simpa [other c here] using accounted.present c old (cancelled ▸ stays)
  · intro c
    refine Nat.le_trans (ledger c) ?_
    rw [submitted]
    by_cases here : c = caller
    · simp [here,unwritten]
    · simpa [here,other c here] using accounted.ledger c

theorem steps_accounted (accounted : Accounted s) (steps : Steps serde s s') : Accounted s' := by
  cases steps with
  | refuse msg fresh ended =>
    refine accounted.join msg.caller fresh rfl rfl ?_ ?_ rfl accounted.ended
    · intro c
      rw [tally_eq,tally_eq]
      simp only [List.map_append,List.count_append,List.map_cons,List.map_nil]
      omega
    · intro c
      exact Nat.le_add_right _ _
  | submit msg fresh running =>
    refine accounted.join msg.caller fresh rfl rfl ?_ ?_ rfl fun ended => absurd ended running
    all_goals
      intro c
      simp only [tally_eq,ledger_eq,List.map_append,List.count_append,List.map_cons,List.map_nil]
      omega
  | @enter msg member =>
    by_cases ended : s.phase = .ended
    · have nobody := accounted.ended ended
      simp only [State.held,State.unwritten,List.append_eq_nil_iff,List.map_eq_nil_iff] at nobody
      simp [nobody.1.1.1] at member
    · exact accounted.moves (enter_moves s msg accounted.keys member ended)
  | cancel caller => exact accounted.moves (cancel_moves s caller accounted.keys accounted.ended)
  | recv idle first => exact accounted.moves (recv_moves s _ accounted.keys idle first)
  | written msg id writing => exact accounted.moves (written_moves s msg id accounted.keys writing)
  | @fail reader e running _ =>
    have moves := fail_moves { s with reader := reader } e
    exact accounted.moves ⟨moves.submitted,moves.cancelled,moves.less,moves.same,moves.ledger,moves.keys,moves.ended⟩
  | receive idle _ => exact ⟨accounted.once,accounted.present,accounted.ledger,accounted.keys,accounted.ended⟩
  | skip idle _ => exact ⟨accounted.once,accounted.present,accounted.ledger,accounted.keys,accounted.ended⟩
  | settle reader v resp idle took some_ read =>
    have moves := settle_moves { s with reader := reader } resp accounted.keys (by simp [idle])
    exact accounted.moves ⟨moves.submitted,moves.cancelled,moves.less,moves.same,moves.ledger,moves.keys,moves.ended⟩

end Tally

section Sources

def responses (out : List (ReadResult Value Error)) : List Response :=
  out.filterMap fun
    | .ok (some v) => Response.fromValue v
    | _ => none

/-- A pending id is the one under which its caller's request was written, and a reply out of a
response frame has gone to the caller whose id the frame carried. -/
structure Sourced (s : State) (out : List (ReadResult Value Error)) : Prop where
  returned : s.reader.Returned serde.json out
  pending : ∀ id c, (id,c) ∈ s.pending → ∃ msg, (msg,id) ∈ s.wrote ∧ msg.caller = c
  replies : ∀ c resp, (c,.response resp) ∈ s.replies → resp ∈ responses out ∧
    ∃ msg id, (msg,id) ∈ s.wrote ∧ msg.caller = c ∧ resp.id = .num id

theorem not_heard (s : State) (e : RpcError) (callers : List Nat) :
    (c,.response resp) ∉ s.hears (.failed e) callers := by
  simp [State.hears]

/-- Nothing is pending that was not, and no response was passed on. -/
theorem Sourced.keep (sourced : Sourced serde s out) (returned : s'.reader.Returned serde.json (out ++ more))
    (pending : s'.pending ⊆ s.pending) (wrote : s.wrote ⊆ s'.wrote)
    (replies : ∀ c resp, (c,.response resp) ∈ s'.replies → (c,.response resp) ∈ s.replies) :
    Sourced serde s' (out ++ more) := by
  refine ⟨returned,?_,?_⟩
  · intro id c member
    obtain ⟨msg,written,caller⟩ := sourced.pending id c (pending member)
    exact ⟨msg,wrote written,caller⟩
  · intro c resp member
    obtain ⟨read,msg,id,written,caller,has⟩ := sourced.replies c resp (replies c resp member)
    refine ⟨?_,msg,id,wrote written,caller,has⟩
    rw [responses,List.filterMap_append]
    exact List.mem_append_left _ read

/-- The same, where the reader has not moved. -/
theorem Sourced.stay (sourced : Sourced serde s out) (reader : s'.reader = s.reader)
    (pending : s'.pending ⊆ s.pending) (wrote : s.wrote ⊆ s'.wrote)
    (replies : ∀ c resp, (c,.response resp) ∈ s'.replies → (c,.response resp) ∈ s.replies) :
    ∃ out, Sourced serde s' out := by
  have returned : s'.reader.Returned serde.json (out ++ []) := by
    rw [reader,List.append_nil]
    exact sourced.returned
  exact ⟨_,sourced.keep serde returned pending wrote replies⟩

theorem settle_sourced (sourced : Sourced serde s out) (took : s.reader.take serde.json = some (.ok v,reader))
    (some_ : v ≠ .null) (read : Response.fromValue v = some resp) :
    Sourced serde ({ s with reader := reader }.settle resp) (out ++ [.ok (some v)]) := by
  have returned : reader.Returned serde.json (out ++ [.ok (some v)]) := by
    have after := sourced.returned.take serde.json took
    have some_ : v ≠ serde.json.null := some_
    rwa [outcome,if_neg some_] at after
  have still : Sourced serde { s with reader := reader } (out ++ [.ok (some v)]) :=
    sourced.keep serde returned (List.Subset.refl _) (List.Subset.refl _) fun _ _ member => member
  simp only [State.settle]
  split
  next id has =>
    cases found : s.pending.find? (fun p => p.1 = id) with
    | none => simpa [State.takePending,found] using still
    | some p =>
      simp only [State.takePending,found,Option.map_some]
      refine ⟨returned,fun id c member => still.pending id c (List.mem_of_mem_filter member),?_⟩
      intro c resp' member
      rcases List.mem_append.mp member with old | new
      · exact still.replies c resp' old
      · -- the one new reply: to the caller that was pending under the frame's id
        obtain ⟨caller,inside,same⟩ := List.mem_map.mp new
        obtain rfl := List.mem_singleton.mp (List.mem_of_mem_filter inside)
        obtain ⟨rfl,frame⟩ := Prod.mk.inj same
        obtain rfl := Reply.response.inj frame
        have key : p.1 = id := by simpa using List.find?_some found
        obtain ⟨msg,written,caller⟩ := sourced.pending p.1 p.2 (List.mem_of_find?_eq_some found)
        refine ⟨?_,msg,id,key ▸ written,caller,has⟩
        rw [responses,List.filterMap_append]
        exact List.mem_append_right _ (by simp [read])
  · exact still

theorem steps_sourced (sourced : Sourced serde s out) (steps : Steps serde s s') : ∃ out, Sourced serde s' out := by
  cases steps with
  | refuse msg fresh ended =>
    exact sourced.stay serde rfl (List.Subset.refl _) (List.Subset.refl _) (by simp)
  | submit msg fresh running =>
    exact sourced.stay serde rfl (List.Subset.refl _) (List.Subset.refl _) fun _ _ member => member
  | enter member => exact sourced.stay serde rfl (List.Subset.refl _) (List.Subset.refl _) fun _ _ member => member
  | cancel caller => exact sourced.stay serde rfl (List.Subset.refl _) (List.Subset.refl _) fun _ _ member => member
  | recv idle first => exact sourced.stay serde rfl (List.Subset.refl _) (List.Subset.refl _) fun _ _ member => member
  | written msg id writing =>
    refine ⟨out,sourced.returned,?_,?_⟩
    · intro id' c member
      rcases List.mem_append.mp member with old | new
      · obtain ⟨msg',written,caller⟩ := sourced.pending id' c (List.mem_of_mem_filter old)
        exact ⟨msg',List.mem_append_left _ written,caller⟩
      · obtain ⟨rfl,rfl⟩ := Prod.mk.inj (List.mem_singleton.mp new)
        exact ⟨msg,List.mem_append_right _ (List.mem_singleton_self _),rfl⟩
    · intro c resp member
      rcases List.mem_append.mp member with old | new
      · obtain ⟨read,msg',id',written,caller,has⟩ := sourced.replies c resp old
        exact ⟨read,msg',id',List.mem_append_left _ written,caller,has⟩
      · exact absurd new (not_heard _ _ _)
  | @fail reader e running took =>
    have replies (c : Nat) (resp : Response)
        (member : (c,.response resp) ∈ ({ s with reader := reader }.fail e).replies) : (c,.response resp) ∈ s.replies := by
      simpa [State.fail,State.close,not_heard] using member
    rcases took with rfl | ⟨err,took⟩
    · exact sourced.stay serde rfl (List.nil_subset _) (List.Subset.refl _) replies
    · exact ⟨_,sourced.keep serde (sourced.returned.take serde.json took) (List.nil_subset _) (List.Subset.refl _) replies⟩
  | receive idle received =>
    have returned := sourced.returned.receive serde.json received
    exact ⟨out,returned,sourced.pending,sourced.replies⟩
  | skip idle took =>
    exact ⟨_,sourced.keep serde (sourced.returned.take serde.json took) (List.Subset.refl _) (List.Subset.refl _)
      fun _ _ member => member⟩
  | settle reader v resp idle took some_ read => exact ⟨_,settle_sourced serde sourced took some_ read⟩

end Sources

def State.Waiting (s : State) (c : Nat) : Prop :=
  c ∈ s.submitted ∧ c ∉ s.cancelled ∧ c ∉ s.replies.map Prod.fst

/-- Who waits is held by the task. -/
theorem Accounted.held (accounted : Accounted s) (waiting : s.Waiting c) : c ∈ s.held := by
  obtain ⟨submitted,stays,unheard⟩ := waiting
  have one := accounted.present c submitted stays
  rw [State.tally,List.count_eq_zero.mpr unheard] at one
  exact List.count_pos_iff.mp (by omega)

theorem mem_hears (s : State) (reply : Reply) (member : c ∈ callers) (stays : c ∉ s.cancelled) :
    (c,reply) ∈ s.hears reply callers :=
  List.mem_map.mpr ⟨c,List.mem_filter.mpr ⟨member,by simpa using stays⟩,rfl⟩

theorem fail_replies (s : State) (e : RpcError) (held : c ∈ s.held) (stays : c ∉ s.cancelled) :
    ∃ err, (c,.failed err) ∈ (s.fail e).replies := by
  simp only [State.held,State.unwritten,List.mem_append] at held
  rcases held with ((sending | queued) | writing) | pending
  · exact ⟨closedError,List.mem_append_right _ (mem_hears _ _ sending stays)⟩
  · exact ⟨droppedError,List.mem_append_left _ (List.mem_append_right _
      (mem_hears _ _ (List.mem_append_left _ queued) stays))⟩
  · exact ⟨e,List.mem_append_left _ (List.mem_append_left _ (List.mem_append_right _
      (mem_hears _ _ writing stays)))⟩
  · exact ⟨droppedError,List.mem_append_left _ (List.mem_append_right _
      (mem_hears _ _ (List.mem_append_right _ pending) stays))⟩

theorem settle_phase (s : State) (resp : Response) : (s.settle resp).phase = s.phase := by
  simp only [State.settle]
  split
  · split
    next taken =>
      obtain ⟨p,_,same⟩ := Option.map_eq_some_iff.mp taken
      obtain ⟨_,rfl⟩ := Prod.mk.inj same
      rfl
    · rfl
  · rfl

/-- The step in which the task returns tells everybody who waits. -/
theorem steps_end (accounted : Accounted s) (steps : Steps serde s s') (running : s.phase ≠ .ended)
    (ended : s'.phase = .ended) (waiting : s.Waiting c) : ∃ e, (c,.failed e) ∈ s'.replies := by
  cases steps with
  | @fail reader e =>
    have held := accounted.held waiting
    exact fail_replies { s with reader := reader } e held waiting.2.1
  | written | recv => contradiction
  | settle reader v resp => exact absurd ((settle_phase _ resp).symm.trans ended) running
  | refuse | submit | enter | cancel | receive | skip => exact absurd ended running

theorem initial_accounted (idBase : UInt64) : Accounted (initial idBase) where
  once := by simp [initial,State.tally,State.held,State.unwritten]
  present := by simp [initial]
  ledger := by simp [initial,State.ledger,State.unwritten]
  keys := List.nodup_nil
  ended := by simp [initial]

theorem run_accounted (run : Run (step serde) (initial idBase) past s) : Accounted s :=
  run.always (initial_accounted idBase) fun _ _ _ accounted taken =>
    steps_accounted serde accounted (step_steps serde taken)

theorem run_sourced (run : Run (step serde) (initial idBase) past s) : ∃ out, Sourced serde s out := by
  refine run.always (P := fun s => ∃ out, Sourced serde s out) ⟨[],returned_new serde.json,by simp [initial],by simp [initial]⟩ ?_
  rintro s e s' ⟨out,sourced⟩ taken
  exact steps_sourced serde sourced (step_steps serde taken)

/-- A request is written once. -/
theorem Accounted.wrote_once (accounted : Accounted s) : (s.wrote.map fun w => w.1.caller).Nodup := by
  refine List.nodup_iff_count_le_one.mpr fun c => ?_
  have ledger := accounted.ledger c
  rw [State.ledger] at ledger
  split at ledger <;> omega

theorem Accounted.replies_once (accounted : Accounted s) : (s.replies.map Prod.fst).Nodup := by
  refine List.nodup_iff_count_le_one.mpr fun c => ?_
  have once := accounted.once c
  rw [State.tally] at once
  split at once <;> omega

/-- No caller has two replies; a reply out of a response frame has gone to the caller whose
request was written under the frame's id; once the task has ended nobody waits, and whoever
waited when it ended was told so. -/
theorem replies_not_crossed (idBase : UInt64) (past : List (Taken State Event)) (s : State)
    (run : Run (step serde) (initial idBase) past s) :
    (s.replies.map Prod.fst).Nodup ∧
    (∃ out, s.reader.Returned serde.json out ∧ ∀ c resp, (c,.response resp) ∈ s.replies →
      resp ∈ responses out ∧ ∃ msg id, (msg,id) ∈ s.wrote ∧ msg.caller = c ∧ resp.id = .num id ∧
        ∀ w ∈ s.wrote, w.1.caller = c → w = (msg,id)) ∧
    (s.phase = .ended → ∀ c, ¬ s.Waiting c) ∧
    ∀ t ∈ past, t.pre.phase ≠ .ended → t.post.phase = .ended → ∀ c, t.pre.Waiting c →
      ∃ e, (c,.failed e) ∈ t.post.replies := by
  have accounted := run_accounted serde run
  obtain ⟨out,sourced⟩ := run_sourced serde run
  refine ⟨accounted.replies_once,⟨out,sourced.returned,?_⟩,?_,?_⟩
  · intro c resp member
    obtain ⟨read,msg,id,written,caller,has⟩ := sourced.replies c resp member
    refine ⟨read,msg,id,written,caller,has,?_⟩
    intro w other same
    exact List.inj_on_of_nodup_map accounted.wrote_once other written (same.trans caller.symm)
  · intro ended c waiting
    have held := accounted.held waiting
    simp [accounted.ended ended] at held
  · intro t member running ended c waiting
    obtain ⟨before,front,enabled,_⟩ := run.upTo member
    exact steps_end serde (run_accounted serde front) (step_steps serde enabled) running ended waiting

/-- Two responses come the other way round, the first caller has gone, and the connection is
lost while a third call is in the channel. -/
theorem replies_not_crossed_lost : ∃ past, ∃ s : State, Run (step (tableSerde twoCalls)) (initial 1) past s ∧
    s.replies = [(1,.response (.ok (.num 2) (.bool false))),(2,.failed droppedError)] ∧ ∀ c, ¬ s.Waiting c := by
  obtain ⟨past,s,run,replies,ended⟩ := exists_run (step (tableSerde twoCalls)) (initial 1)
    [.submit ⟨0,"a",.null⟩,.enter ⟨0,"a",.null⟩,.recv,.written,.submit ⟨1,"b",.null⟩,.enter ⟨1,"b",.null⟩,.recv,.written,
      .receive (text "\x7b\"id\":2,\"jsonrpc\":\"2.0\",\"resu"),.submit ⟨2,"a",.null⟩,.enter ⟨2,"a",.null⟩,
      .receive (text "lt\":false\x7d\n\x7b\"id\":1,\"jsonrpc\":\"2.0\",\"result\":true\x7d\n"),.frame,.cancel 0,.frame,
      .disconnect]
    (fun _ s => s.replies = [(1,.response (.ok (.num 2) (.bool false))),(2,.failed droppedError)] ∧ s.phase = .ended)
    (by decide +kernel)
  exact ⟨past,s,run,replies,(replies_not_crossed (tableSerde twoCalls) 1 past s run).2.2.1 ended⟩

end Malkuth.ConnTask
