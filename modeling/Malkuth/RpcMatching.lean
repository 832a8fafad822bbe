import Malkuth.ServeConn
import Mathlib.Data.List.Nodup

/-! One `Client` of `client.rs` and the `serve_conn` at the other end of its connection, with
the bytes between them. A call may be dropped while it waits; its response then comes to
whichever call reads next. -/
namespace Malkuth.RpcMatching

open Codec Json JsonRpc Transition

/-- `waiting` is the call that reads, by its number and its id; `results` are the calls that
have returned. -/
structure Client where
  nextId : UInt64
  waiting : Option (Nat × UInt64)
  reader : Reader
  results : List (Nat × Outcome)
  deriving DecidableEq

/-- `sent` are the requests that the client has written, calls and notifications. -/
structure State where
  client : Client
  server : ServeConn.Conn
  sent : List Request
  toServer : List UInt8
  toClient : List UInt8
  deriving DecidableEq

inductive Event where
  | call (method : String) (params : Value)
  | notify (method : String) (params : Value)
  /-- The future of the call is dropped. -/
  | cancel
  | clientReceive (n : Nat)
  | clientFrame
  | serverReceive (n : Nat)
  | serverFrame
  /-- The handler returns. -/
  | finish (outcome : Outcome)

/-- The requests of the calls, in order: a call's number is its place here. -/
def State.calls (s : State) : List Request := s.sent.filter fun r => r.id.isSome

variable {Error : Type} (serde : Serde Error)

/-- What a call that waits for `id` makes of a frame; `none` when it goes on waiting. -/
def heard (id : UInt64) : Except Error Value → Option Outcome
  | .error e => some (.error (.server ("read: " ++ serde.syntaxText e)))
  | .ok v =>
    if v = .null then none
    else
      match Response.fromValue v with
      | none => some (.error (.server ("decode response: " ++ serde.shapeText v)))
      | some resp => if resp.id = .num id then some resp.outcome else none

def State.write (s : State) (req : Request) : State :=
  { s with sent := s.sent ++ [req], toServer := s.toServer ++ serde.frame req.toValue }

def State.clientFrame (s : State) : Option State := do
  let (k,id) ← s.client.waiting
  let (res,reader) ← s.client.reader.take serde.json
  match heard serde id res with
  | none => some { s with client := { s.client with reader := reader } }
  | some result =>
    some { s with client := { s.client with
      reader := reader, waiting := none, results := s.client.results ++ [(k,result)] } }

def step (s : State) : Event → Option State
  | .call method params =>
    if s.client.waiting = none then
      let id := s.client.nextId
      some ({ s with client := { s.client with nextId := id + 1, waiting := some (s.calls.length,id) } }.write serde
        (.call id method params))
    else none
  | .notify method params => if s.client.waiting = none then some (s.write serde (.notify method params)) else none
  | .cancel =>
    if s.client.waiting.isSome then some { s with client := { s.client with waiting := none } } else none
  | .clientReceive n =>
    if s.client.waiting.isSome then
      (s.client.reader.receive serde.json (s.toClient.take n)).map fun reader =>
        { s with client := { s.client with reader := reader }, toClient := s.toClient.drop n }
    else none
  | .clientFrame => s.clientFrame serde
  | .serverReceive n =>
    (s.server.receive serde (s.toServer.take n)).map fun server =>
      { s with server := server, toServer := s.toServer.drop n }
  | .serverFrame => (s.server.frame serde).map fun server => { s with server := server }
  | .finish outcome =>
    (s.server.finish outcome).map fun (server,due) =>
      { s with server := server, toClient := s.toClient ++ serde.frames (due.map Response.toValue) }

def initial : State where
  client := ⟨1,none,.new,[]⟩
  server := .new
  sent := []
  toServer := []
  toClient := []

def State.wire (s : State) : List Value := s.sent.map Request.toValue ++ s.server.written.map Response.toValue

section Invariant

structure Numbered (s : State) : Prop where
  ids : ∀ (k : Nat) (req : Request), s.calls[k]? = some req → req.id = some (.num (UInt64.ofNat (k + 1)))
  proper : ∀ req ∈ s.sent, req.id ≠ some .null
  next : s.client.nextId = UInt64.ofNat (s.calls.length + 1)
  waiting : ∀ k id, s.client.waiting = some (k,id) → k < s.calls.length ∧ id = UInt64.ofNat (k + 1)

/-- What the client has sent is with the server, in its buffer or on the way, in order; and so
are the server's responses on the way back. -/
structure Piped (s : State) : Prop where
  reading : ∀ unanswered, s.server.phase ≠ .closed unanswered
  requests : ∃ rest, s.sent = s.server.answered.map Prod.fst ++ s.server.phase.current ++ rest ∧
    s.server.reader.rdBuf ++ s.toServer = serde.frames (rest.map Request.toValue)
  responses : ∃ seen rest, s.server.written = seen ++ rest ∧
    s.client.reader.rdBuf ++ s.toClient = serde.frames (rest.map Response.toValue)
  due : s.server.written = s.server.answered.filterMap fun a => ServeConn.respond a.1 a.2

def Answered (s : State) (k : Nat) (result : Outcome) : Prop :=
  ∃ req outcome, s.calls[k]? = some req ∧ (req,outcome) ∈ s.server.answered ∧ result = Outcome.read outcome

structure Matched (s : State) : Prop where
  numbered : Numbered s
  piped : Piped serde s
  results : ∀ k result, (k,result) ∈ s.client.results → Answered s k result

theorem calls_write (s : State) (req : Request) :
    (s.write serde req).calls = if req.id.isSome then s.calls ++ [req] else s.calls := by
  cases id : req.id <;> simp [State.calls,State.write,id]

theorem numbered_call (numbered : Numbered s) (method : String) (params : Value) :
    Numbered ({ s with client := { s.client with
      nextId := s.client.nextId + 1, waiting := some (s.calls.length,s.client.nextId) } }.write serde
        (.call s.client.nextId method params)) := by
  have calls : ({ s with client := { s.client with
      nextId := s.client.nextId + 1, waiting := some (s.calls.length,s.client.nextId) } }.write serde
        (.call s.client.nextId method params)).calls = s.calls ++ [.call s.client.nextId method params] :=
    calls_write serde _ _
  refine ⟨?_,?_,?_,?_⟩
  · intro k req here
    rw [calls,List.getElem?_append] at here
    split at here
    · exact numbered.ids k req here
    · obtain ⟨zero,rfl⟩ : k - s.calls.length = 0 ∧ Request.call s.client.nextId method params = req := by
        simpa [List.getElem?_singleton] using here
      obtain rfl : k = s.calls.length := by omega
      rw [Request.call,numbered.next]
  · intro req member
    rcases List.mem_append.mp member with old | new
    · exact numbered.proper req old
    · obtain rfl := List.mem_singleton.mp new
      simp [Request.call]
  · rw [calls,List.length_append,List.length_singleton]
    change s.client.nextId + 1 = _
    rw [numbered.next,UInt64.ofNat_add (s.calls.length + 1) 1]
    rfl
  · intro k id waits
    obtain ⟨rfl,rfl⟩ := Prod.mk.inj (Option.some.inj waits)
    refine ⟨?_,numbered.next⟩
    rw [calls]
    simp

theorem numbered_notify (numbered : Numbered s) (method : String) (params : Value) :
    Numbered (s.write serde (.notify method params)) := by
  have calls : (s.write serde (.notify method params)).calls = s.calls := calls_write serde s _
  refine ⟨by rw [calls]; exact numbered.ids,?_,by rw [calls]; exact numbered.next,by rw [calls]; exact numbered.waiting⟩
  intro req member
  rcases List.mem_append.mp member with old | new
  · exact numbered.proper req old
  · obtain rfl := List.mem_singleton.mp new
    simp [Request.notify]

/-- Steps that write no request leave the numbers alone. -/
theorem Numbered.keep (numbered : Numbered s) (sent : s'.sent = s.sent) (next : s'.client.nextId = s.client.nextId)
    (waiting : s'.client.waiting = s.client.waiting ∨ s'.client.waiting = none) : Numbered s' := by
  have calls : s'.calls = s.calls := by rw [State.calls,sent,State.calls]
  refine ⟨by rw [calls]; exact numbered.ids,by rw [sent]; exact numbered.proper,by rw [calls,next]; exact numbered.next,?_⟩
  intro k id waits
  rcases waiting with same | none_
  · rw [calls]
    exact numbered.waiting k id (same ▸ waits)
  · simp [none_] at waits

theorem frames_append (front back : List Value) :
    serde.frames (front ++ back) = serde.frames front ++ serde.frames back := List.flatMap_append ..

theorem piped_write (piped : Piped serde s) (req : Request) (client : Client) (reader : client.reader = s.client.reader) :
    Piped serde ({ s with client := client }.write serde req) := by
  obtain ⟨rest,turns,stream⟩ := piped.requests
  refine ⟨piped.reading,⟨rest ++ [req],?_,?_⟩,?_,piped.due⟩
  · change s.sent ++ [req] = s.server.answered.map Prod.fst ++ s.server.phase.current ++ (rest ++ [req])
    rw [turns,List.append_assoc _ rest]
  · change s.server.reader.rdBuf ++ (s.toServer ++ serde.frame req.toValue) = _
    rw [← List.append_assoc,stream,List.map_append,frames_append]
    simp [Serde.frames]
  · obtain ⟨seen,rest,written,stream⟩ := piped.responses
    refine ⟨seen,rest,written,?_⟩
    change client.reader.rdBuf ++ s.toClient = _
    rw [reader,stream]

theorem piped_serverReceive (piped : Piped serde s) (taken : s.server.receive serde (s.toServer.take n) = some server) :
    Piped serde { s with server := server, toServer := s.toServer.drop n } := by
  obtain ⟨_,taken⟩ := Option.ite_none_right_eq_some.mp taken
  obtain ⟨reader,received,rfl⟩ := Option.map_eq_some_iff.mp taken
  obtain rfl := receive_eq_some serde.json _ received
  obtain ⟨rest,turns,stream⟩ := piped.requests
  refine ⟨piped.reading,⟨rest,turns,?_⟩,piped.responses,piped.due⟩
  rw [← stream]
  simp

/-- A request that was written is read as it was. -/
theorem afterFrame_request (req : Request) (proper : req.id ≠ some .null) :
    ServeConn.afterFrame (.ok req.toValue : Except Error Value) = .handling req := by
  rw [ServeConn.afterFrame_toValue,ServeConn.filter_null proper]

theorem piped_serverFrame (piped : Piped serde s) (documented : serde.json.Documented s.wire)
    (numbered : Numbered s) (taken : s.server.frame serde = some server) : Piped serde { s with server := server } := by
  obtain ⟨reading,taken⟩ := Option.ite_none_right_eq_some.mp taken
  obtain ⟨⟨res,reader⟩,took,rfl⟩ := Option.map_eq_some_iff.mp taken
  obtain ⟨frame,_⟩ := take_eq_some serde.json _ took
  obtain ⟨rest,turns,stream⟩ := piped.requests
  have inside (req : Request) (member : req ∈ rest) : req ∈ s.sent := by
    rw [turns]
    exact List.mem_append_right _ member
  have known : ∀ v ∈ rest.map Request.toValue, v ∈ s.wire := by
    intro v member
    obtain ⟨req,here,rfl⟩ := List.mem_map.mp member
    exact List.mem_append_left _ (List.mem_map_of_mem (inside req here))
  obtain ⟨v,vs,cut,rfl,after⟩ := serde.take_frames documented known stream frame
  cases rest with
  | nil => simp at cut
  | cons req rest =>
    obtain ⟨rfl,rfl⟩ := List.cons.inj cut
    have next : ServeConn.afterFrame (.ok req.toValue : Except Error Value) = .handling req :=
      afterFrame_request req (numbered.proper req (inside req List.mem_cons_self))
    refine ⟨?_,⟨rest,?_,after⟩,piped.responses,piped.due⟩
    · intro unanswered
      simp [next]
    · rw [turns,reading]
      simp [next,ServeConn.Phase.current]

theorem piped_finish (piped : Piped serde s) (outcome : Outcome) (taken : s.server.finish outcome = some (server,due)) :
    Piped serde { s with
      server := server, toClient := s.toClient ++ serde.frames (due.map Response.toValue) } := by
  simp only [ServeConn.Conn.finish] at taken
  split at taken
  next req handling =>
    obtain ⟨rfl,rfl⟩ := Prod.mk.inj (Option.some.inj taken)
    obtain ⟨rest,turns,stream⟩ := piped.requests
    obtain ⟨seen,later,written,coming⟩ := piped.responses
    refine ⟨by simp,⟨rest,?_,stream⟩,⟨seen,later ++ (ServeConn.respond req outcome).toList,?_,?_⟩,?_⟩
    · rw [turns,handling]
      simp [ServeConn.Phase.current]
    · rw [written,List.append_assoc]
    · rw [← List.append_assoc,coming,List.map_append,frames_append]
    · rw [List.filterMap_append,← piped.due]
      cases response : ServeConn.respond req outcome <;> simp [response]
  · contradiction

theorem piped_clientReceive (piped : Piped serde s)
    (received : s.client.reader.receive serde.json (s.toClient.take n) = some reader) :
    Piped serde { s with client := { s.client with reader := reader }, toClient := s.toClient.drop n } := by
  obtain rfl := receive_eq_some serde.json _ received
  obtain ⟨seen,rest,written,stream⟩ := piped.responses
  refine ⟨piped.reading,piped.requests,⟨seen,rest,written,?_⟩,piped.due⟩
  rw [← stream]
  simp

theorem heard_response (id : UInt64) (id' : Id) (outcome : Outcome) :
    heard serde id (.ok (Response.of id' outcome).toValue) =
      if id' = .num id then some (Outcome.read outcome) else none := by
  obtain ⟨resp,read,rfl,arrives⟩ := fromValue_of id' outcome
  have some_ : (Response.of resp.id outcome).toValue ≠ .null := by simp [Response.toValue]
  simp only [heard,if_neg some_,read,arrives]

/-- A frame that the client takes is the response to a request that the server has answered. -/
theorem piped_clientFrame (piped : Piped serde s) (documented : serde.json.Documented s.wire)
    (took : s.client.reader.take serde.json = some (res,reader)) :
    (∃ req outcome id, (req,outcome) ∈ s.server.answered ∧ req.id = some id ∧
      res = .ok (Response.of id outcome).toValue) ∧
    ∀ client : Client, client.reader = reader → Piped serde { s with client := client } := by
  obtain ⟨frame,_⟩ := take_eq_some serde.json _ took
  obtain ⟨seen,rest,written,stream⟩ := piped.responses
  have known : ∀ v ∈ rest.map Response.toValue, v ∈ s.wire := by
    intro v member
    obtain ⟨resp,here,rfl⟩ := List.mem_map.mp member
    refine List.mem_append_right _ (List.mem_map_of_mem ?_)
    rw [written]
    exact List.mem_append_right _ here
  obtain ⟨v,vs,cut,rfl,after⟩ := serde.take_frames documented known stream frame
  cases rest with
  | nil => simp at cut
  | cons resp rest =>
    obtain ⟨rfl,rfl⟩ := List.cons.inj cut
    refine ⟨?_,?_⟩
    · have member : resp ∈ s.server.written := by simp [written]
      rw [piped.due] at member
      obtain ⟨⟨req,outcome⟩,answered,due⟩ := List.mem_filterMap.mp member
      obtain ⟨id,has,rfl⟩ := Option.map_eq_some_iff.mp due
      exact ⟨req,outcome,id,answered,has,rfl⟩
    · intro client same
      refine ⟨piped.reading,piped.requests,⟨seen ++ [resp],rest,by simp [written],?_⟩,piped.due⟩
      change client.reader.rdBuf ++ s.toClient = _
      rw [same,after]

theorem ofNat_inj (low : m < 2^64) (high : n < 2^64) (same : UInt64.ofNat m = UInt64.ofNat n) : m = n := by
  have values := congrArg UInt64.toNat same
  rwa [UInt64.toNat_ofNat_of_lt' low,UInt64.toNat_ofNat_of_lt' high] at values

/-- The id of a call is that of no other request. -/
theorem Numbered.own (numbered : Numbered s) (few : s.calls.length < 2^64) (member : req ∈ s.sent)
    (bound : k < s.calls.length) (id : req.id = some (.num (UInt64.ofNat (k + 1)))) : s.calls[k]? = some req := by
  have called : req ∈ s.calls := List.mem_filter.mpr ⟨member,by simp [id]⟩
  obtain ⟨j,here⟩ := List.mem_iff_getElem?.mp called
  obtain ⟨j_lt,_⟩ := List.getElem?_eq_some_iff.mp here
  have same := Id.num.inj (Option.some.inj (id.symm.trans (numbered.ids j req here)))
  obtain rfl : k = j := by
    have := ofNat_inj (by omega) (by omega) same
    omega
  exact here

theorem Piped.answered_sent (piped : Piped serde s) (outcome : Outcome) (member : (req,outcome) ∈ s.server.answered) :
    req ∈ s.sent := by
  obtain ⟨rest,turns,_⟩ := piped.requests
  rw [turns,List.append_assoc]
  exact List.mem_append_left _ (List.mem_map_of_mem member)

/-- What was sent, answered or written stays so. -/
structure Grows (s s' : State) : Prop where
  sent : s.sent <+: s'.sent
  answered : s.server.answered ⊆ s'.server.answered
  written : s.server.written ⊆ s'.server.written

theorem Grows.calls (grows : Grows s s') : s.calls <+: s'.calls := grows.sent.filter _

theorem Grows.of_server (sent : s'.sent = s.sent) (answered : s.server.answered ⊆ s'.server.answered)
    (written : s.server.written ⊆ s'.server.written) : Grows s s' := ⟨sent ▸ List.prefix_refl _,answered,written⟩

theorem Grows.of_client (sent : s.sent <+: s'.sent) (server : s'.server = s.server) : Grows s s' :=
  ⟨sent,by rw [server]; exact List.Subset.refl _,by rw [server]; exact List.Subset.refl _⟩

theorem clientFrame_client (s : State) (taken : s.clientFrame serde = some s') : s'.sent = s.sent ∧ s'.server = s.server := by
  obtain ⟨_,_,taken⟩ := Option.bind_eq_some_iff.mp taken
  obtain ⟨⟨res,reader⟩,_,taken⟩ := Option.bind_eq_some_iff.mp taken
  dsimp only at taken
  split at taken <;> obtain rfl := Option.some.inj taken <;> exact ⟨rfl,rfl⟩

theorem step_grows (taken : step serde s e = some s') : Grows s s' := by
  cases e with
  | call method params | notify method params =>
    obtain ⟨_,rfl⟩ := Option.ite_some_none_eq_some.mp taken
    exact .of_client (List.prefix_append _ _) rfl
  | cancel =>
    obtain ⟨_,rfl⟩ := Option.ite_some_none_eq_some.mp taken
    exact .of_client (List.prefix_refl _) rfl
  | clientReceive n =>
    obtain ⟨_,taken⟩ := Option.ite_none_right_eq_some.mp taken
    obtain ⟨reader,_,rfl⟩ := Option.map_eq_some_iff.mp taken
    exact .of_client (List.prefix_refl _) rfl
  | clientFrame =>
    obtain ⟨sent,server⟩ := clientFrame_client serde s taken
    exact .of_client (sent ▸ List.prefix_refl _) server
  | serverReceive n =>
    obtain ⟨server,received,rfl⟩ := Option.map_eq_some_iff.mp taken
    obtain ⟨_,received⟩ := Option.ite_none_right_eq_some.mp received
    obtain ⟨reader,_,rfl⟩ := Option.map_eq_some_iff.mp received
    exact .of_server rfl (List.Subset.refl _) (List.Subset.refl _)
  | serverFrame =>
    obtain ⟨server,took,rfl⟩ := Option.map_eq_some_iff.mp taken
    obtain ⟨_,took⟩ := Option.ite_none_right_eq_some.mp took
    obtain ⟨_,_,rfl⟩ := Option.map_eq_some_iff.mp took
    exact .of_server rfl (List.Subset.refl _) (List.Subset.refl _)
  | finish outcome =>
    obtain ⟨⟨server,due⟩,finished,rfl⟩ := Option.map_eq_some_iff.mp taken
    simp only [ServeConn.Conn.finish] at finished
    split at finished
    · obtain ⟨rfl,_⟩ := Prod.mk.inj (Option.some.inj finished)
      exact .of_server rfl (List.subset_append_left _ _) (List.subset_append_left _ _)
    · contradiction

theorem Answered.mono (answered : Answered s k result) (grows : Grows s s') : Answered s' k result := by
  obtain ⟨req,outcome,here,member,same⟩ := answered
  obtain ⟨later,whole⟩ := grows.calls
  obtain ⟨bound,_⟩ := List.getElem?_eq_some_iff.mp here
  refine ⟨req,outcome,?_,grows.answered member,same⟩
  rw [← whole,List.getElem?_append_left bound,here]

theorem Matched.keep (matched : Matched serde s) (grows : Grows s s') (numbered : Numbered s')
    (piped : Piped serde s') (results : s'.client.results = s.client.results) : Matched serde s' := by
  refine ⟨numbered,piped,?_⟩
  intro k result member
  rw [results] at member
  exact (matched.results k result member).mono grows

theorem clientFrame_matched (matched : Matched serde s) (documented : serde.json.Documented s.wire)
    (few : s.calls.length < 2^64) (taken : s.clientFrame serde = some s') : Matched serde s' := by
  obtain ⟨⟨k,id⟩,waiting,taken⟩ := Option.bind_eq_some_iff.mp taken
  obtain ⟨⟨res,reader⟩,took,taken⟩ := Option.bind_eq_some_iff.mp taken
  obtain ⟨⟨req,outcome,id',answered,has,rfl⟩,piped⟩ := piped_clientFrame serde matched.piped documented took
  obtain ⟨bound,rfl⟩ := matched.numbered.waiting k id waiting
  dsimp only at taken
  rw [heard_response] at taken
  by_cases own : id' = .num (UInt64.ofNat (k + 1))
  · -- the response to this very call
    rw [if_pos own] at taken
    obtain rfl := Option.some.inj taken
    refine ⟨matched.numbered.keep rfl rfl (.inr rfl),piped _ rfl,?_⟩
    intro j result member
    rcases List.mem_append.mp member with old | new
    · exact matched.results j result old
    · obtain ⟨rfl,rfl⟩ := Prod.mk.inj (List.mem_singleton.mp new)
      have here := matched.numbered.own few (matched.piped.answered_sent serde outcome answered) bound (own ▸ has)
      exact ⟨req,outcome,here,answered,rfl⟩
  · rw [if_neg own] at taken
    obtain rfl := Option.some.inj taken
    exact ⟨matched.numbered.keep rfl rfl (.inl rfl),piped _ rfl,matched.results⟩

theorem step_matched (matched : Matched serde s) (documented : serde.json.Documented s.wire)
    (few : s.calls.length < 2^64) (taken : step serde s e = some s') : Matched serde s' := by
  have grows := step_grows serde taken
  have piped := matched.piped
  have numbered := matched.numbered
  cases e with
  | call method params =>
    obtain ⟨_,rfl⟩ := Option.ite_some_none_eq_some.mp taken
    exact matched.keep serde grows (numbered_call serde numbered method params) (piped_write serde piped _ _ rfl) rfl
  | notify method params =>
    obtain ⟨_,rfl⟩ := Option.ite_some_none_eq_some.mp taken
    exact matched.keep serde grows (numbered_notify serde numbered method params)
      (piped_write serde piped _ s.client rfl) rfl
  | cancel =>
    obtain ⟨_,rfl⟩ := Option.ite_some_none_eq_some.mp taken
    exact matched.keep serde grows (numbered.keep rfl rfl (.inr rfl))
      ⟨piped.reading,piped.requests,piped.responses,piped.due⟩ rfl
  | clientReceive n =>
    obtain ⟨_,taken⟩ := Option.ite_none_right_eq_some.mp taken
    obtain ⟨reader,received,rfl⟩ := Option.map_eq_some_iff.mp taken
    exact matched.keep serde grows (numbered.keep rfl rfl (.inl rfl)) (piped_clientReceive serde piped received) rfl
  | clientFrame => exact clientFrame_matched serde matched documented few taken
  | serverReceive n =>
    obtain ⟨server,received,rfl⟩ := Option.map_eq_some_iff.mp taken
    exact matched.keep serde grows (numbered.keep rfl rfl (.inl rfl)) (piped_serverReceive serde piped received) rfl
  | serverFrame =>
    obtain ⟨server,took,rfl⟩ := Option.map_eq_some_iff.mp taken
    exact matched.keep serde grows (numbered.keep rfl rfl (.inl rfl))
      (piped_serverFrame serde piped documented numbered took) rfl
  | finish outcome =>
    obtain ⟨⟨server,due⟩,finished,rfl⟩ := Option.map_eq_some_iff.mp taken
    exact matched.keep serde grows (numbered.keep rfl rfl (.inl rfl)) (piped_finish serde piped outcome finished) rfl

theorem initial_matched : Matched serde initial := by
  refine ⟨⟨by simp [initial,State.calls],by simp [initial],rfl,by simp [initial]⟩,?_,by simp [initial]⟩
  exact ⟨by simp [initial,ServeConn.Conn.new],⟨[],rfl,rfl⟩,⟨[],[],rfl,rfl⟩,rfl⟩

theorem Documented.mono {json : SerdeJson Value Error} (documented : json.Documented sent) (fewer : sent' ⊆ sent) :
    json.Documented sent' :=
  ⟨fun v member => documented.raw v (fewer member),fun v member => documented.inverts v (fewer member),
    documented.trailing,documented.blank⟩

theorem Grows.wire (grows : Grows s s') : s.wire ⊆ s'.wire := by
  intro v member
  rcases List.mem_append.mp member with sent | written
  · obtain ⟨req,here,rfl⟩ := List.mem_map.mp sent
    exact List.mem_append_left _ (List.mem_map_of_mem (grows.sent.subset here))
  · obtain ⟨resp,here,rfl⟩ := List.mem_map.mp written
    exact List.mem_append_right _ (List.mem_map_of_mem (grows.written here))

theorem run_matched (run : Run (step serde) initial past s) (documented : serde.json.Documented s.wire)
    (few : s.calls.length < 2^64) : Matched serde s := by
  induction run with
  | nil => exact initial_matched serde
  | snoc _ taken ih =>
    have grows := step_grows serde taken
    have documented' := Documented.mono documented grows.wire
    have few' := Nat.lt_of_le_of_lt grows.calls.length_le few
    exact step_matched serde (ih documented' few') documented' few' taken

/-- No two calls have one request, since their ids differ. -/
theorem Numbered.nodup (numbered : Numbered s) (few : s.calls.length < 2^64) : s.calls.Nodup := by
  refine List.nodup_iff_getElem?_ne_getElem?.mpr ?_
  intro i j less bound same
  have here := List.getElem?_eq_getElem bound
  have first := numbered.ids i _ (same.trans here)
  have second := numbered.ids j _ here
  have equal := ofNat_inj (by omega) (by omega) (Id.num.inj (Option.some.inj (first.symm.trans second)))
  omega

/-- A call is answered once. -/
theorem Matched.unique (matched : Matched serde s) (few : s.calls.length < 2^64) (called : req ∈ s.calls)
    (first : (req,o) ∈ s.server.answered) (second : (req,o') ∈ s.server.answered) : o' = o := by
  obtain ⟨rest,turns,_⟩ := matched.piped.requests
  have has : req.id.isSome = true := (List.mem_filter.mp called).2
  have front : (s.server.answered.map Prod.fst).filter (fun r => r.id.isSome) <+: s.calls := by
    rw [State.calls,turns,List.append_assoc]
    exact (List.prefix_append _ _).filter _
  have nodup := front.sublist.nodup (matched.numbered.nodup few)
  rw [List.filter_map] at nodup
  have pairs := List.inj_on_of_nodup_map nodup (List.mem_filter.mpr ⟨second,has⟩) (List.mem_filter.mpr ⟨first,has⟩) rfl
  exact (Prod.mk.inj pairs).2

end Invariant

/-- Every call that returns has the outcome of its own request, which was answered once,
whatever was cancelled or notified before; and from whatever bytes come in, `serve_conn` writes
one response for each request with an id, in order, and nothing else. -/
theorem calls_matched :
    (∀ past s, Run (step serde) initial past s → serde.json.Documented s.wire → s.calls.length < 2^64 →
      ∀ k result, (k,result) ∈ s.client.results →
        ∃ req outcome, s.calls[k]? = some req ∧ (req,outcome) ∈ s.server.answered ∧
          (∀ o, (req,o) ∈ s.server.answered → o = outcome) ∧ result = Outcome.read outcome) ∧
    ∀ past c, Run (ServeConn.step serde) .new past c → ∃ out, ServeConn.Serves serde c out := by
  refine ⟨?_,fun past c run => ServeConn.run_serves serde run⟩
  intro past s run documented few k result member
  have matched := run_matched serde run documented few
  obtain ⟨req,outcome,here,answered,same⟩ := matched.results k result member
  have called := List.mem_of_getElem? here
  exact ⟨req,outcome,here,answered,fun o other => matched.unique serde few called answered other,same⟩

/-- The first call is dropped; the second skips its response and returns its own. -/
theorem calls_matched_cancelled : ∃ past, ∃ s : State, Run (step (tableSerde twoCalls)) initial past s ∧
    s.client.results = [(1,.ok (.bool false))] ∧
    ∃ req outcome, s.calls[1]? = some req ∧ (req,outcome) ∈ s.server.answered ∧
      (.ok (.bool false) : Outcome) = Outcome.read outcome := by
  obtain ⟨past,s,run,results,known,few⟩ := exists_run (step (tableSerde twoCalls)) initial
    [.call "a" .null,.cancel,.call "b" .null,.serverReceive 8192,.serverFrame,.finish (.ok (.bool true)),.serverFrame,
      .finish (.ok (.bool false)),.clientReceive 8192,.clientFrame,.clientFrame]
    (fun _ s => s.client.results = [(1,.ok (.bool false))] ∧ (∀ v ∈ s.wire, v ∈ twoCalls.map Prod.snd) ∧
      s.calls.length < 2^64) (by decide +kernel)
  have documented := tableSerde_documented twoCalls (by decide +kernel) known
  obtain ⟨req,outcome,here,answered,_,same⟩ :=
    (calls_matched (tableSerde twoCalls)).1 past s run documented few 1 _ (by rw [results]; exact List.mem_singleton_self _)
  exact ⟨past,s,run,results,req,outcome,here,answered,same⟩

end Malkuth.RpcMatching
