import Malkuth.FrameReader
import Malkuth.JsonRpc
import Malkuth.Transition

/-! `serve_conn` of `server.rs`: one request at a time, from whatever bytes arrive. What the
handler makes of a request is up to it. -/
namespace Malkuth.ServeConn

open Codec Json JsonRpc Transition

inductive Phase where
  | reading
  /-- In `handler.handle`, or writing its response. -/
  | handling (req : Request)
  /-- The loop has ended; a request may have been left without its response. -/
  | closed (unanswered : Option Request)
  deriving DecidableEq

/-- `answered` are the requests that are done with, `written` the responses, both in order. -/
structure Conn where
  reader : Reader
  phase : Phase
  answered : List (Request × Outcome)
  written : List Response
  deriving DecidableEq

inductive Event where
  | receive (chunk : List UInt8)
  /-- A read of the stream fails or returns nothing. -/
  | disconnect
  | frame
  | finish (outcome : Outcome)
  /-- The handler is done, and its response cannot be written. -/
  | finishUnwritten (outcome : Outcome)

def respond (req : Request) (outcome : Outcome) : Option Response := req.id.map fun id => .of id outcome

def Phase.current : Phase → List Request
  | .reading => []
  | .handling req => [req]
  | .closed unanswered => unanswered.toList

def afterFrame : Except Error Value → Phase
  | .error _ => .closed none
  | .ok v =>
    if v = .null then .reading
    else
      match Request.fromValue v with
      | some req => .handling req
      | none => .reading

def Conn.new : Conn := ⟨.new,.reading,[],[]⟩

variable {Error : Type} (serde : Serde Error)

def Conn.receive (c : Conn) (chunk : List UInt8) : Option Conn :=
  if c.phase = .reading then (c.reader.receive serde.json chunk).map fun reader => { c with reader := reader } else none

def Conn.frame (c : Conn) : Option Conn :=
  if c.phase = .reading then
    (c.reader.take serde.json).map fun (res,reader) => { c with reader := reader, phase := afterFrame res }
  else none

def Conn.finish (c : Conn) (outcome : Outcome) : Option (Conn × List Response) :=
  match c.phase with
  | .handling req =>
    let due := (respond req outcome).toList
    some ({ c with phase := .reading, answered := c.answered ++ [(req,outcome)], written := c.written ++ due },due)
  | _ => none

def step (c : Conn) : Event → Option Conn
  | .receive chunk => c.receive serde chunk
  | .disconnect =>
    if c.phase = .reading ∧ (takeFrame serde.json c.reader.rdBuf).isNone then some { c with phase := .closed none }
    else none
  | .frame => c.frame serde
  | .finish outcome => (c.finish outcome).map Prod.fst
  | .finishUnwritten outcome =>
    match c.phase with
    | .handling req => if (respond req outcome).isSome then some { c with phase := .closed (some req) } else none
    | _ => none

def requests (out : List (ReadResult Value Error)) : List Request :=
  out.filterMap fun
    | .ok (some v) => Request.fromValue v
    | _ => none

/-- The requests of the lines taken so far were answered in turn, but for the one at hand; and
each that carries an id has had its one response, in the same order. -/
structure Serves (c : Conn) (out : List (ReadResult Value Error)) : Prop where
  returned : c.reader.Returned serde.json out
  turns : requests out = c.answered.map Prod.fst ++ c.phase.current
  responses : c.written = c.answered.filterMap fun a => respond a.1 a.2

theorem requests_append (out more : List (ReadResult Value Error)) :
    requests (out ++ more) = requests out ++ requests more := List.filterMap_append ..

theorem requests_outcome (res : Except Error Value) :
    requests (outcome serde.json res).toList = (afterFrame res).current := by
  cases res with
  | error e => rfl
  | ok v =>
    by_cases none_ : v = .null
    · simp [outcome,afterFrame,none_,Serde.json,requests,Phase.current]
    · cases req : Request.fromValue v <;> simp [outcome,afterFrame,none_,Serde.json,requests,Phase.current,req]

theorem serves_receive (serves : Serves serde c out) (taken : c.receive serde chunk = some c') : Serves serde c' out := by
  obtain ⟨reading,taken⟩ := Option.ite_none_right_eq_some.mp taken
  obtain ⟨reader,received,rfl⟩ := Option.map_eq_some_iff.mp taken
  exact ⟨serves.returned.receive serde.json received,serves.turns,serves.responses⟩

theorem serves_frame (serves : Serves serde c out) (taken : c.frame serde = some c') : ∃ out, Serves serde c' out := by
  obtain ⟨reading,taken⟩ := Option.ite_none_right_eq_some.mp taken
  obtain ⟨⟨res,reader⟩,took,rfl⟩ := Option.map_eq_some_iff.mp taken
  refine ⟨_,serves.returned.take serde.json took,?_,serves.responses⟩
  rw [requests_append,serves.turns,requests_outcome,reading]
  simp [Phase.current]

theorem serves_finish (serves : Serves serde c out) (outcome : Outcome) (taken : c.finish outcome = some (c',due)) :
    Serves serde c' out := by
  simp only [Conn.finish] at taken
  split at taken
  next req handling =>
    obtain ⟨rfl,_⟩ := Prod.mk.inj (Option.some.inj taken)
    refine ⟨serves.returned,?_,?_⟩
    · rw [serves.turns,handling]
      simp [Phase.current]
    · rw [List.filterMap_append,← serves.responses]
      cases response : respond req outcome <;> simp [response]
  · contradiction

theorem step_serves (serves : Serves serde c out) (taken : step serde c e = some c') : ∃ out, Serves serde c' out := by
  cases e with
  | receive chunk => exact ⟨out,serves_receive serde serves taken⟩
  | disconnect =>
    obtain ⟨⟨reading,_⟩,rfl⟩ := Option.ite_some_none_eq_some.mp taken
    exact ⟨out,serves.returned,by rw [serves.turns,reading]; rfl,serves.responses⟩
  | frame => exact serves_frame serde serves taken
  | finish outcome =>
    obtain ⟨⟨c'',due⟩,finished,rfl⟩ := Option.map_eq_some_iff.mp taken
    exact ⟨out,serves_finish serde serves outcome finished⟩
  | finishUnwritten outcome =>
    simp only [step] at taken
    split at taken
    next req handling =>
      obtain ⟨_,rfl⟩ := Option.ite_some_none_eq_some.mp taken
      exact ⟨out,serves.returned,by rw [serves.turns,handling]; rfl,serves.responses⟩
    · contradiction

theorem new_serves : Serves serde .new [] := ⟨returned_new serde.json,rfl,rfl⟩

theorem run_serves (run : Run (step serde) .new past c) : ∃ out, Serves serde c out := by
  refine run.always (P := fun c => ∃ out, Serves serde c out) ⟨[],new_serves serde⟩ ?_
  rintro c e c' ⟨out,serves⟩ taken
  exact step_serves serde serves taken

section RoundTrip

/-- Only a `null` id is lost. -/
theorem filter_null {id : Option Id} (proper : id ≠ some .null) : id.filter (· ≠ .null) = id := by
  cases id with
  | none => rfl
  | some given =>
    have some_ : given ≠ .null := fun here => proper (by rw [here])
    simp [Option.filter_some,some_]

/-- A request that was written is the next one to be handled, with a `null` id lost. -/
theorem afterFrame_toValue (r : Request) : afterFrame (.ok r.toValue : Except Error Value) =
    .handling { r with id := r.id.filter (· ≠ .null) } := by
  have some_ : r.toValue ≠ .null := by simp [Request.toValue]
  rw [afterFrame,if_neg some_,Request.fromValue_toValue]

/-- From the bytes of a request to its response. -/
theorem answer_request {r : Request} (documented : serde.json.Documented [r.toValue]) (c : Conn) (rest : List UInt8) (outcome : Outcome)
    (reading : c.phase = .reading) (buffer : c.reader.rdBuf = serde.frame r.toValue ++ rest) :
    ∃ read done, step serde c .frame = some read ∧ step serde read (.finish outcome) = some done ∧
      done.written = c.written ++ ((r.id.filter (· ≠ .null)).map fun id => .of id outcome).toList := by
  have took := serde.takeFrame_frame documented (List.mem_singleton_self _) rest
  refine ⟨{ c with reader := ⟨c.reader.received,rest⟩, phase := afterFrame (.ok r.toValue : Except Error Value) },?_⟩
  rw [afterFrame_toValue]
  refine ⟨_,?_,rfl,rfl⟩
  rw [step,Conn.frame,if_pos reading,Reader.take,buffer,took,← afterFrame_toValue]
  rfl

/-- A request comes out of its serialization as it went in, and a call gets its response, if and
only if its id is not `null`. -/
theorem request_round_trip_iff (serde : Serde Error) (r : Request) (documented : serde.json.Documented [r.toValue]) :
    ((∃ v, serde.fromSlice (serde.toVec r.toValue) = .ok v ∧ Request.fromValue v = some r) ∧
      ∀ (c : Conn) (rest : List UInt8) (outcome : Outcome), c.phase = .reading →
        c.reader.rdBuf = serde.frame r.toValue ++ rest →
        ∃ read done, step serde c .frame = some read ∧ step serde read (.finish outcome) = some done ∧
          done.written = c.written ++ (r.id.map fun id => .of id outcome).toList) ↔
    r.id ≠ some .null := by
  have parsed : serde.fromSlice (serde.toVec r.toValue) = .ok r.toValue := documented.inverts _ (List.mem_singleton_self _)
  constructor
  · rintro ⟨⟨v,read,same⟩,_⟩ null
    obtain rfl := Except.ok.inj (parsed.symm.trans read)
    have ids := congrArg Request.id (Option.some.inj ((Request.fromValue_toValue r).symm.trans same))
    simp [null] at ids
  · intro other
    have kept := filter_null other
    refine ⟨⟨r.toValue,parsed,?_⟩,fun c rest outcome reading buffer => ?_⟩
    · rw [Request.fromValue_toValue,kept]
    · have answered := answer_request serde documented c rest outcome reading buffer
      rwa [kept] at answered

def called : Request := ⟨"2.0",some (.str "x"),"Lifecycle.Status",.null⟩
def nullCalled : Request := ⟨"2.0",some .null,"Lifecycle.Status",.null⟩

def calls : List (List UInt8 × Value) :=
  [(JsonRpc.text "\x7b\"id\":\"x\",\"jsonrpc\":\"2.0\",\"method\":\"Lifecycle.Status\",\"params\":null\x7d",called.toValue),
   (JsonRpc.text "\x7b\"id\":null,\"jsonrpc\":\"2.0\",\"method\":\"Lifecycle.Status\",\"params\":null\x7d",nullCalled.toValue)]

theorem calls_documented {v : Value} (member : v ∈ calls.map Prod.snd) : (tableSerde calls).json.Documented [v] :=
  tableSerde_documented calls (by decide +kernel) fun w only => List.mem_singleton.mp only ▸ member

theorem request_round_trip_called : ∃ v, (tableSerde calls).fromSlice ((tableSerde calls).toVec called.toValue) = .ok v ∧
    Request.fromValue v = some called :=
  ((request_round_trip_iff (tableSerde calls) called (calls_documented (by simp [calls]))).mpr (by decide)).1

/-- The id is lost, so the call is taken for a notification. -/
theorem null_id_lost : ¬ ∀ (Error : Type) (serde : Serde Error) (r : Request), serde.json.Documented [r.toValue] →
    ∃ v, serde.fromSlice (serde.toVec r.toValue) = .ok v ∧ Request.fromValue v = some r := by
  intro holds
  obtain ⟨v,read,same⟩ := holds String (tableSerde calls) nullCalled (calls_documented (by simp [calls]))
  have parsed : (tableSerde calls).fromSlice ((tableSerde calls).toVec nullCalled.toValue) = .ok nullCalled.toValue :=
    (calls_documented (v := nullCalled.toValue) (by simp [calls])).inverts _ (List.mem_singleton_self _)
  obtain rfl := Except.ok.inj (parsed.symm.trans read)
  exact absurd same (by decide +kernel)

end RoundTrip

end Malkuth.ServeConn
