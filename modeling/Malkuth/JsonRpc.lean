import Malkuth.FrameReader
import Malkuth.Json

/-! The JSON-RPC envelopes of `jsonrpc.rs`, as serde's derive writes them into a `Value` and
reads them out of one. What serde says about a value that does not fit is left out. -/
namespace Malkuth.JsonRpc

open Codec Json

inductive Id where
  | null
  | num (n : UInt64)
  | str (s : String)
  deriving DecidableEq, Repr

def Id.asValue : Id → Value
  | .null => .null
  | .num n => .number (.posInt n)
  | .str s => .string s

def Id.fromValue : Value → Option Id
  | .null => some .null
  | .number (.posInt n) => some (.num n)
  | .string s => some (.str s)
  | _ => none

structure RpcError where
  code : Int32
  message : String
  data : Option Value
  deriving DecidableEq

def RpcError.server (msg : String) : RpcError := ⟨-32000,msg,none⟩

def RpcError.toValue (e : RpcError) : Value :=
  .object ([("code",ofI32 e.code)] ++ skipNone "data" e.data ++ [("message",.string e.message)])

def RpcError.fromValue (v : Value) : Option RpcError := do
  match ← structFields ["code","message","data"] v with
  | [code,message,data] =>
    let code ← code.bind asI32
    let message ← message.bind asString
    let data ← asOption some data
    some ⟨code,message,data⟩
  | _ => none

structure Request where
  jsonrpc : String
  id : Option Id
  method : String
  params : Value
  deriving DecidableEq

def Request.call (id : UInt64) (method : String) (params : Value) : Request := ⟨"2.0",some (.num id),method,params⟩

def Request.notify (method : String) (params : Value) : Request := ⟨"2.0",none,method,params⟩

def Request.toValue (r : Request) : Value :=
  .object (skipNone "id" (r.id.map Id.asValue) ++
    [("jsonrpc",.string r.jsonrpc),("method",.string r.method),("params",r.params)])

def Request.fromValue (v : Value) : Option Request := do
  match ← structFields ["jsonrpc","id","method","params"] v with
  | [jsonrpc,id,method,params] =>
    let jsonrpc ← jsonrpc.bind asString
    let id ← asOption Id.fromValue id
    let method ← method.bind asString
    some ⟨jsonrpc,id,method,params.getD .null⟩
  | _ => none

structure Response where
  jsonrpc : String
  id : Id
  result : Option Value
  error : Option RpcError
  deriving DecidableEq

def Response.ok (id : Id) (result : Value) : Response := ⟨"2.0",id,some result,none⟩

def Response.err (id : Id) (error : RpcError) : Response := ⟨"2.0",id,none,some error⟩

def Response.toValue (r : Response) : Value :=
  .object (skipNone "error" (r.error.map RpcError.toValue) ++ [("id",r.id.asValue),("jsonrpc",.string r.jsonrpc)] ++
    skipNone "result" r.result)

def Response.fromValue (v : Value) : Option Response := do
  match ← structFields ["jsonrpc","id","result","error"] v with
  | [jsonrpc,id,result,error] =>
    let jsonrpc ← jsonrpc.bind asString
    let id ← id.bind Id.fromValue
    let result ← asOption some result
    let error ← asOption RpcError.fromValue error
    some ⟨jsonrpc,id,result,error⟩
  | _ => none

section RoundTrips

/-- A value that was written as `null` is read as absent. -/
def present (v : Option Value) : Option Value := v.filter (· ≠ .null)

def RpcError.read (e : RpcError) : RpcError := { e with data := present e.data }

theorem asOption_some (v : Option Value) : asOption some v = some (present v) := by
  cases v with
  | none => rfl
  | some v => cases v <;> rfl

theorem RpcError.fromValue_toValue (e : RpcError) : RpcError.fromValue e.toValue = some e.read := by
  obtain ⟨code,message,data⟩ := e
  have codes := asI32_ofI32 code
  cases data <;>
    simp [RpcError.fromValue,RpcError.toValue,structFields,field,skipNone,codes,asString,asOption_some,RpcError.read]

theorem asOption_id (id : Option Id) :
    asOption Id.fromValue (id.map Id.asValue) = some (id.filter (· ≠ .null)) := by
  cases id with
  | none => rfl
  | some id => cases id <;> rfl

theorem Request.fromValue_toValue (r : Request) :
    Request.fromValue r.toValue = some { r with id := r.id.filter (· ≠ .null) } := by
  obtain ⟨jsonrpc,id,method,params⟩ := r
  have ids := asOption_id id
  cases id with
  | none => simp [Request.fromValue,Request.toValue,structFields,field,skipNone,asString,asOption]
  | some id =>
    rw [Option.map_some] at ids
    simp [Request.fromValue,Request.toValue,structFields,field,skipNone,asString,ids]

theorem Id.fromValue_asValue (id : Id) : Id.fromValue id.asValue = some id := by
  cases id <;> rfl

theorem asOption_error (e : Option RpcError) :
    asOption RpcError.fromValue (e.map RpcError.toValue) = some (e.map RpcError.read) := by
  cases e with
  | none => rfl
  | some e =>
    have read := RpcError.fromValue_toValue e
    simpa [asOption,RpcError.toValue] using read

theorem Response.fromValue_toValue (r : Response) :
    Response.fromValue r.toValue = some { r with result := present r.result, error := r.error.map RpcError.read } := by
  obtain ⟨jsonrpc,id,result,error⟩ := r
  have ids := Id.fromValue_asValue id
  have errors := asOption_error error
  cases error with
  | none =>
    rw [Option.map_none] at errors
    cases result <;>
      simp [Response.fromValue,Response.toValue,structFields,field,skipNone,asString,asOption_some,ids,errors]
  | some e =>
    rw [Option.map_some] at errors
    cases result <;>
      simp [Response.fromValue,Response.toValue,structFields,field,skipNone,asString,asOption_some,ids,errors]

end RoundTrips

section Outcomes

abbrev Outcome := Except RpcError Value

def Response.of (id : Id) : Outcome → Response
  | .ok v => .ok id v
  | .error e => .err id e

/-- What a client makes of the response to its call. -/
def Response.outcome (r : Response) : Outcome :=
  match r.error with
  | some err => .error err
  | none => .ok (r.result.getD .null)

/-- The outcome as it arrives: an error's `null` data is absent. -/
def Outcome.read : Outcome → Outcome
  | .ok v => .ok v
  | .error e => .error e.read

/-- A response, written into a value and read out of it, still has its id and its outcome. -/
theorem fromValue_of (id : Id) (outcome : Outcome) :
    ∃ resp, Response.fromValue (Response.of id outcome).toValue = some resp ∧ resp.id = id ∧
      resp.outcome = Outcome.read outcome := by
  refine ⟨_,Response.fromValue_toValue _,?_⟩
  cases outcome with
  | error e => exact ⟨rfl,rfl⟩
  | ok v =>
    refine ⟨rfl,?_⟩
    have here : (present (some v)).getD .null = v := by cases v <;> rfl
    simp [Response.of,Response.ok,Response.outcome,Outcome.read,here]

end Outcomes

section Wire

/-- `serde_json` on the wire, and the texts of its errors: of bytes that are no JSON, and of a
value that is no response. -/
structure Serde (Error : Type) where
  toVec : Value → List UInt8
  fromSlice : List UInt8 → Except Error Value
  syntaxText : Error → String
  shapeText : Value → String

def Serde.json (serde : Serde Error) : SerdeJson Value Error := ⟨.null,serde.toVec,serde.fromSlice⟩

def Serde.frame (serde : Serde Error) (v : Value) : List UInt8 := serde.toVec v ++ [newline]

def Serde.frames (serde : Serde Error) (vs : List Value) : List UInt8 := vs.flatMap serde.frame

theorem Serde.takeFrame_frame (serde : Serde Error) (documented : serde.json.Documented sent) (member : v ∈ sent)
    (rest : List UInt8) : takeFrame serde.json (serde.frame v ++ rest) = some (.ok v,rest) := by
  have parsed := documented.trailing _ v (documented.inverts v member)
  have clean : newline ∉ serde.toVec v := documented.raw v member
  have solid := documented.blank _ v parsed
  rw [Serde.frame,List.append_assoc,List.singleton_append,takeFrame_line serde.json _ _ clean]
  exact congrArg some (Prod.ext ((if_neg (Bool.not_eq_true _ ▸ solid)).trans parsed) rfl)

/-- A reader of frames that were written takes the first of them, however the bytes were cut. -/
theorem Serde.take_frames (serde : Serde Error) (documented : serde.json.Documented sent) (all : ∀ v ∈ vs, v ∈ sent)
    (stream : rdBuf ++ coming = serde.frames vs) (took : takeFrame serde.json rdBuf = some (res,rest)) :
    ∃ v vs', vs = v :: vs' ∧ res = .ok v ∧ rest ++ coming = serde.frames vs' := by
  have whole := takeFrame_append serde.json took coming
  rw [stream] at whole
  cases vs with
  | nil => simp [Serde.frames,takeFrame] at whole
  | cons v vs =>
    rw [Serde.frames,List.flatMap_cons,serde.takeFrame_frame documented (all v List.mem_cons_self)] at whole
    obtain ⟨rfl,same⟩ := Prod.mk.inj (Option.some.inj whole)
    exact ⟨v,vs,rfl,rfl,same.symm⟩

end Wire

section Table

def tableSerde (table : List (List UInt8 × Value)) : Serde String where
  toVec v := ((table.find? fun e => e.2 = v).map Prod.fst).getD [110,117,108,108]
  fromSlice bytes := match table.find? fun e => e.1 = trimmed bytes with
    | some e => .ok e.2
    | none => .error "expected value"
  syntaxText e := e
  shapeText _ := "invalid type"

def Tabled (table : List (List UInt8 × Value)) : Prop :=
  ∀ e ∈ table, (e.1.any fun b => !isAsciiWhitespace b) = true ∧ newline ∉ (tableSerde table).toVec e.2 ∧
    (tableSerde table).fromSlice ((tableSerde table).toVec e.2) = .ok e.2

instance (table : List (List UInt8 × Value)) : Decidable (Tabled table) :=
  inferInstanceAs (Decidable (∀ e ∈ table, _ ∧ _ ∧ _))

theorem tableSerde_documented (table : List (List UInt8 × Value)) (tabled : Tabled table)
    (known : ∀ v ∈ sent, v ∈ table.map Prod.snd) : (tableSerde table).json.Documented sent where
  raw v member := by
    obtain ⟨e,here,rfl⟩ := List.mem_map.mp (known v member)
    exact (tabled e here).2.1
  inverts v member := by
    obtain ⟨e,here,rfl⟩ := List.mem_map.mp (known v member)
    exact (tabled e here).2.2
  trailing bytes v parsed := by
    have same : trimmed (bytes ++ [newline]) = trimmed bytes := by
      simp [trimmed,newline,isJsonSpace]
    simpa only [Serde.json,tableSerde,same] using parsed
  blank bytes v parsed := by
    simp only [Serde.json,tableSerde] at parsed
    split at parsed
    next e found =>
      have text : e.1 = trimmed bytes := by simpa using List.find?_some found
      obtain ⟨b,inside,solid⟩ := List.any_eq_true.mp (tabled e (List.mem_of_find?_eq_some found)).1
      by_contra spaces
      have spaces : ∀ b ∈ bytes, isAsciiWhitespace b = true := by simpa using spaces
      simp [spaces b (trimmed_subset bytes (text ▸ inside))] at solid
    · contradiction

def text (s : String) : List UInt8 := s.toList.map fun c => UInt8.ofNat c.toNat

def twoCalls : List (List UInt8 × Value) :=
  [(text "\x7b\"id\":1,\"jsonrpc\":\"2.0\",\"method\":\"a\",\"params\":null\x7d",(Request.call 1 "a" .null).toValue),
   (text "\x7b\"id\":2,\"jsonrpc\":\"2.0\",\"method\":\"b\",\"params\":null\x7d",(Request.call 2 "b" .null).toValue),
   (text "\x7b\"id\":1,\"jsonrpc\":\"2.0\",\"result\":true\x7d",(Response.ok (.num 1) (.bool true)).toValue),
   (text "\x7b\"id\":2,\"jsonrpc\":\"2.0\",\"result\":false\x7d",(Response.ok (.num 2) (.bool false)).toValue)]

end Table

end Malkuth.JsonRpc
