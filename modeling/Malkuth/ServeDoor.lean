import Malkuth.Headers
import Mathlib.Data.List.Induction

/-! The front door of `info_page.rs` with `--serve`: which requests it forwards to the backend
and which it answers itself. What the backend does with a forwarded request is up to it, so an
exchange is an argument here. -/
namespace Malkuth.ServeDoor

open Headers

inductive Method where
  | get
  | head
  | post
  | put
  | delete
  | patch
  | other (token : String)
  deriving DecidableEq, Repr

structure Request where
  method : Method
  headers : HeaderMap
  /-- hyper has left its `OnUpgrade` in the extensions. -/
  onUpgrade : Bool

/-- A response of the backend, with its header fields as they were read; their names are ASCII. -/
structure Answer where
  status : Nat
  headers : List (String × List UInt8)

/-- What becomes of a forwarded request; `none` when the backend cannot be reached, does not
answer in time, or what it sends cannot be read or is too long. -/
abbrev Exchange := Option Answer

/-- The pages that the door has itself: the built landing page, and its two templates. -/
inductive Page where
  | spa
  | landing
  | info
  deriving DecidableEq, Repr

inductive Response where
  /-- The JSON of `serve_probe`. -/
  | probe
  | page (p : Page)
  | backend (status : Nat) (headers : HeaderMap)
  deriving DecidableEq

/-- `spaBuilt`: `LANDING_PAGE_HTML` is more than its stub. -/
structure InfoState where
  serveBackend : Option String
  serveHosts : List (List UInt8)
  spaBuilt : Bool
  epoch : List UInt8

def noncePair : List UInt8 := ascii "__malkuth_nonce="

def nonceCookie (epoch : List UInt8) : List UInt8 :=
  let raw := noncePair ++ epoch ++ ascii "; max-age=604800; path=/"
  if raw.all isValid then raw else ascii "__malkuth_nonce=1; max-age=604800; path=/"

def readNonce (req : Request) : List UInt8 :=
  match (req.headers.get "cookie").bind toStr with
  | none => []
  | some cookies =>
    match (cookies.splitOn 59).findSome? fun part => withoutStart noncePair (trim part) with
    | some val => trim val
    | none => []

def isUpgradeRequest (headers : HeaderMap) : Bool :=
  (headers.get "upgrade").isSome &&
    ((headers.getAll "connection").filterMap toStr).any fun v =>
      (v.splitOn 44).any fun token => toAsciiLowercase (trim token) = ascii "upgrade"

def requestInterceptable (req : Request) : Bool :=
  match req.method with
  | .get | .head =>
    match (req.headers.get "sec-fetch-dest").bind toStr with
    | some dest => dest = ascii "document" || dest = ascii "iframe"
    | none => ((req.headers.get "accept").bind toStr).any fun a => contains (toAsciiLowercase a) (ascii "text/html")
  | _ => false

def shouldFallBack (status : Nat) : Bool := 502 ≤ status && status ≤ 504

/-- `StatusCode::from_u16(..).unwrap_or(StatusCode::OK)`. -/
def statusCode (status : Nat) : Nat := if 100 ≤ status ∧ status < 1000 then status else 200

def insertField (map : HeaderMap) (field : String × List UInt8) : HeaderMap :=
  match headerName field.1 with
  | some name => if field.2.all isValid then map.insert name field.2 else map
  | none => map

def appendField (map : HeaderMap) (field : String × List UInt8) : HeaderMap :=
  match headerName field.1 with
  | some name => if field.2.all isValid then map.append name field.2 else map
  | none => map

def isCookie (field : String × List UInt8) : Bool := Text.toAsciiLowercase field.1 = "set-cookie"

def isHopByHop (field : String × List UInt8) : Bool :=
  Text.toAsciiLowercase field.1 = "transfer-encoding" || Text.toAsciiLowercase field.1 = "connection"

/-- The response to the browser: the door's cookie, then those of the backend, then the rest. -/
def assemble (epoch : List UInt8) (answer : Answer) : Response :=
  let cookies := (answer.headers.filter isCookie).map Prod.snd
  let stamped := HeaderMap.empty.append "set-cookie" (nonceCookie epoch)
  let withCookies := (cookies.filter fun v => v.all isValid).foldl (fun map v => map.append "set-cookie" v) stamped
  let rest := answer.headers.filter fun f => !isCookie f && !isHopByHop f
  .backend (statusCode answer.status) (rest.foldl insertField withCookies)

def proxyToBackend (exchange : Exchange) (epoch : List UInt8) : Option Response := do
  let answer ← exchange
  if shouldFallBack answer.status then none else some (assemble epoch answer)

def proxyUpgrade (req : Request) (exchange : Exchange) (epoch : List UInt8) : Option Response :=
  if req.onUpgrade then do
    let answer ← exchange
    if answer.status = 101 then some (.backend 101 (answer.headers.foldl appendField .empty))
    else if shouldFallBack answer.status then none
    else some (assemble epoch answer)
  else proxyToBackend exchange epoch

def InfoState.serveAllowed (state : InfoState) (req : Request) : Bool :=
  state.serveHosts.isEmpty || state.serveHosts.any fun h => req.headers.get "host" = some h

def seenCurrentBuild (state : InfoState) (req : Request) : Bool :=
  readNonce req ≠ [] && readNonce req = state.epoch

def infoPage (state : InfoState) (req : Request) (exchange : Exchange) : Response :=
  if (req.headers.get "x-malkuth-probe").isSome then .probe
  else if state.serveBackend.isSome && state.serveAllowed req then
    let intercept := !seenCurrentBuild state req && !isUpgradeRequest req.headers && requestInterceptable req
    let proxyResult :=
      if intercept then none
      else if isUpgradeRequest req.headers then proxyUpgrade req exchange state.epoch
      else proxyToBackend exchange state.epoch
    match proxyResult with
    | some resp => resp
    | none => .page (if state.spaBuilt then .spa else .landing)
  else .page (if state.spaBuilt then .spa else .info)

/-- A request that the door would answer with the landing page: a page load, and neither an
upgrade nor a poll of the landing page. -/
def isDocument (req : Request) : Bool :=
  (req.headers.get "x-malkuth-probe").isNone && !isUpgradeRequest req.headers && requestInterceptable req

def Response.isLanding : Response → Bool
  | .page _ => true
  | _ => false

def Exchange.live (exchange : Exchange) : Bool := exchange.any fun answer => !shouldFallBack answer.status

theorem proxyToBackend_isSome (exchange : Exchange) (epoch : List UInt8) :
    (proxyToBackend exchange epoch).isSome = exchange.live := by
  cases exchange with
  | none => rfl
  | some answer => by_cases down : shouldFallBack answer.status <;> simp [proxyToBackend,Exchange.live,down]

theorem proxyToBackend_not_page (forwarded : proxyToBackend exchange epoch = some resp) : resp.isLanding = false := by
  obtain ⟨answer,_,taken⟩ := Option.bind_eq_some_iff.mp forwarded
  obtain ⟨_,same⟩ := Option.ite_none_left_eq_some.mp taken
  obtain rfl := Option.some.inj same
  rfl

/-- A page load gets the landing page unless its origin is served, its cookie names the current
build and the backend answers it. -/
theorem infoPage_document (state : InfoState) (req : Request) (exchange : Exchange) (document : isDocument req = true) :
    (infoPage state req exchange).isLanding = true ↔
      ¬ (state.serveBackend.isSome = true ∧ state.serveAllowed req = true ∧ seenCurrentBuild state req = true ∧
        exchange.live = true) := by
  simp only [isDocument,Bool.and_eq_true,Option.isNone_iff_eq_none,Bool.not_eq_true'] at document
  obtain ⟨⟨plain,stays⟩,page⟩ := document
  have live := proxyToBackend_isSome exchange state.epoch
  simp only [infoPage,plain,Option.isSome_none,Bool.false_eq_true,if_false,stays,page]
  by_cases serves : state.serveBackend.isSome = true ∧ state.serveAllowed req = true
  · by_cases seen : seenCurrentBuild state req = true
    · cases result : proxyToBackend exchange state.epoch with
      | none => simp [serves,seen,result,← live,Response.isLanding]
      | some resp => simp [serves,seen,result,← live,proxyToBackend_not_page result]
    · simp [serves,seen,Response.isLanding]
  · rw [← Bool.and_eq_true] at serves
    rw [if_neg serves]
    refine iff_of_true rfl ?_
    rintro ⟨backend,allowed,_⟩
    simp [backend,allowed] at serves

def lands (name : String) (field : String × List UInt8) : Bool := headerName field.1 = some name && field.2.all isValid

theorem insertField_getAll (map : HeaderMap) (field : String × List UInt8) (name : String) :
    (insertField map field).getAll name = if lands name field then [field.2] else map.getAll name := by
  unfold insertField lands
  cases named : headerName field.1 with
  | none => simp
  | some own =>
    cases valid : field.2.all isValid with
    | false => simp
    | true =>
      by_cases same : own = name
      · subst same
        simp [HeaderMap.getAll_insert_same]
      · simp [same,HeaderMap.getAll_insert_other map field.2 same]

/-- Of the fields of a name the last one stays. -/
theorem insertFields_getAll (fields : List (String × List UInt8)) (map : HeaderMap) (name : String) :
    (fields.foldl insertField map).getAll name =
      ((fields.filter (lands name)).getLast?.map fun f => [f.2]).getD (map.getAll name) := by
  induction fields using List.reverseRecOn with
  | nil => rfl
  | append_singleton fields f ih =>
    rw [List.foldl_append,List.foldl_cons,List.foldl_nil,insertField_getAll,List.filter_append]
    cases own : lands name f with
    | true => simp [own]
    | false => simpa [own] using ih

theorem appendCookies_getAll (values : List (List UInt8)) (map : HeaderMap) (name : String) :
    (values.foldl (fun map v => map.append "set-cookie" v) map).getAll name =
      map.getAll name ++ if "set-cookie" = name then values else [] := by
  induction values generalizing map with
  | nil => simp
  | cons v values ih =>
    rw [List.foldl_cons,ih,HeaderMap.getAll_append]
    by_cases same : "set-cookie" = name <;> simp [same]

theorem lands_lower (own : lands name field = true) : Text.toAsciiLowercase field.1 = name := by
  have named : headerName field.1 = some name := of_decide_eq_true (Bool.and_eq_true_iff.mp own).1
  exact (Option.ite_some_none_eq_some.mp named).2

/-- What is put in after the cookies leaves them alone. -/
theorem rest_cookies (fields : List (String × List UInt8)) (map : HeaderMap) :
    ((fields.filter fun f => !isCookie f && !isHopByHop f).foldl insertField map).getAll "set-cookie" =
      map.getAll "set-cookie" := by
  have none_ : (fields.filter fun f => !isCookie f && !isHopByHop f).filter (lands "set-cookie") = [] := by
    refine List.filter_eq_nil_iff.mpr fun f member own => ?_
    have kept := (List.mem_filter.mp member).2
    simp [isCookie,lands_lower own] at kept
  rw [insertFields_getAll,none_]
  rfl

end Malkuth.ServeDoor
