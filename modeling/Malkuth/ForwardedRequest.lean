import Malkuth.PassThrough
import Malkuth.UrlTarget
import Mathlib.Data.List.Flatten

/-! The request that the front door makes of a browser's: its method is chosen from six, its target
is put behind the backend, the fields about the connection are dropped, and the door's own cookie
is cut out of the cookies. -/
namespace Malkuth.ServeDoor

open Headers

def maxProxyBodyBytes : Nat := 1024 * 1024

def Method.asStr : Method → String
  | .get => "GET"
  | .head => "HEAD"
  | .post => "POST"
  | .put => "PUT"
  | .delete => "DELETE"
  | .patch => "PATCH"
  | .other token => token

/-- What is handed to the HTTP client. A body that was not set is none. -/
structure BackendRequest where
  method : Method
  url : String
  headers : List (String × List UInt8)
  body : Option (List UInt8)
  deriving DecidableEq

def clientMethod (method : String) : Method :=
  match method with
  | "GET" => .get
  | "POST" => .post
  | "PUT" => .put
  | "DELETE" => .delete
  | "PATCH" => .patch
  | "HEAD" => .head
  | _ => .get

def trimEndSlashes (s : String) : String := String.ofList (s.toList.reverse.dropWhile (· = '/')).reverse

def isNoncePair (part : List UInt8) : Bool := noncePair.isPrefixOf (trim part)

def cookieParts (value : List UInt8) : List (List UInt8) := value.splitOn 59

def cleaned (cookies : List UInt8) : List (List UInt8) := (cookieParts cookies).filter fun c => !isNoncePair c

def dropped (name : String) : Bool := name = "host" || name = "connection" || name = "transfer-encoding"

def forwardField (field : String × List UInt8) : List (String × List UInt8) :=
  let lower := Text.toAsciiLowercase field.1
  if lower = "cookie" then
    match toStr field.2 with
    | some cookies => if cleaned cookies = [] then [] else [(field.1,List.intercalate [59] (cleaned cookies))]
    | none => []
  else if dropped lower then []
  else [field]

/-- `uri.path_and_query()`, which only an authority has not. -/
def pathAndQuery (uri : Option String) : String := uri.getD "/"

/-- `proxy_to_backend_parts` up to `send`; a body that is too long is an error. -/
def backendRequest (req : Request) (uri : Option String) (body : List UInt8) (backend : String) : Option BackendRequest :=
  if body.length ≤ maxProxyBodyBytes then
    some ⟨clientMethod req.method.asStr,trimEndSlashes backend ++ pathAndQuery uri,
      req.headers.fields.flatMap forwardField,if body = [] then none else some body⟩
  else none

structure Admitted (state : InfoState) (req : Request) : Prop where
  poll : (req.headers.get "x-malkuth-probe").isSome = false
  allowed : state.serveAllowed req = true
  upgrade : isUpgradeRequest req.headers = false
  seen : seenCurrentBuild state req = true ∨ requestInterceptable req = false

/-- The door's answer to such a request is what the client makes of the request it is handed. -/
theorem infoPage_admitted (serves : state.serveBackend = some backend) (admitted : Admitted state req)
    (client : BackendRequest → Exchange) (uri : Option String) (body : List UInt8) :
    infoPage state req ((backendRequest req uri body backend).bind client) =
      (proxyToBackend ((backendRequest req uri body backend).bind client) state.epoch).getD
        (.page (if state.spaBuilt then .spa else .landing)) := by
  obtain ⟨poll,allowed,upgrade,seen⟩ := admitted
  have stays : (!seenCurrentBuild state req && requestInterceptable req) = false := by
    rcases seen with seen | asset
    · simp [seen]
    · simp [asset]
  simp only [infoPage,poll,serves,allowed,upgrade,stays,Option.isSome_some,Bool.and_true,Bool.not_false,
    Bool.false_eq_true,if_false,if_true]
  cases proxyToBackend ((backendRequest req uri body backend).bind client) state.epoch <;> rfl

/-- The same request, but for the fields about the connection and the nonce: its URL asks for the
same path and query, and no other part of the cookies is lost. -/
structure Faithful (req : Request) (uri : Option String) (body : List UInt8) (out : BackendRequest) : Prop where
  method : out.method.asStr = req.method.asStr
  target : Url.target out.url.toList = some (Url.asked (pathAndQuery uri).toList)
  body : out.body.getD [] = body
  cookies : (sentValues out.headers "cookie").flatMap cookieParts =
    ((sentValues req.headers.fields "cookie").flatMap cookieParts).filter fun c => !isNoncePair c
  others : ∀ name, name ≠ "cookie" →
    sentValues out.headers name = if dropped name then [] else sentValues req.headers.fields name

section Fields

variable {fields : List (String × List UInt8)}

theorem sentValues_flatMap (fields : List (String × List UInt8)) (f : String × List UInt8 → List (String × List UInt8))
    (name : String) : sentValues (fields.flatMap f) name = fields.flatMap fun field => sentValues (f field) name := by
  simp only [sentValues,List.filter_flatMap,List.map_flatMap]

theorem sentValues_singleton (field : String × List UInt8) (name : String) :
    sentValues [field] name = if Text.toAsciiLowercase field.1 = name then [field.2] else [] := by
  by_cases same : Text.toAsciiLowercase field.1 = name <;> simp [sentValues,same]

theorem sentValues_eq_flatMap (fields : List (String × List UInt8)) (name : String) :
    sentValues fields name = fields.flatMap fun field => sentValues [field] name := by
  rw [← sentValues_flatMap]
  simp

/-- A field that is passed on keeps its name. -/
theorem forwardField_name (field : String × List UInt8) : ∀ f ∈ forwardField field, f.1 = field.1 := by
  unfold forwardField
  dsimp only
  split
  · split
    · split <;> simp
    · simp
  · split <;> simp

theorem forwardField_elsewhere (field : String × List UInt8) (other : Text.toAsciiLowercase field.1 ≠ name) :
    sentValues (forwardField field) name = [] := by
  rw [sentValues,List.map_eq_nil_iff,List.filter_eq_nil_iff]
  intro f member same
  rw [forwardField_name field f member] at same
  exact other (of_decide_eq_true same)

theorem forwardField_other (field : String × List UInt8) (other : name ≠ "cookie") :
    sentValues (forwardField field) name = if dropped name then [] else sentValues [field] name := by
  by_cases own : Text.toAsciiLowercase field.1 = name
  · subst own
    unfold forwardField
    simp only [if_neg other]
    split <;> rfl
  · rw [forwardField_elsewhere field own,sentValues_singleton,if_neg own,ite_self]

theorem parts_clean (value : List UInt8) : ∀ part ∈ cookieParts value, 59 ∉ part := by
  unfold cookieParts
  induction value with
  | nil => simp
  | cons b value ih =>
    rw [List.splitOn_cons_eq_if_modifyHead]
    split
    next => simpa using ih
    next other =>
      obtain ⟨first,rest,shown⟩ := List.exists_cons_of_ne_nil (List.splitOn_ne_nil (59 : UInt8) value)
      rw [shown] at ih ⊢
      obtain ⟨clean,others⟩ := List.forall_mem_cons.mp ih
      rw [List.modifyHead_cons]
      refine List.forall_mem_cons.mpr ⟨?_,others⟩
      intro member
      rcases List.mem_cons.mp member with same | inside
      · exact other (by simp [← same])
      · exact clean inside

/-- The cookies of one field that are passed on. -/
theorem forwardField_cookies (field : String × List UInt8) :
    (sentValues (forwardField field) "cookie").flatMap cookieParts =
      if field.2.all isVisible then ((sentValues [field] "cookie").flatMap cookieParts).filter fun c => !isNoncePair c
      else [] := by
  rw [sentValues_singleton]
  by_cases own : Text.toAsciiLowercase field.1 = "cookie"
  · simp only [forwardField,own,if_true,toStr]
    by_cases visible : field.2.all isVisible = true
    · simp only [visible,if_true,List.flatMap_singleton]
      change _ = cleaned field.2
      split
      next none_ => rw [none_]; rfl
      next some_ =>
        rw [sentValues_singleton,if_pos own,List.flatMap_singleton]
        apply List.splitOn_intercalate
        · exact fun part member => parts_clean field.2 part (List.mem_of_mem_filter member)
        · exact some_
    · simp [visible,sentValues]
  · rw [forwardField_elsewhere field own,if_neg own]
    simp

end Fields

/-- Lists that are put together of parts of others are these others only if each part is. -/
theorem flatMap_eq_iff (f g : α → List β) (xs : List α) (part : ∀ x ∈ xs, (f x).Sublist (g x)) :
    xs.flatMap f = xs.flatMap g ↔ ∀ x ∈ xs, f x = g x := by
  constructor
  · intro same
    induction xs with
    | nil => simp
    | cons x xs ih =>
      obtain ⟨first,others⟩ := List.forall_mem_cons.mp part
      rw [List.flatMap_cons,List.flatMap_cons] at same
      have rest : (xs.flatMap f).Sublist (xs.flatMap g) := List.Sublist.flatMap_right xs others
      have lengths := congrArg List.length same
      rw [List.length_append,List.length_append] at lengths
      have small := first.length_le
      have small' := rest.length_le
      refine List.forall_mem_cons.mpr ⟨first.eq_of_length (by omega),ih others (rest.eq_of_length (by omega))⟩
  · exact fun same => List.flatMap_congr same

/-- The methods that the client has a function for. -/
def clientMethods : List String := ["GET","POST","PUT","DELETE","PATCH","HEAD"]

theorem clientMethod_same (token : String) : (clientMethod token).asStr = token ↔ token ∈ clientMethods := by
  constructor
  · intro same
    unfold clientMethod at same
    split at same <;> simp_all [Method.asStr,clientMethods]
  · intro member
    simp only [clientMethods,List.mem_cons,List.not_mem_nil,or_false] at member
    rcases member with rfl | rfl | rfl | rfl | rfl | rfl <;> rfl

/-- The cookies can be read as text, or are all to be removed anyway. -/
def CookiesPass (value : List UInt8) : Prop :=
  value.all isVisible = true ∨ ∀ part ∈ cookieParts value, isNoncePair part = true

theorem cookies_pass_iff (fields : List (String × List UInt8)) :
    (sentValues (fields.flatMap forwardField) "cookie").flatMap cookieParts =
        ((sentValues fields "cookie").flatMap cookieParts).filter (fun c => !isNoncePair c) ↔
      ∀ value ∈ sentValues fields "cookie", CookiesPass value := by
  -- field by field: a value that is no text gives nothing
  have per (field : String × List UInt8) := forwardField_cookies field
  have whole : ((sentValues fields "cookie").flatMap cookieParts).filter (fun c => !isNoncePair c) =
      fields.flatMap fun field => ((sentValues [field] "cookie").flatMap cookieParts).filter fun c => !isNoncePair c := by
    rw [sentValues_eq_flatMap,List.flatMap_assoc,List.filter_flatMap]
  rw [sentValues_flatMap,List.flatMap_assoc,whole,flatMap_eq_iff]
  · have values : (∀ value ∈ sentValues fields "cookie", CookiesPass value) ↔
        ∀ field ∈ fields, ∀ value ∈ sentValues [field] "cookie", CookiesPass value := by
      rw [sentValues_eq_flatMap]
      simp only [List.mem_flatMap,forall_exists_index,and_imp]
      exact ⟨fun all field inside value => all value field inside,fun all value field inside => all field inside value⟩
    rw [values]
    refine forall₂_congr fun field _ => ?_
    rw [per,sentValues_singleton]
    by_cases own : Text.toAsciiLowercase field.1 = "cookie"
    · rw [if_pos own,List.forall_mem_singleton,List.flatMap_singleton]
      by_cases visible : field.2.all isVisible = true
      · rw [if_pos visible]
        exact iff_of_true rfl (.inl visible)
      · rw [if_neg visible,eq_comm,List.filter_eq_nil_iff,CookiesPass,or_iff_right visible]
        simp
    · simp [own]
  · intro field _
    rw [per]
    split
    · exact .refl _
    · exact List.nil_sublist _

/-- The backend is an origin, and the target is a path or a query; or the backend ends in a fragment
and is itself what is asked for. -/
def Lands (backend target : List Char) : Prop :=
  Url.Origin backend ∧ (∃ c rest, target = c :: rest ∧ (c = '/' ∨ c = '?')) ∧ '#' ∉ target ∨
    '#' ∈ backend ∧ Url.target backend = some (Url.asked target)

theorem trimEndSlashes_last (s : String) : (trimEndSlashes s).toList.getLast? ≠ some '/' := by
  rw [trimEndSlashes,String.toList_ofList,List.getLast?_reverse]
  intro slash
  have stops := List.head?_dropWhile_not (fun c => decide (c = '/')) s.toList.reverse
  rw [slash] at stops
  simp at stops

/-- A backend with a path is asked for another target, and so is one that is asked for no path. -/
example : Url.target (trimEndSlashes "http://h/app/" ++ "/x").toList = some "/app/x".toList ∧
    Url.target (trimEndSlashes "http://h" ++ "*").toList = some "/".toList := by decide +kernel

/-- A request that the door sends on arrives as it was, but for the fields about the connection
and the nonce, if and only if the client has its method, its target lands, and its cookies can be
read as text. -/
theorem forwarded_faithful_iff (state : InfoState) (req : Request) (uri : Option String) (body : List UInt8)
    (backend : String) (serves : state.serveBackend = some backend) (admitted : Admitted state req)
    (small : body.length ≤ 1024 * 1024) :
    (∃ out, backendRequest req uri body backend = some out ∧ Faithful req uri body out ∧
      ∀ client : BackendRequest → Exchange, infoPage state req (client out) =
        (proxyToBackend (client out) state.epoch).getD (.page (if state.spaBuilt then .spa else .landing))) ↔
    req.method.asStr ∈ clientMethods ∧ Lands (trimEndSlashes backend).toList (pathAndQuery uri).toList ∧
      ∀ value ∈ sentValues req.headers.fields "cookie",
        value.all isVisible = true ∨ ∀ part ∈ cookieParts value, isNoncePair part = true := by
  have made : backendRequest req uri body backend = some ⟨clientMethod req.method.asStr,
      trimEndSlashes backend ++ pathAndQuery uri,req.headers.fields.flatMap forwardField,
      if body = [] then none else some body⟩ := if_pos small
  have lands := Url.target_append_iff (trimEndSlashes_last backend) (pathAndQuery uri).toList
  rw [← String.toList_append] at lands
  constructor
  · rintro ⟨out,is,faithful,_⟩
    obtain rfl := Option.some.inj (made.symm.trans is)
    exact ⟨(clientMethod_same _).mp faithful.method,lands.mp faithful.target,(cookies_pass_iff _).mp faithful.cookies⟩
  · rintro ⟨method,landing,cookies⟩
    refine ⟨_,made,⟨(clientMethod_same _).mpr method,lands.mpr landing,?_,(cookies_pass_iff _).mpr cookies,?_⟩,?_⟩
    · by_cases none_ : body = [] <;> simp [none_]
    · intro name other
      rw [sentValues_flatMap,sentValues_eq_flatMap req.headers.fields]
      simp only [forwardField_other _ other]
      cases dropped name with
      | true => simp
      | false => rfl
    · intro client
      have page := infoPage_admitted serves admitted client uri body
      rw [made] at page
      exact page

/-- A front door that has sent this build to the browser before. -/
def openDoor : InfoState := ⟨some "http://127.0.0.1:3000/",[],false,ascii "7"⟩

def cookies : List UInt8 := ascii "a=1; __malkuth_nonce=7; b=2"

def asks (method : Method) : Request := ⟨method,⟨[("host",ascii "example.org"),("cookie",cookies)]⟩,false⟩

theorem asks_admitted (method : Method) : Admitted openDoor (asks method) := by
  have seen : seenCurrentBuild openDoor (asks .get) = true := by decide +kernel
  exact ⟨rfl,rfl,rfl,.inl seen⟩

theorem forwarded_faithful_patch : ∃ out, backendRequest (asks .patch) (some "/api?x=1") [1,2] "http://127.0.0.1:3000/" =
    some out ∧ out.method = .patch ∧ out.url = "http://127.0.0.1:3000/api?x=1" ∧
    Url.target out.url.toList = some "/api?x=1".toList ∧ Faithful (asks .patch) (some "/api?x=1") [1,2] out := by
  have host : ("127.0.0.1:3000".toList.all fun c => !Url.delimiter c) = true := by decide +kernel
  have plain : ∀ c ∈ "127.0.0.1:3000".toList, Url.delimiter c = false := fun c member => by
    simpa using List.all_eq_true.mp host c member
  obtain ⟨out,is,faithful,_⟩ := (forwarded_faithful_iff openDoor (asks .patch) (some "/api?x=1") [1,2]
    "http://127.0.0.1:3000/" rfl (asks_admitted _) (by decide)).mpr ⟨by decide,by
      refine .inl ⟨⟨"http".toList,"127.0.0.1:3000".toList,?_,?_,?_,plain⟩,⟨'/',"api?x=1".toList,?_,.inl rfl⟩,?_⟩
      all_goals decide +kernel,by
      refine fun value member => .inl ?_
      obtain rfl : value = cookies := by
        have only : sentValues (asks .patch).headers.fields "cookie" = [cookies] := by decide +kernel
        rw [only] at member
        exact List.mem_singleton.mp member
      decide +kernel⟩
  obtain rfl := Option.some.inj ((if_pos (by decide)).symm.trans is)
  exact ⟨_,is,by decide +kernel,by decide +kernel,faithful.target,faithful⟩

/-- The backend is asked for a page where the browser asked what it may do. -/
theorem options_rewritten : ¬ ∀ (state : InfoState) (req : Request) (uri : Option String) (body : List UInt8)
    (backend : String), state.serveBackend = some backend → Admitted state req → body.length ≤ 1024 * 1024 →
    ∃ out, backendRequest req uri body backend = some out ∧ Faithful req uri body out := by
  intro holds
  obtain ⟨out,is,faithful⟩ := holds openDoor (asks (.other "OPTIONS")) (some "/") [] "http://127.0.0.1:3000/" rfl
    (asks_admitted _) (by decide)
  obtain rfl := Option.some.inj ((if_pos (by decide)).symm.trans is)
  exact absurd faithful.method (by decide)

end Malkuth.ServeDoor
