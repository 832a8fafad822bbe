import Malkuth.ServeDoor
import Malkuth.Transition
import Mathlib.Data.List.DropRight
import Mathlib.Data.List.Infix

/-! One client with its cookie at the front door, while the backend is rebuilt under it. Every
response that was forwarded carries the door's cookie, whatever the request was for. -/
namespace Malkuth.ServeDoor

open Headers Transition

/-- The bytes of a build token: lower-case hexadecimal. -/
def isHex (b : UInt8) : Bool := (48 ≤ b && b ≤ 57) || (97 ≤ b && b ≤ 102)

def hexDigit (d : Nat) : UInt8 := UInt8.ofNat (if d < 10 then 48 + d else 87 + d)

def hexEncode (bytes : List UInt8) : List UInt8 :=
  bytes.flatMap fun b => [hexDigit (b.toNat / 16),hexDigit (b.toNat % 16)]

theorem isHex_hexDigit (bound : d < 16) : isHex (hexDigit d) = true := by
  have all : ∀ d < 16, isHex (hexDigit d) = true := by decide
  exact all d bound

theorem isHex_hexEncode (member : b ∈ hexEncode bytes) : isHex b = true := by
  simp only [hexEncode,List.mem_flatMap,List.mem_cons,List.not_mem_nil,or_false] at member
  obtain ⟨c,_,rfl | rfl⟩ := member
  · exact isHex_hexDigit (by have := c.toNat_lt; omega)
  · exact isHex_hexDigit (by omega)

structure Token where
  bytes : List UInt8
  some_ : bytes ≠ []
  hex : ∀ b ∈ bytes, isHex b = true
  deriving DecidableEq

def Token.first : Token := ⟨ascii "1",by decide +kernel,by decide +kernel⟩

/-- `hex_encode(&hash)[..12]` of a SHA-256 digest. -/
def Token.ofDigest (digest : Vector UInt8 32) : Token where
  bytes := (hexEncode digest.toList).take 12
  some_ := by
    obtain ⟨b,bs,shown⟩ := List.exists_cons_of_ne_nil (l := digest.toList) (by
      intro empty
      have length := congrArg List.length empty
      simp at length)
    simp [shown,hexEncode]
  hex _ member := isHex_hexEncode (List.mem_of_mem_take member)

/-- A cookie's value as a client has it: no semicolon, and no blank at its ends. -/
@[ext] structure CookieValue where
  bytes : List UInt8
  clean : 59 ∉ bytes
  trimmed : trim bytes = bytes
  deriving DecidableEq

/-- What a client keeps of a `Set-Cookie` of the nonce; any other it does not look at here. -/
def stored (value : List UInt8) : Option CookieValue :=
  let pair := value.takeWhile (· ≠ 59)
  if trim (pair.takeWhile (· ≠ 61)) = ascii "__malkuth_nonce" ∧ 61 ∈ pair then
    some ⟨trim ((pair.dropWhile (· ≠ 61)).tail),by
      intro member
      have inside := (List.dropWhile_suffix _).subset (List.mem_of_mem_tail (trim_subset _ member))
      simpa using List.mem_takeWhile_imp inside,trim_trim _⟩
  else none

/-- A request of the client, but for its nonce: `before` and `after` are the other parts of its
`Cookie` header, between semicolons. -/
structure Sent where
  method : Method
  headers : HeaderMap
  onUpgrade : Bool
  before : List (List UInt8)
  after : List (List UInt8)
  plain : ∀ h ∈ headers.fields, h.1 ≠ "cookie"
  others : ∀ part ∈ before ++ after, 59 ∉ part ∧ withoutStart noncePair (trim part) = none

def Sent.cookies (sent : Sent) (jar : Option CookieValue) : List (List UInt8) :=
  let nonce (v : CookieValue) := (if sent.before = [] then [] else [32]) ++ noncePair ++ v.bytes
  sent.before ++ (jar.map nonce).toList ++ sent.after

def Sent.request (sent : Sent) (jar : Option CookieValue) : Request where
  method := sent.method
  headers :=
    if sent.cookies jar = [] then sent.headers
    else sent.headers.append "cookie" ([59].intercalate (sent.cookies jar))
  onUpgrade := sent.onUpgrade

structure Door where
  backend : String
  hosts : List (List UInt8)
  spaBuilt : Bool

def Door.info (door : Door) (token : Token) : InfoState := ⟨some door.backend,door.hosts,door.spaBuilt,token.bytes⟩

structure State where
  token : Token
  jar : Option CookieValue

inductive Event where
  /-- A round of the probe loop; a probe that fails keeps the token. -/
  | probed (digest : Option (Vector UInt8 32))
  | request (sent : Sent) (exchange : Exchange)

def Door.response (door : Door) (s : State) (sent : Sent) (exchange : Exchange) : Response :=
  infoPage (door.info s.token) (sent.request s.jar) exchange

def Response.marks : Response → List CookieValue
  | .backend _ headers => (headers.getAll "set-cookie").filterMap stored
  | _ => []

def step (door : Door) (s : State) : Event → Option State
  | .probed none => some s
  | .probed (some digest) => some { s with token := .ofDigest digest }
  | .request sent exchange => some { s with jar := (door.response s sent exchange).marks.getLast?.or s.jar }

def initial : State := ⟨.first,none⟩

section Cookies

theorem isHex_plain (hex : isHex b = true) : isVisible b = true ∧ b ≠ 59 ∧ isBlank b = false := by
  have all : ∀ n < 256, isHex (UInt8.ofNat n) = true →
      isVisible (UInt8.ofNat n) = true ∧ UInt8.ofNat n ≠ 59 ∧ isBlank (UInt8.ofNat n) = false := by
    decide +kernel
  simpa using all b.toNat b.toNat_lt (by simpa using hex)

def Token.cookie (token : Token) : CookieValue where
  bytes := token.bytes
  clean member := (isHex_plain (token.hex 59 member)).2.1 rfl
  trimmed := trim_of_ends fun b ends => by
    rcases ends with first | last
    · exact (isHex_plain (token.hex b (List.mem_of_mem_head? first))).2.2
    · exact (isHex_plain (token.hex b (List.mem_of_getLast? last))).2.2

theorem Token.visible (token : Token) : token.bytes.all isVisible = true :=
  List.all_eq_true.mpr fun b member => (isHex_plain (token.hex b member)).1

theorem trim_nonce (v : CookieValue) : trim (noncePair ++ v.bytes) = noncePair ++ v.bytes := by
  refine trim_of_ends fun b ends => ?_
  rcases ends with first | last
  · obtain rfl : 95 = b := by simpa [noncePair,ascii] using first
    rfl
  · rw [List.getLast?_append] at last
    cases shown : v.bytes.getLast? with
    | none =>
      obtain rfl : 61 = b := by simpa [shown,noncePair,ascii] using last
      rfl
    | some c =>
      obtain rfl : c = b := by simpa [shown] using last
      cases blank : isBlank c with
      | false => rfl
      | true =>
        -- a blank at the end would have been trimmed away
        have kept := congrArg List.getLast? v.trimmed
        rw [shown,trim,List.getLast?_reverse] at kept
        exact blank.symm.trans (dropWhile_head _ kept)

theorem withoutStart_append (start rest : List UInt8) : withoutStart start (start ++ rest) = some rest := by
  simp [withoutStart]

theorem findSome?_cookies (sent : Sent) (jar : Option CookieValue) :
    (sent.cookies jar).findSome? (fun part => withoutStart noncePair (trim part)) = jar.map CookieValue.bytes := by
  have absent (parts : List (List UInt8)) (inside : ∀ part ∈ parts, part ∈ sent.before ++ sent.after) :
      parts.findSome? (fun part => withoutStart noncePair (trim part)) = none :=
    List.findSome?_eq_none_iff.mpr fun part member => (sent.others part (inside part member)).2
  rw [Sent.cookies,List.findSome?_append,List.findSome?_append,
    absent sent.before fun _ => List.mem_append_left _,absent sent.after fun _ => List.mem_append_right _]
  cases jar with
  | none => rfl
  | some v =>
    have own : trim ((if sent.before = [] then [] else [32]) ++ (noncePair ++ v.bytes)) = noncePair ++ v.bytes := by
      split
      · exact trim_nonce v
      · exact (trim_blank _).trans (trim_nonce v)
    simp [own,withoutStart_append]

theorem cookies_clean (sent : Sent) (jar : Option CookieValue) : ∀ part ∈ sent.cookies jar, 59 ∉ part := by
  intro part member
  simp only [Sent.cookies,List.append_assoc,List.mem_append,Option.mem_toList,Option.map_eq_some_iff] at member
  rcases member with front | ⟨v,rfl,rfl⟩ | back
  · exact (sent.others part (List.mem_append_left _ front)).1
  · simp only [List.mem_append,not_or]
    exact ⟨by split <;> decide,by decide,v.clean⟩
  · exact (sent.others part (List.mem_append_right _ back)).1

theorem all_intercalate (p : UInt8 → Bool) (passes : p sep = true) (parts : List (List UInt8)) :
    ([sep].intercalate parts).all p = parts.all fun part => part.all p := by
  induction parts with
  | nil => rfl
  | cons part parts ih =>
    cases parts with
    | nil => simp
    | cons next parts =>
      rw [List.intercalate_cons_cons,List.all_append,List.all_append,ih]
      simp [passes]

/-- `to_str` lets the client's `Cookie` header through. -/
def Sent.readable (sent : Sent) : Bool := (sent.before ++ sent.after).all fun part => part.all isVisible

theorem readNonce_request (sent : Sent) (jar : Option CookieValue) :
    readNonce (sent.request jar) =
      if (sent.cookies jar).all (fun part => part.all isVisible) then (jar.map CookieValue.bytes).getD [] else [] := by
  by_cases none_ : sent.cookies jar = []
  · have absent : sent.headers.get "cookie" = none := by
      simpa [HeaderMap.get] using fun name value member => sent.plain (name,value) member
    have empty : jar = none := by
      cases jar with
      | none => rfl
      | some v => simp [Sent.cookies] at none_
    subst empty
    simp [readNonce,Sent.request,none_,absent]
  · have header : (sent.request jar).headers.get "cookie" = some ([59].intercalate (sent.cookies jar)) := by
      rw [Sent.request,if_neg none_]
      exact HeaderMap.get_append_new _ _ sent.plain
    have parts := List.splitOn_intercalate 59 (cookies_clean sent jar) none_
    rw [readNonce,header,Option.bind_some,toStr,all_intercalate isVisible (by decide)]
    by_cases visible : (sent.cookies jar).all (fun part => part.all isVisible) = true
    · simp only [visible,if_true,parts,findSome?_cookies]
      cases jar with
      | none => rfl
      | some v => exact v.trimmed
    · simp [visible]

theorem seenCurrentBuild_request (door : Door) (token : Token) (sent : Sent) (jar : Option CookieValue) :
    seenCurrentBuild (door.info token) (sent.request jar) = true ↔ sent.readable = true ∧ jar = some token.cookie := by
  have same (v : CookieValue) : v = token.cookie ↔ v.bytes = token.bytes := by
    cases v
    simp [Token.cookie]
  simp only [seenCurrentBuild,Bool.and_eq_true,decide_eq_true_eq,readNonce_request,Door.info]
  cases jar with
  | none => simp [token.some_.symm]
  | some v =>
    have parts : (sent.cookies (some v)).all (fun part => part.all isVisible) =
        (sent.readable && v.bytes.all isVisible) := by
      have blank : (if sent.before = [] then [] else [32] : List UInt8).all isVisible = true := by split <;> decide
      have name : noncePair.all isVisible = true := by decide
      simp only [Sent.cookies,Sent.readable,Option.map_some,Option.toList_some,List.all_append,List.all_cons,
        List.all_nil,blank,name,Bool.and_true,Bool.true_and]
      rw [Bool.and_assoc,Bool.and_comm (v.bytes.all isVisible),Bool.and_assoc]
    rw [parts,Option.some.injEq,same]
    constructor
    · rintro ⟨some_,here⟩
      split at here
      next visible => exact ⟨(Bool.and_eq_true_iff.mp visible).1,here⟩
      · exact absurd here.symm token.some_
    · rintro ⟨readable,here⟩
      rw [readable,here,token.visible,Bool.and_self,if_pos rfl,Option.map_some,Option.getD_some]
      exact ⟨by simp [here,token.some_],here⟩

end Cookies

section Marks

def Answer.ownMarks (answer : Answer) : List CookieValue :=
  (((answer.headers.filter isCookie).map Prod.snd).filter fun v => v.all isValid).filterMap stored

theorem stored_nonceCookie (token : Token) : stored (nonceCookie token.bytes) = some token.cookie := by
  have visible (b) (member : b ∈ token.bytes) : isValid b = true := by
    have all : ∀ n < 256, isHex (UInt8.ofNat n) = true → isValid (UInt8.ofNat n) = true := by decide +kernel
    simpa using all b.toNat b.toNat_lt (by simpa using token.hex b member)
  have raw : nonceCookie token.bytes = noncePair ++ token.bytes ++ ascii "; max-age=604800; path=/" := by
    have valid : (noncePair ++ token.bytes ++ ascii "; max-age=604800; path=/").all isValid = true := by
      rw [List.all_append,List.all_append,List.all_eq_true.mpr visible]
      decide +kernel
    rw [nonceCookie,if_pos valid]
  have pair : (nonceCookie token.bytes).takeWhile (· ≠ 59) = noncePair ++ token.bytes := by
    have clean : ∀ b ∈ noncePair ++ token.bytes, decide (b ≠ 59) = true := by
      intro b member
      rcases List.mem_append.mp member with name | inside
      · exact (by decide +kernel : ∀ b ∈ noncePair, decide (b ≠ 59) = true) b name
      · exact decide_eq_true (isHex_plain (token.hex b inside)).2.1
    have rest : ascii "; max-age=604800; path=/" = 59 :: ascii " max-age=604800; path=/" := by decide +kernel
    rw [raw,rest,List.takeWhile_append_of_pos clean]
    simp
  have cut : noncePair ++ token.bytes = ascii "__malkuth_nonce" ++ 61 :: token.bytes := by
    simp [noncePair,ascii]
  have name : ∀ b ∈ ascii "__malkuth_nonce", decide (b ≠ 61) = true := by decide +kernel
  simp only [stored,pair,cut,List.takeWhile_append_of_pos name,List.dropWhile_append_of_pos name]
  have start : (61 :: token.bytes).takeWhile (fun b => decide (b ≠ 61)) = [] := by simp
  have rest : ((61 :: token.bytes).dropWhile (fun b => decide (b ≠ 61))).tail = token.bytes := by simp
  rw [if_pos ⟨by rw [start]; decide,by simp⟩,Option.some.injEq]
  exact CookieValue.ext ((congrArg trim rest).trans token.cookie.trimmed)

/-- A forwarded response names the current build, before anything that the backend sets. -/
theorem assemble_marks (token : Token) (answer : Answer) :
    (assemble token.bytes answer).marks = token.cookie :: answer.ownMarks := by
  simp only [assemble,Response.marks,rest_cookies,appendCookies_getAll,HeaderMap.getAll_append,
    HeaderMap.getAll_empty,if_true,List.nil_append,List.singleton_append,List.filterMap_cons,stored_nonceCookie]
  rfl

/-- A request that is neither a page load nor an upgrade nor a poll stamps the client with the
current build, if the backend answers it. -/
theorem step_stamps (door : Door) (s : State) (sent : Sent) (answer : Answer)
    (served : (door.info s.token).serveAllowed (sent.request s.jar) = true)
    (poll : ((sent.request s.jar).headers.get "x-malkuth-probe").isSome = false)
    (upgrade : isUpgradeRequest (sent.request s.jar).headers = false)
    (asset : requestInterceptable (sent.request s.jar) = false)
    (live : shouldFallBack answer.status = false) (silent : answer.ownMarks = []) :
    step door s (.request sent (some answer)) = some ⟨s.token,some s.token.cookie⟩ := by
  have forwarded : door.response s sent (some answer) = assemble s.token.bytes answer := by
    have backend : (door.info s.token).serveBackend = some door.backend := rfl
    have epoch : (door.info s.token).epoch = s.token.bytes := rfl
    simp only [Door.response,infoPage,poll,upgrade,asset,backend,epoch,served,proxyToBackend,live,
      Option.isSome_some,Bool.and_true,Bool.and_false,Bool.not_false,if_true,Bool.false_eq_true,if_false,
      Option.bind_eq_bind,Option.bind_some]
  simp only [step,forwarded,assemble_marks,silent]
  rfl

end Marks

section History

/-- The nonces that the client was given, in order. -/
def marks (door : Door) (past : List (Taken State Event)) : List CookieValue :=
  past.flatMap fun t =>
    match t.event with
    | .request sent exchange => (door.response t.pre sent exchange).marks
    | .probed _ => []

def changesToken (t : Taken State Event) : Bool := t.pre.token ≠ t.post.token

def isPageLoad (t : Taken State Event) : Bool :=
  match t.event with
  | .request sent _ => isDocument (sent.request t.pre.jar)
  | .probed _ => false

/-- The first page load since the token has changed, or since the client came. -/
def FirstPageLoad (past : List (Taken State Event)) (t : Taken State Event) : Prop :=
  isPageLoad t = true ∧ ∀ u ∈ past.rtakeWhile (fun u => !changesToken u), isPageLoad u = false

def landed (door : Door) (t : Taken State Event) : Bool :=
  match t.event with
  | .request sent exchange => (door.response t.pre sent exchange).isLanding
  | .probed _ => false

/-- The last nonce that the client was given names the build of now, and the door can forward
its request: the host is served, the header is readable and the backend answers. -/
def Marked (door : Door) (past : List (Taken State Event)) (t : Taken State Event) : Prop :=
  match t.event with
  | .request sent exchange =>
    (marks door past).getLast? = some t.pre.token.cookie ∧
    (door.info t.pre.token).serveAllowed (sent.request t.pre.jar) = true ∧ sent.readable = true ∧
    exchange.live = true
  | .probed _ => False

theorem run_jar (door : Door) (run : Run (step door) initial past s) : s.jar = (marks door past).getLast? := by
  induction run with
  | nil => rfl
  | @snoc past s e s' _ taken ih =>
    cases e with
    | probed digest =>
      have kept : s'.jar = s.jar := by
        cases digest <;> obtain rfl := Option.some.inj taken <;> rfl
      simp [kept,ih,marks]
    | request sent exchange =>
      obtain rfl := Option.some.inj taken
      simp only [ih,marks,List.flatMap_append,List.flatMap_singleton,List.getLast?_append]

theorem landed_iff (door : Door) (run : Run (step door) initial past t.pre) (page : isPageLoad t = true) :
    landed door t = true ↔ ¬ Marked door past t := by
  obtain ⟨pre,event,post⟩ := t
  cases event with
  | probed digest => simp [isPageLoad] at page
  | request sent exchange =>
    have backend : (door.info pre.token).serveBackend.isSome = true := rfl
    have jar : pre.jar = (marks door past).getLast? := run_jar door run
    simp only [landed,Marked,Door.response,infoPage_document _ _ _ page,seenCurrentBuild_request,← jar,backend,
      true_and]
    refine not_congr ⟨?_,?_⟩
    · rintro ⟨allowed,⟨readable,marked⟩,live⟩
      exact ⟨marked,allowed,readable,live⟩
    · rintro ⟨marked,allowed,readable,live⟩
      exact ⟨allowed,⟨readable,marked⟩,live⟩

def OneLandingPerBuild (door : Door) (past : List (Taken State Event)) : Prop :=
  ∀ before t after, past = before ++ t :: after → FirstPageLoad before t → landed door t = true

/-- The client sees the landing page of every build exactly when no response has marked it for
that build before it loads a page. -/
theorem one_landing_iff (door : Door) (past : List (Taken State Event)) (s : State)
    (run : Run (step door) initial past s) :
    OneLandingPerBuild door past ↔
      ∀ before t after, past = before ++ t :: after → FirstPageLoad before t → ¬ Marked door before t := by
  refine forall_congr' fun before => forall_congr' fun t => forall_congr' fun after => ?_
  refine forall_congr' fun cut => forall_congr' fun first => ?_
  subst cut
  exact landed_iff door run.split.1 first.1

def fetch (accept : String) : Sent where
  method := .get
  headers := HeaderMap.empty.append "accept" (ascii accept)
  onUpgrade := false
  before := []
  after := []
  plain := by simp [HeaderMap.append,HeaderMap.empty]
  others := by simp

def anyDoor : Door := ⟨"http://127.0.0.1:8425",[],true⟩

def build (b : UInt8) : Event := .probed (some (.replicate 32 b))

def page (status : Nat) : Exchange := some ⟨status,[("content-type",ascii "text/html")]⟩

/-- A page load, a rebuild, and a page load. -/
theorem one_landing_rebuilt : ∃ past s, Run (step anyDoor) initial past s ∧ past.length = 4 ∧
    OneLandingPerBuild anyDoor past := by
  obtain ⟨past,s,run,length,unmarked⟩ := exists_run (step anyDoor) initial
    [build 1,.request (fetch "text/html") (page 200),build 2,.request (fetch "text/html") (page 200)]
    (fun past _ => past.length = 4 ∧ ∀ before ∈ past.inits, marks anyDoor before = []) (by decide +kernel)
  refine ⟨past,s,run,length,(one_landing_iff anyDoor past s run).mpr ?_⟩
  rintro before ⟨pre,event,post⟩ after rfl _ marked
  have none_ := unmarked before ((List.mem_inits _ _).mpr (List.prefix_append _ _))
  cases event with
  | probed digest => exact marked
  | request sent exchange => simp [Marked,none_] at marked

/-- An asset is fetched before the first page, and the page is forwarded. -/
theorem landing_skipped : ¬ ∀ door past s, Run (step door) initial past s → OneLandingPerBuild door past := by
  intro lands
  obtain ⟨before,t,after,s,run,_,page,first,skipped⟩ := exists_run_cut (step anyDoor) initial
    [build 1,.request (fetch "application/json") (page 200)] (.request (fetch "text/html") (page 200)) []
    (fun before t _ _ => isPageLoad t = true ∧
      (∀ u ∈ before.rtakeWhile (fun u => !changesToken u), isPageLoad u = false) ∧ landed anyDoor t = false)
    (by decide +kernel)
  have landing := lands anyDoor _ s run before t after rfl ⟨page,first⟩
  simp [skipped] at landing

end History

end Malkuth.ServeDoor
