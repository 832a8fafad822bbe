import Malkuth.ServeDoor
import Mathlib.Data.List.Nodup

/-! The header fields of a forwarded response. Cookies are appended, all other fields are
inserted: of a name that comes more than once only the last value is passed on. -/
namespace Malkuth.ServeDoor

open Headers

/-- The values that the backend sent under a name, in its order. -/
def sentValues (fields : List (String × List UInt8)) (name : String) : List (List UInt8) :=
  (fields.filter fun f => Text.toAsciiLowercase f.1 = name).map Prod.snd

def passed (epoch : List UInt8) (fields : List (String × List UInt8)) (name : String) : List (List UInt8) :=
  if name = "set-cookie" then nonceCookie epoch :: sentValues fields name
  else if name = "transfer-encoding" ∨ name = "connection" then []
  else sentValues fields name

def plain (f : String × List UInt8) : Bool := !isCookie f && !isHopByHop f

def Valid (fields : List (String × List UInt8)) : Prop :=
  ∀ f ∈ fields, (headerName f.1).isSome = true ∧ f.2.all isValid = true

variable {fields : List (String × List UInt8)}

theorem lands_valid (valid : Valid fields) (member : f ∈ fields) (name : String) :
    lands name f = decide (Text.toAsciiLowercase f.1 = name) := by
  obtain ⟨named,good⟩ := valid f member
  obtain ⟨own,is⟩ := Option.isSome_iff_exists.mp named
  obtain ⟨_,rfl⟩ := Option.ite_some_none_eq_some.mp is
  simp [lands,is,good]

def assembled (epoch : List UInt8) (fields : List (String × List UInt8)) : HeaderMap :=
  (fields.filter plain).foldl insertField
    ((((fields.filter isCookie).map Prod.snd).filter fun v => v.all isValid).foldl
      (fun map v => map.append "set-cookie" v) (HeaderMap.empty.append "set-cookie" (nonceCookie epoch)))

theorem assemble_eq (epoch : List UInt8) (answer : Answer) :
    assemble epoch answer = .backend (statusCode answer.status) (assembled epoch answer.headers) := rfl

def special (name : String) : Bool := name = "set-cookie" || name = "transfer-encoding" || name = "connection"

theorem plain_eq (f : String × List UInt8) : plain f = !special (Text.toAsciiLowercase f.1) := by
  simp [plain,isCookie,isHopByHop,special,Bool.and_assoc]

theorem plain_lands (valid : Valid fields) (name : String) : (fields.filter plain).filter (lands name) =
    if special name then [] else fields.filter fun f => Text.toAsciiLowercase f.1 = name := by
  have own : (fields.filter plain).filter (lands name) =
      fields.filter fun f => decide (Text.toAsciiLowercase f.1 = name) && !special name := by
    rw [List.filter_filter]
    refine List.filter_congr fun f member => ?_
    rw [lands_valid valid member,plain_eq]
    by_cases same : Text.toAsciiLowercase f.1 = name
    · rw [same]
    · simp [same]
  rw [own]
  cases special name <;> simp

theorem cookies_valid (valid : Valid fields) :
    (((fields.filter isCookie).map Prod.snd).filter fun v => v.all isValid) = sentValues fields "set-cookie" := by
  refine List.filter_eq_self.mpr fun v member => ?_
  obtain ⟨f,inside,rfl⟩ := List.mem_map.mp member
  exact (valid f (List.mem_of_mem_filter inside)).2

/-- What the browser gets under a name. -/
theorem assembled_getAll (valid : Valid fields) (epoch : List UInt8) (name : String) :
    (assembled epoch fields).getAll name =
      if special name then passed epoch fields name else (sentValues fields name).getLast?.toList := by
  rw [assembled,insertFields_getAll,plain_lands valid,cookies_valid valid,appendCookies_getAll,
    HeaderMap.getAll_append,HeaderMap.getAll_empty,List.nil_append]
  cases is : special name with
  | true =>
    by_cases cookie : "set-cookie" = name
    · subst cookie
      simp [passed]
    · have hop : name = "transfer-encoding" ∨ name = "connection" := by
        simpa [special,Ne.symm cookie] using is
      simp [passed,cookie,Ne.symm cookie,hop]
  | false =>
    have cookie : "set-cookie" ≠ name := by
      rintro rfl
      simp [special] at is
    simp only [Bool.false_eq_true,if_false,sentValues,List.getLast?_map,if_neg cookie,List.append_nil]
    cases (fields.filter fun f => Text.toAsciiLowercase f.1 = name).getLast? <;> rfl

theorem passed_plain (epoch : List UInt8) (ordinary : special name = false) :
    passed epoch fields name = sentValues fields name := by
  simp only [special,Bool.or_eq_false_iff,decide_eq_false_iff_not] at ordinary
  simp [passed,ordinary]

/-- The last of several is all of them only where there is no other. -/
theorem getLast?_toList_eq (l : List α) : l.getLast?.toList = l ↔ l.length ≤ 1 := by
  rcases l with _ | ⟨x,_ | ⟨y,rest⟩⟩
  · simp
  · simp
  · refine iff_of_false (fun same => ?_) (by simp)
    have length := congrArg List.length same
    cases last : (x :: y :: rest).getLast? <;> simp [last] at length

def Unrepeated (fields : List (String × List UInt8)) : Prop :=
  ((fields.filter plain).map fun f => Text.toAsciiLowercase f.1).Nodup

theorem unrepeated_iff (fields : List (String × List UInt8)) :
    Unrepeated fields ↔ ∀ name, special name = false → (sentValues fields name).length ≤ 1 := by
  have count (name : String) : ((fields.filter plain).map fun f => Text.toAsciiLowercase f.1).count name =
      if special name then 0 else (sentValues fields name).length := by
    rw [List.count,List.countP_map,List.countP_filter,sentValues,List.length_map,← List.countP_eq_length_filter]
    cases is : special name with
    | true =>
      refine List.countP_eq_zero.mpr fun f _ both => ?_
      simp only [Function.comp_apply,Bool.and_eq_true,beq_iff_eq,plain_eq] at both
      simp [both.1,is] at both
    | false =>
      refine List.countP_congr fun f _ => ?_
      simp only [Function.comp_apply,Bool.and_eq_true,beq_iff_eq,plain_eq,decide_eq_true_eq]
      refine and_iff_left_of_imp fun same => ?_
      rw [same,is]
      rfl
  rw [Unrepeated,List.nodup_iff_count_le_one]
  refine forall_congr' fun name => ?_
  rw [count]
  cases special name <;> simp

/-- A live response, through either path: its header fields are passed on, each name with its
values in order, but for those about the connection and with the door's cookie first, if and
only if no other name comes twice. -/
theorem headers_pass_iff (req : Request) (epoch : List UInt8) (answer : Answer) (other : answer.status ≠ 101)
    (live : shouldFallBack answer.status = false) (valid : Valid answer.headers) :
    (∃ map, proxyToBackend (some answer) epoch = some (.backend (statusCode answer.status) map) ∧
      proxyUpgrade req (some answer) epoch = some (.backend (statusCode answer.status) map) ∧
      ∀ name, map.getAll name = passed epoch answer.headers name) ↔
    ((answer.headers.filter plain).map fun f => Text.toAsciiLowercase f.1).Nodup := by
  have direct : proxyToBackend (some answer) epoch =
      some (.backend (statusCode answer.status) (assembled epoch answer.headers)) := by
    simp [proxyToBackend,live,assemble_eq]
  have upgraded : proxyUpgrade req (some answer) epoch =
      some (.backend (statusCode answer.status) (assembled epoch answer.headers)) := by
    unfold proxyUpgrade
    cases req.onUpgrade with
    | true => simp [other,live,assemble_eq]
    | false => exact direct
  have same : (∀ name, (assembled epoch answer.headers).getAll name = passed epoch answer.headers name) ↔
      Unrepeated answer.headers := by
    rw [unrepeated_iff]
    refine forall_congr' fun name => ?_
    rw [assembled_getAll valid]
    cases is : special name with
    | true => simp
    | false =>
      rw [passed_plain epoch is]
      simpa using getLast?_toList_eq (sentValues answer.headers name)
  constructor
  · rintro ⟨map,is,_,passes⟩
    rw [direct] at is
    obtain ⟨_,rfl⟩ := Response.backend.inj (Option.some.inj is)
    exact same.mp passes
  · intro once
    exact ⟨_,direct,upgraded,same.mpr once⟩

def plainPage : Answer := ⟨200,[("set-cookie",ascii "session=abc"),("content-type",ascii "text/html")]⟩

def varied : Answer := ⟨200,[("vary",ascii "accept"),("vary",ascii "origin")]⟩

def anyUpgrade : Request := ⟨.get,.empty,true⟩

theorem headers_pass_page : ∃ map, proxyUpgrade anyUpgrade (some plainPage) (ascii "1") = some (.backend 200 map) ∧
    map.getAll "content-type" = [ascii "text/html"] ∧ (map.getAll "set-cookie").length = 2 := by
  have valid : Valid plainPage.headers := by unfold Valid; decide +kernel
  obtain ⟨map,_,is,passes⟩ := (headers_pass_iff anyUpgrade (ascii "1") plainPage (by decide) (by decide) valid).mpr
    (by decide +kernel)
  refine ⟨map,is,?_,?_⟩
  · rw [passes]
    decide +kernel
  · rw [passes]
    decide +kernel

/-- The first of two values is lost. -/
theorem varied_loses_one : ¬ ∀ (req : Request) (epoch : List UInt8) (answer : Answer), answer.status ≠ 101 →
    shouldFallBack answer.status = false → Valid answer.headers →
    ∃ map, proxyToBackend (some answer) epoch = some (.backend (statusCode answer.status) map) ∧
      proxyUpgrade req (some answer) epoch = some (.backend (statusCode answer.status) map) ∧
      ∀ name, map.getAll name = passed epoch answer.headers name := by
  intro passes
  have valid : Valid varied.headers := by unfold Valid; decide +kernel
  obtain ⟨map,is,_,all⟩ := passes anyUpgrade (ascii "1") varied (by decide) (by decide) valid
  have got : proxyToBackend (some varied) (ascii "1") =
      some (.backend 200 ⟨[("set-cookie",nonceCookie (ascii "1")),("vary",ascii "origin")]⟩) := by decide +kernel
  rw [got] at is
  obtain ⟨_,rfl⟩ := Response.backend.inj (Option.some.inj is)
  have one := congrArg List.length (all "vary")
  revert one
  decide +kernel

end Malkuth.ServeDoor
