import Malkuth.ForwardedRequest
import Mathlib.Data.List.TakeDrop

/-! The handshake that `proxy_upgrade` writes to the backend by itself: request line, fields and
body, byte by byte. What a backend reads out of these bytes is the specification here: lines up
to a line feed, fields up to a blank line, and a body as long as its length says. -/
namespace Malkuth.ServeDoor

open Headers

def bytesOf (s : String) : List UInt8 := s.toByteArray.data.toList

def trimStartMatches (pat text : List Char) : List Char :=
  if _here : pat ≠ [] ∧ pat.isPrefixOf text = true then trimStartMatches pat (text.drop pat.length) else text
termination_by text.length
decreasing_by
  have inside := (List.isPrefixOf_iff_prefix.mp _here.2).length_le
  have some_ := List.length_pos_of_ne_nil _here.1
  rw [List.length_drop]
  omega

def backendHostPort (backend : String) : Option String :=
  let hostPort := (trimStartMatches "https://".toList (trimStartMatches "http://".toList backend.toList)).takeWhile
    fun c => c ≠ '/' && c ≠ '?'
  if hostPort = [] then none else some (String.ofList hostPort)

def crlf : List UInt8 := [13,10]

def fieldLine (field : String × List UInt8) : List UInt8 := ascii field.1 ++ [58,32] ++ field.2 ++ crlf

def upgradeField (field : String × List UInt8) : List (String × List UInt8) :=
  let lower := Text.toAsciiLowercase field.1
  if lower = "host" ∨ lower = "connection" ∨ lower = "transfer-encoding" ∨ lower = "content-length" then []
  else if lower = "cookie" then
    match toStr field.2 with
    | some cookies => if cleaned cookies = [] then [] else [("Cookie",List.intercalate [59] (cleaned cookies))]
    | none => []
  else [field]

def lengthField (body : List UInt8) : List (String × List UInt8) :=
  if body = [] then [] else [("Content-Length",ascii (String.ofList (Text.display body.length)))]

def upgradeFields (req : Request) (hostPort : String) (body : List UInt8) : List (String × List UInt8) :=
  ("Host",bytesOf hostPort) :: req.headers.fields.flatMap upgradeField ++ lengthField body ++
    [("Connection",ascii "Upgrade")]

def upgradeBytes (req : Request) (uri : Option String) (hostPort : String) (body : List UInt8) : List UInt8 :=
  ascii req.method.asStr ++ [32] ++ bytesOf (pathAndQuery uri) ++ ascii " HTTP/1.1" ++ crlf ++
    (upgradeFields req hostPort body).flatMap fieldLine ++ crlf ++ body

/-- `proxy_upgrade` up to the reading of an answer; `none` are its errors before that. -/
def upgradeRequest (req : Request) (uri : Option String) (backend : String) (body : List UInt8) : Option (List UInt8) := do
  let hostPort ← backendHostPort backend
  if body.length ≤ maxProxyBodyBytes then some (upgradeBytes req uri hostPort body) else none

/-! How a backend reads a request. -/

structure Message where
  method : List UInt8
  target : List UInt8
  headers : HeaderMap
  body : List UInt8
  deriving DecidableEq

/-- A line ends with a line feed; a carriage return before it is not part of the line. -/
def readLine (bytes : List UInt8) : Option (List UInt8 × List UInt8) :=
  match bytes.dropWhile (· ≠ 10) with
  | [] => none
  | _ :: rest =>
    let line := bytes.takeWhile (· ≠ 10)
    some (if line.getLast? = some 13 then line.dropLast else line,rest)

theorem readLine_length (read : readLine bytes = some (line,rest)) : rest.length < bytes.length := by
  unfold readLine at read
  split at read
  · contradiction
  next b after left =>
    obtain ⟨_,rfl⟩ := Prod.mk.inj (Option.some.inj read)
    have short := (List.dropWhile_suffix (p := (· ≠ 10)) (l := bytes)).length_le
    rw [left,List.length_cons] at short
    exact short

def readField (line : List UInt8) : Option (String × List UInt8) :=
  match line.dropWhile (· ≠ 58) with
  | [] => none
  | _ :: value =>
    (headerName (String.ofList ((line.takeWhile (· ≠ 58)).map fun b => Char.ofNat b.toNat))).map fun name =>
      (name,trim value)

def readFields (bytes : List UInt8) : Option (List (String × List UInt8) × List UInt8) :=
  match _line : readLine bytes with
  | none => none
  | some (line,rest) =>
    if line = [] then some ([],rest)
    else
      match readField line, readFields rest with
      | some field, some (fields,rest) => some (field :: fields,rest)
      | _, _ => none
termination_by bytes.length
decreasing_by exact readLine_length _line

/-- The length of the body; two lengths, or a transfer encoding, are refused. -/
def bodyLength (headers : HeaderMap) : Option Nat :=
  match headers.getAll "transfer-encoding", headers.getAll "content-length" with
  | [], [] => some 0
  | [], [value] => Text.parseUnsigned (2^64) (value.map fun b => Char.ofNat b.toNat)
  | _, _ => none

/-- One request, and what comes after it. -/
def readMessage (bytes : List UInt8) : Option (Message × List UInt8) := do
  let (start,rest) ← readLine bytes
  match start.splitOn 32 with
  | [method,target,version] =>
    if version = ascii "HTTP/1.1" then do
      let (fields,rest) ← readFields rest
      let n ← bodyLength ⟨fields⟩
      if n ≤ rest.length then some (⟨method,target,⟨fields⟩,rest.take n⟩,rest.drop n) else none
    else none
  | _ => none

section Reading

def Clean (bytes : List UInt8) : Prop := ∀ b ∈ bytes, b ≠ 10 ∧ b ≠ 13

theorem readLine_line (clean : Clean line) (rest : List UInt8) : readLine (line ++ crlf ++ rest) = some (line,rest) := by
  have whole : line ++ crlf ++ rest = (line ++ [13]) ++ 10 :: rest := by simp [crlf]
  have none_ : ∀ b ∈ line ++ [13], (b ≠ 10) = True := by
    intro b member
    rcases List.mem_append.mp member with inside | last
    · simpa using (clean b inside).1
    · obtain rfl := List.mem_singleton.mp last
      decide
  have front : ((line ++ [13]) ++ 10 :: rest).takeWhile (· ≠ 10) = line ++ [13] := by
    rw [List.takeWhile_append_of_pos (by simpa using none_)]
    simp
  have back : ((line ++ [13]) ++ 10 :: rest).dropWhile (· ≠ 10) = 10 :: rest := by
    rw [List.dropWhile_append_of_pos (by simpa using none_)]
    simp
  rw [readLine,whole,back]
  simp only [front]
  simp

theorem isTchar_range (tchar : isTchar c = true) : 33 ≤ c.toNat ∧ c.toNat < 127 ∧ c.toNat ≠ 58 := by
  rcases Bool.or_eq_true_iff.mp tchar with letter | mark
  · have split : ((c.isUpper || c.isLower) || c.isDigit) = true := letter
    rcases Bool.or_eq_true_iff.mp split with alpha | digit
    · rcases Bool.or_eq_true_iff.mp alpha with upper | lower
      · have range : 'A'.val ≤ c.val ∧ c.val ≤ 'Z'.val := of_decide_eq_true upper
        obtain ⟨low,high⟩ := range
        rw [UInt32.le_iff_toNat_le] at low high
        have low : 65 ≤ c.toNat := low
        have high : c.toNat ≤ 90 := high
        omega
      · obtain ⟨low,high⟩ := Bool.and_eq_true_iff.mp lower
        have low : 97 ≤ c.toNat := UInt32.le_iff_toNat_le.mp (of_decide_eq_true low)
        have high : c.toNat ≤ 122 := UInt32.le_iff_toNat_le.mp (of_decide_eq_true high)
        omega
    · obtain ⟨low,high⟩ := Bool.and_eq_true_iff.mp digit
      have low : 48 ≤ c.toNat := UInt32.le_iff_toNat_le.mp (of_decide_eq_true low)
      have high : c.toNat ≤ 57 := UInt32.le_iff_toNat_le.mp (of_decide_eq_true high)
      omega
  · have member : c ∈ ['!','#','$','%','&','\'','*','+','-','.','^','_','`','|','~'] := List.contains_iff_mem.mp mark
    simp only [List.mem_cons,List.not_mem_nil,or_false] at member
    rcases member with rfl | rfl | rfl | rfl | rfl | rfl | rfl | rfl | rfl | rfl | rfl | rfl | rfl | rfl | rfl <;> decide

/-- The characters of an ASCII text are its bytes. -/
theorem map_ascii (s : String) (plain : ∀ c ∈ s.toList, c.toNat < 128) :
    (ascii s).map (fun b => Char.ofNat b.toNat) = s.toList := by
  rw [ascii,List.map_map]
  conv_rhs => rw [← List.map_id s.toList]
  apply List.map_congr_left
  intro c member
  have small := plain c member
  rw [Function.comp_apply,UInt8.toNat_ofNat',Nat.mod_eq_of_lt (by omega)]
  exact Char.ofNat_toNat c

def IsToken (name : String) : Prop := name ≠ "" ∧ name.toList.all isTchar = true

theorem token_bytes (token : IsToken name) (member : b ∈ ascii name) : 33 ≤ b.toNat ∧ b.toNat < 127 ∧ b.toNat ≠ 58 := by
  obtain ⟨c,inside,rfl⟩ := List.mem_map.mp member
  have range := isTchar_range (List.all_eq_true.mp token.2 c inside)
  rw [UInt8.toNat_ofNat',Nat.mod_eq_of_lt (by omega)]
  exact range

theorem valid_clean (valid : value.all isValid = true) : Clean value := by
  intro b member
  have fine := List.all_eq_true.mp valid b member
  constructor <;> rintro rfl <;> exact absurd fine (by decide)

theorem readField_line (token : IsToken name) (value : List UInt8) :
    readField (ascii name ++ [58,32] ++ value) = some (Text.toAsciiLowercase name,trim value) := by
  have none_ : ∀ b ∈ ascii name, b ≠ 58 := by
    rintro b member rfl
    exact (token_bytes token member).2.2 rfl
  have whole : ascii name ++ [58,32] ++ value = ascii name ++ 58 :: 32 :: value := by simp
  have front : (ascii name ++ 58 :: 32 :: value).takeWhile (· ≠ 58) = ascii name := by
    rw [List.takeWhile_append_of_pos (by simpa using none_)]
    simp
  have back : (ascii name ++ 58 :: 32 :: value).dropWhile (· ≠ 58) = 58 :: 32 :: value := by
    rw [List.dropWhile_append_of_pos (by simpa using none_)]
    simp
  have chars : ∀ c ∈ name.toList, c.toNat < 128 := by
    intro c member
    have range := isTchar_range (List.all_eq_true.mp token.2 c member)
    omega
  have named : headerName name = some (Text.toAsciiLowercase name) := if_pos token
  rw [readField,whole,back]
  simp only [front,map_ascii name chars,String.ofList_toList,named,Option.map_some,trim_blank]

theorem fieldLine_clean {field : String × List UInt8} (token : IsToken field.1) (valid : field.2.all isValid = true) :
    Clean (ascii field.1 ++ [58,32] ++ field.2) := by
  intro b member
  rcases List.mem_append.mp member with front | back
  · rcases List.mem_append.mp front with name | mark
    · have range := token_bytes token name
      constructor <;> rintro rfl <;> exact absurd range (by decide)
    · simp only [List.mem_cons,List.not_mem_nil,or_false] at mark
      rcases mark with rfl | rfl <;> decide
  · exact valid_clean valid b back

theorem readFields_lines (fields : List (String × List UInt8))
    (good : ∀ f ∈ fields, IsToken f.1 ∧ f.2.all isValid = true) (rest : List UInt8) :
    readFields (fields.flatMap fieldLine ++ crlf ++ rest) =
      some (fields.map fun f => (Text.toAsciiLowercase f.1,trim f.2),rest) := by
  induction fields with
  | nil =>
    have empty : Clean [] := by simp [Clean]
    have blank : readLine (crlf ++ rest) = some ([],rest) := readLine_line empty rest
    rw [List.flatMap_nil,List.nil_append,readFields]
    split
    next none_ => rw [blank] at none_; contradiction
    next line after some_ =>
      obtain ⟨rfl,rfl⟩ := Prod.mk.inj (Option.some.inj (blank.symm.trans some_))
      simp
  | cons f fields ih =>
    obtain ⟨⟨token,valid⟩,good⟩ := List.forall_mem_cons.mp good
    have first : readLine ((f :: fields).flatMap fieldLine ++ crlf ++ rest) =
        some (ascii f.1 ++ [58,32] ++ f.2,fields.flatMap fieldLine ++ crlf ++ rest) := by
      rw [← readLine_line (fieldLine_clean token valid)]
      simp [fieldLine]
    rw [readFields]
    split
    next none_ => rw [first] at none_; contradiction
    next line after some_ =>
      obtain ⟨rfl,rfl⟩ := Prod.mk.inj (Option.some.inj (first.symm.trans some_))
      rw [if_neg (by simp),readField_line token,ih good]
      rfl

end Reading

section Writing

theorem upgradeField_name (field : String × List UInt8) :
    ∀ f ∈ upgradeField field, Text.toAsciiLowercase f.1 = Text.toAsciiLowercase field.1 := by
  unfold upgradeField
  dsimp only
  split
  · simp
  · split
    next own =>
      split
      · split
        · simp
        · intro f member
          obtain rfl := List.mem_singleton.mp member
          rw [own]
          exact (by decide : Text.toAsciiLowercase "Cookie" = "cookie")
      · simp
    · simp

theorem upgradeField_elsewhere (field : String × List UInt8) (other : Text.toAsciiLowercase field.1 ≠ name) :
    sentValues (upgradeField field) name = [] := by
  rw [sentValues,List.map_eq_nil_iff,List.filter_eq_nil_iff]
  intro f member same
  rw [upgradeField_name field f member] at same
  exact other (of_decide_eq_true same)

/-- Both ways of a request to the backend write the same values, but for the framing. -/
theorem upgradeField_forwards (field : String × List UInt8) (other : name ≠ "content-length") :
    sentValues (upgradeField field) name = sentValues (forwardField field) name := by
  by_cases own : Text.toAsciiLowercase field.1 = name
  · subst own
    by_cases cookie : Text.toAsciiLowercase field.1 = "cookie"
    · simp only [upgradeField,forwardField,cookie]
      cases toStr field.2 with
      | none => rfl
      | some cookies =>
        by_cases none_ : cleaned cookies = []
        · simp [none_]
        · have lower : Text.toAsciiLowercase "Cookie" = "cookie" := by decide
          simp [none_,sentValues,cookie,lower]
    · by_cases framing : Text.toAsciiLowercase field.1 = "host" ∨ Text.toAsciiLowercase field.1 = "connection" ∨
          Text.toAsciiLowercase field.1 = "transfer-encoding"
      · rw [upgradeField,forwardField]
        rcases framing with own | own | own <;> simp [own,dropped]
      · obtain ⟨host,connection,encoding⟩ := not_or.mp framing |>.imp id not_or.mp
        simp [upgradeField,forwardField,dropped,host,connection,encoding,other,cookie]
  · rw [upgradeField_elsewhere field own,forwardField_elsewhere field own]

theorem upgradeField_dropped (field : String × List UInt8)
    (framing : name = "host" ∨ name = "connection" ∨ name = "transfer-encoding" ∨ name = "content-length") :
    sentValues (upgradeField field) name = [] := by
  by_cases own : Text.toAsciiLowercase field.1 = name
  · subst own
    simp only [upgradeField,if_pos framing]
    rfl
  · exact upgradeField_elsewhere field own

theorem mem_intersperse {sep : α} (xs : List α) (member : x ∈ xs.intersperse sep) : x = sep ∨ x ∈ xs := by
  induction xs with
  | nil => simp at member
  | cons y xs ih =>
    cases xs with
    | nil => exact .inr member
    | cons z more =>
      rw [List.intersperse_cons_cons] at member
      rcases List.mem_cons.mp member with rfl | member
      · exact .inr List.mem_cons_self
      · rcases List.mem_cons.mp member with same | later
        · exact .inl same
        · exact (ih later).imp_right (List.mem_cons_of_mem _)

theorem mem_intercalate {sep : List α} {parts : List (List α)} (member : b ∈ List.intercalate sep parts) :
    b ∈ sep ∨ ∃ part ∈ parts, b ∈ part := by
  obtain ⟨part,inside,here⟩ := List.mem_flatten.mp member
  rcases mem_intersperse parts inside with rfl | own
  · exact .inl here
  · exact .inr ⟨part,own,here⟩

theorem part_subset (value : List UInt8) : ∀ part ∈ cookieParts value, part ⊆ value := by
  unfold cookieParts
  induction value with
  | nil => simp
  | cons b value ih =>
    rw [List.splitOn_cons_eq_if_modifyHead]
    split
    next =>
      refine List.forall_mem_cons.mpr ⟨by simp,fun part member => ?_⟩
      exact List.subset_cons_of_subset _ (ih part member)
    next other =>
      obtain ⟨first,rest,shown⟩ := List.exists_cons_of_ne_nil (List.splitOn_ne_nil (59 : UInt8) value)
      rw [shown] at ih ⊢
      obtain ⟨front,others⟩ := List.forall_mem_cons.mp ih
      rw [List.modifyHead_cons]
      refine List.forall_mem_cons.mpr ⟨List.cons_subset_cons _ front,fun part member => ?_⟩
      exact List.subset_cons_of_subset _ (others part member)

theorem visible_valid (visible : isVisible b = true) : isValid b = true := by
  rcases Bool.or_eq_true_iff.mp visible with range | tab
  · obtain ⟨low,high⟩ := Bool.and_eq_true_iff.mp range
    have solid : b ≠ 127 := by
      rintro rfl
      exact absurd high (by decide)
    simp [isValid,of_decide_eq_true low,solid]
  · simp [isValid,of_decide_eq_true tab]

/-- What is written of a field can stand in a header map. -/
theorem upgradeField_good (field : String × List UInt8) (token : IsToken field.1) (valid : field.2.all isValid = true) :
    ∀ f ∈ upgradeField field, IsToken f.1 ∧ f.2.all isValid = true := by
  unfold upgradeField
  dsimp only
  split
  · simp
  · split
    · split
      next cookies text =>
        split
        · simp
        · intro f member
          obtain rfl := List.mem_singleton.mp member
          have name : IsToken "Cookie" := ⟨by decide,by decide⟩
          refine ⟨name,List.all_eq_true.mpr fun b inside => ?_⟩
          rcases mem_intercalate inside with mark | ⟨part,kept,here⟩
          · obtain rfl := List.mem_singleton.mp mark
            decide
          · obtain ⟨visible,rfl⟩ := Option.ite_some_none_eq_some.mp text
            have own := part_subset field.2 part (List.mem_of_mem_filter kept) here
            exact visible_valid (List.all_eq_true.mp visible b own)
      · simp
    · intro f member
      obtain rfl := List.mem_singleton.mp member
      exact ⟨token,valid⟩

/-- The digits of a number, as they stand in a field. -/
theorem length_digits (n : Nat) : (ascii (String.ofList (Text.display n))).all isValid = true ∧
    trim (ascii (String.ofList (Text.display n))) = ascii (String.ofList (Text.display n)) ∧
    (ascii (String.ofList (Text.display n))).map (fun b => Char.ofNat b.toNat) = Text.display n := by
  have digit : ∀ b ∈ ascii (String.ofList (Text.display n)), 48 ≤ b.toNat ∧ b.toNat ≤ 57 := by
    intro b member
    obtain ⟨c,inside,rfl⟩ := List.mem_map.mp member
    have range := Char.isDigit_iff_toNat.mp (Text.isDigit_of_mem_display (String.toList_ofList ▸ inside))
    have low : 48 ≤ c.toNat := range.1
    have high : c.toNat ≤ 57 := range.2
    rw [UInt8.toNat_ofNat',Nat.mod_eq_of_lt (by omega)]
    exact ⟨low,high⟩
  refine ⟨List.all_eq_true.mpr fun b member => ?_,trim_of_ends fun b ends => ?_,?_⟩
  · have range := digit b member
    have low : 32 ≤ b := UInt8.le_iff_toNat_le.mpr (by rw [show (32 : UInt8).toNat = 32 from rfl]; omega)
    have other : b ≠ 127 := by
      rintro rfl
      exact absurd range (by decide)
    simp [isValid,low,other]
  · have range := digit b (ends.elim List.mem_of_head? List.mem_of_getLast?)
    have other : b ≠ 32 ∧ b ≠ 9 := by constructor <;> rintro rfl <;> exact absurd range (by decide)
    simp [isBlank,other]
  · rw [map_ascii,String.toList_ofList]
    intro c member
    have range := Char.isDigit_iff_toNat.mp (Text.isDigit_of_mem_display (String.toList_ofList ▸ member))
    have high : c.toNat ≤ 57 := range.2
    omega

/-- What hyper and the URI of a request promise about it, and a host that can be dialled. -/
structure Wellformed (req : Request) (uri : Option String) (hostPort : String) : Prop where
  method : IsToken req.method.asStr
  target : ∀ b ∈ bytesOf (pathAndQuery uri), 33 ≤ b.toNat
  fields : ∀ f ∈ req.headers.fields, headerName f.1 = some f.1 ∧ f.2.all isValid = true
  host : ∀ b ∈ bytesOf hostPort, 33 ≤ b.toNat ∧ b ≠ 127

variable {req : Request} {uri : Option String} {hostPort : String}

theorem Wellformed.good (wellformed : Wellformed req uri hostPort) (body : List UInt8) :
    ∀ f ∈ upgradeFields req hostPort body, IsToken f.1 ∧ f.2.all isValid = true := by
  intro f member
  rcases List.mem_cons.mp member with rfl | member
  · have name : IsToken "Host" := ⟨by decide,by decide⟩
    refine ⟨name,List.all_eq_true.mpr fun b inside => ?_⟩
    obtain ⟨low,other⟩ := wellformed.host b inside
    have low : 32 ≤ b := UInt8.le_iff_toNat_le.mpr (by rw [show (32 : UInt8).toNat = 32 from rfl]; omega)
    simp [isValid,low,other]
  · rcases List.mem_append.mp member with member | last
    · rcases List.mem_append.mp member with field | length
      · obtain ⟨own,inside,written⟩ := List.mem_flatMap.mp field
        obtain ⟨name,valid⟩ := wellformed.fields own inside
        exact upgradeField_good own (Option.ite_some_none_eq_some.mp name).1 valid f written
      · unfold lengthField at length
        split at length
        · contradiction
        · obtain rfl := List.mem_singleton.mp length
          have name : IsToken "Content-Length" := ⟨by decide,by decide⟩
          exact ⟨name,(length_digits _).1⟩
    · obtain rfl := List.mem_singleton.mp last
      have name : IsToken "Connection" ∧ (ascii "Upgrade").all isValid = true := ⟨⟨by decide,by decide⟩,by decide⟩
      exact name

def readBack (fields : List (String × List UInt8)) : HeaderMap :=
  ⟨fields.map fun f => (Text.toAsciiLowercase f.1,trim f.2)⟩

theorem readBack_getAll (fields : List (String × List UInt8)) (name : String) :
    (readBack fields).getAll name = (sentValues fields name).map trim := by
  rw [HeaderMap.getAll,readBack,sentValues,List.filter_map,List.map_map,List.map_map]
  rfl

/-- Under each name: the door's own fields, and what it passes on. -/
theorem sentValues_upgradeFields (req : Request) (hostPort : String) (body : List UInt8) (name : String) :
    sentValues (upgradeFields req hostPort body) name =
      (if "host" = name then [bytesOf hostPort] else []) ++
      (req.headers.fields.flatMap fun field => sentValues (upgradeField field) name) ++
      (if "content-length" = name ∧ body ≠ [] then [ascii (String.ofList (Text.display body.length))] else []) ++
      (if "connection" = name then [ascii "Upgrade"] else []) := by
  have split (front back : List (String × List UInt8)) : sentValues (front ++ back) name =
      sentValues front name ++ sentValues back name := by simp [sentValues]
  have host := sentValues_singleton ("Host",bytesOf hostPort) name
  have last := sentValues_singleton ("Connection",ascii "Upgrade") name
  have lower : Text.toAsciiLowercase "Host" = "host" ∧ Text.toAsciiLowercase "Connection" = "connection" ∧
      Text.toAsciiLowercase "Content-Length" = "content-length" := by decide
  rw [lower.1] at host
  rw [lower.2.1] at last
  rw [upgradeFields,← List.singleton_append,split,split,split,sentValues_flatMap,host,last]
  congr 2
  unfold lengthField
  by_cases none_ : body = []
  · simp [none_,sentValues]
  · rw [if_neg none_,sentValues_singleton,lower.2.2]
    simp [none_]

theorem startLine (wellformed : Wellformed req uri hostPort) (rest : List UInt8) :
    readLine (ascii req.method.asStr ++ [32] ++ bytesOf (pathAndQuery uri) ++ ascii " HTTP/1.1" ++ crlf ++ rest) =
      some (ascii req.method.asStr ++ [32] ++ bytesOf (pathAndQuery uri) ++ ascii " HTTP/1.1",rest) ∧
    (ascii req.method.asStr ++ [32] ++ bytesOf (pathAndQuery uri) ++ ascii " HTTP/1.1").splitOn 32 =
      [ascii req.method.asStr,bytesOf (pathAndQuery uri),ascii "HTTP/1.1"] := by
  have method : ∀ b ∈ ascii req.method.asStr, 33 ≤ b.toNat := fun b member => (token_bytes wellformed.method member).1
  have high (b : UInt8) (low : 33 ≤ b.toNat) : b ≠ 32 ∧ b ≠ 10 ∧ b ≠ 13 := by
    refine ⟨?_,?_,?_⟩ <;> rintro rfl <;> exact absurd low (by decide)
  constructor
  · apply readLine_line
    intro b member
    rw [List.mem_append,List.mem_append,List.mem_append] at member
    rcases member with ((own | space) | own) | last
    · exact (high b (method b own)).2
    · obtain rfl := List.mem_singleton.mp space
      decide
    · exact (high b (wellformed.target b own)).2
    · exact (by decide +kernel : ∀ b ∈ ascii " HTTP/1.1", b ≠ 10 ∧ b ≠ 13) b last
  · have whole : ascii req.method.asStr ++ [32] ++ bytesOf (pathAndQuery uri) ++ ascii " HTTP/1.1" =
        List.intercalate [32] [ascii req.method.asStr,bytesOf (pathAndQuery uri),ascii "HTTP/1.1"] := by
      have space : ascii " HTTP/1.1" = 32 :: ascii "HTTP/1.1" := by decide
      simp [List.intercalate,space]
    rw [whole]
    apply List.splitOn_intercalate
    · intro part member
      simp only [List.mem_cons,List.not_mem_nil,or_false] at member
      rcases member with rfl | rfl | rfl
      · exact fun inside => (high 32 (method 32 inside)).1 rfl
      · exact fun inside => (high 32 (wellformed.target 32 inside)).1 rfl
      · decide
    · simp

/-- What the backend reads is the browser's request: one request and no byte more, with one host,
one connection field and the length of its body, and otherwise the values that an ordinary request
would carry. -/
theorem upgrade_request_exact (req : Request) (uri : Option String) (backend : String) (body wire : List UInt8)
    (sent : upgradeRequest req uri backend body = some wire)
    (wellformed : ∀ hostPort, backendHostPort backend = some hostPort → Wellformed req uri hostPort) :
    ∃ hostPort msg, backendHostPort backend = some hostPort ∧ readMessage wire = some (msg,[]) ∧
      msg.method = ascii req.method.asStr ∧ msg.target = bytesOf (pathAndQuery uri) ∧ msg.body = body ∧
      msg.headers.getAll "host" = [bytesOf hostPort] ∧ msg.headers.getAll "connection" = [ascii "Upgrade"] ∧
      msg.headers.getAll "transfer-encoding" = [] ∧
      msg.headers.getAll "content-length" =
        (if body = [] then [] else [ascii (String.ofList (Text.display body.length))]) ∧
      ∀ name, name ≠ "host" → name ≠ "connection" → name ≠ "content-length" →
        msg.headers.getAll name = (sentValues (req.headers.fields.flatMap forwardField) name).map trim := by
  obtain ⟨hostPort,dialled,made⟩ := Option.bind_eq_some_iff.mp sent
  obtain ⟨small,rfl⟩ := Option.ite_some_none_eq_some.mp made
  have wellformed := wellformed hostPort dialled
  have values := sentValues_upgradeFields req hostPort body
  have framing (name : String) (own : name = "host" ∨ name = "connection" ∨ name = "transfer-encoding" ∨ name = "content-length") :
      (req.headers.fields.flatMap fun field => sentValues (upgradeField field) name) = [] :=
    List.flatMap_eq_nil_iff.mpr fun field _ => upgradeField_dropped field own
  let headers := readBack (upgradeFields req hostPort body)
  have host : headers.getAll "host" = [bytesOf hostPort] := by
    have solid : trim (bytesOf hostPort) = bytesOf hostPort := by
      apply trim_of_ends
      intro b ends
      have low := (wellformed.host b (ends.elim List.mem_of_head? List.mem_of_getLast?)).1
      have other : b ≠ 32 ∧ b ≠ 9 := by constructor <;> rintro rfl <;> exact absurd low (by decide)
      simp [isBlank,other]
    rw [readBack_getAll,values,framing _ (by simp)]
    simp [solid]
  have connection : headers.getAll "connection" = [ascii "Upgrade"] := by
    rw [readBack_getAll,values,framing _ (by simp)]
    exact (by decide : [trim (ascii "Upgrade")] = [ascii "Upgrade"])
  have encoding : headers.getAll "transfer-encoding" = [] := by
    rw [readBack_getAll,values,framing _ (by simp)]
    rfl
  have length : headers.getAll "content-length" =
      if body = [] then [] else [ascii (String.ofList (Text.display body.length))] := by
    rw [readBack_getAll,values,framing _ (by simp)]
    by_cases none_ : body = []
    · simp [none_]
    · simp [none_,(length_digits _).2.1]
  have long : bodyLength headers = some body.length := by
    rw [bodyLength,encoding,length]
    by_cases none_ : body = []
    · simp [none_]
    · have bound : body.length < 2^64 := by
        have cap : maxProxyBodyBytes = 1048576 := rfl
        omega
      simp only [if_neg none_,(length_digits _).2.2]
      exact Text.parseUnsigned_display bound
  obtain ⟨first,split⟩ := startLine wellformed ((upgradeFields req hostPort body).flatMap fieldLine ++ crlf ++ body)
  have fields := readFields_lines _ (wellformed.good body) body
  refine ⟨hostPort,⟨ascii req.method.asStr,bytesOf (pathAndQuery uri),headers,body⟩,dialled,?_,rfl,rfl,rfl,host,connection,
    encoding,length,?_⟩
  · have whole : upgradeBytes req uri hostPort body = ascii req.method.asStr ++ [32] ++ bytesOf (pathAndQuery uri) ++
        ascii " HTTP/1.1" ++ crlf ++ ((upgradeFields req hostPort body).flatMap fieldLine ++ crlf ++ body) := by
      simp [upgradeBytes]
    rw [readMessage,whole,first]
    simp only [Option.bind_eq_bind,Option.bind_some,split,if_true,fields]
    rw [show bodyLength ⟨_⟩ = some body.length from long]
    simp [headers,readBack]
  · intro name notHost notConnection notLength
    rw [readBack_getAll,values,if_neg (Ne.symm notHost),if_neg (Ne.symm notConnection),
      if_neg (by simp [Ne.symm notLength]),sentValues_flatMap]
    have same : (req.headers.fields.flatMap fun field => sentValues (upgradeField field) name) =
        req.headers.fields.flatMap fun field => sentValues (forwardField field) name :=
      List.flatMap_congr fun field _ => upgradeField_forwards field notLength
    simp [same]

def shakes : Request :=
  ⟨.get,⟨[("host",ascii "example.org"),("upgrade",ascii "websocket"),("connection",ascii "keep-alive, Upgrade"),
    ("content-length",ascii "7"),("cookie",cookies)]⟩,true⟩

theorem upgrade_request_exact_shakes : ∃ wire hostPort msg,
    upgradeRequest shakes (some "/ws?x=1") "http://127.0.0.1:3000/app" [1,2] = some wire ∧
    backendHostPort "http://127.0.0.1:3000/app" = some hostPort ∧ readMessage wire = some (msg,[]) ∧ msg.body = [1,2] ∧
    msg.headers.getAll "content-length" = [ascii "2"] ∧ msg.headers.getAll "cookie" = [ascii "a=1; b=2"] := by
  have dialled : backendHostPort "http://127.0.0.1:3000/app" = some "127.0.0.1:3000" := by decide +kernel
  have sent : upgradeRequest shakes (some "/ws?x=1") "http://127.0.0.1:3000/app" [1,2] =
      some (upgradeBytes shakes (some "/ws?x=1") "127.0.0.1:3000" [1,2]) := by
    rw [upgradeRequest,dialled]
    rfl
  have fields : ∀ f ∈ shakes.headers.fields, headerName f.1 = some f.1 ∧ f.2.all isValid = true := by decide +kernel
  have target : ∀ b ∈ bytesOf (pathAndQuery (some "/ws?x=1")), 33 ≤ b.toNat := by decide +kernel
  have host : ∀ b ∈ bytesOf "127.0.0.1:3000", 33 ≤ b.toNat ∧ b ≠ 127 := by decide +kernel
  have method : IsToken shakes.method.asStr := ⟨by decide,by decide +kernel⟩
  obtain ⟨hostPort,msg,given,read,_,_,body,_,_,_,length,others⟩ := upgrade_request_exact shakes (some "/ws?x=1")
    "http://127.0.0.1:3000/app" [1,2] _ sent fun hostPort is =>
      Option.some.inj (dialled.symm.trans is) ▸ ⟨method,target,fields,host⟩
  refine ⟨_,hostPort,msg,sent,given,read,body,length.trans (by decide +kernel),?_⟩
  rw [others "cookie" (by decide) (by decide) (by decide)]
  decide +kernel

end Writing

end Malkuth.ServeDoor
