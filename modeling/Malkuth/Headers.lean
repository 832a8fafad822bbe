import Malkuth.Text
import Mathlib.Data.List.Basic
import Mathlib.Data.List.TakeWhile

/-! HTTP header values and maps, as the `http` crate has them. A `str` is its bytes; the text
functions here are those of `str` on what `to_str` lets through. -/
namespace Malkuth.Headers

def ascii (s : String) : List UInt8 := s.toList.map fun c => UInt8.ofNat c.toNat

/-- `HeaderValue::to_str`: visible ASCII, spaces and tabs. -/
def isVisible (b : UInt8) : Bool := (32 ≤ b && b < 127) || b = 9

def toStr (value : List UInt8) : Option (List UInt8) := if value.all isVisible then some value else none

/-- The bytes of `HeaderValue::from_bytes`; those from 128 on are opaque. -/
def isValid (b : UInt8) : Bool := (32 ≤ b && b != 127) || b = 9

def isBlank (b : UInt8) : Bool := b = 32 || b = 9

def trim (text : List UInt8) : List UInt8 :=
  ((text.dropWhile isBlank).reverse.dropWhile isBlank).reverse

def toAsciiLowercase (text : List UInt8) : List UInt8 :=
  text.map fun b => if 65 ≤ b ∧ b ≤ 90 then b + 32 else b

def withoutStart (start text : List UInt8) : Option (List UInt8) :=
  if start.isPrefixOf text then some (text.drop start.length) else none

def contains (text piece : List UInt8) : Bool := text.tails.any piece.isPrefixOf

def isTchar (c : Char) : Bool := c.isAlphanum || "!#$%&'*+-.^_`|~".toList.contains c

/-- `HeaderName::from_bytes`, which puts the name in lower case. -/
def headerName (name : String) : Option String :=
  if name ≠ "" ∧ name.toList.all isTchar then some (Text.toAsciiLowercase name) else none

/-- The names are in lower case. -/
structure HeaderMap where
  fields : List (String × List UInt8)
  deriving DecidableEq

namespace HeaderMap

def empty : HeaderMap := ⟨[]⟩

def get (map : HeaderMap) (name : String) : Option (List UInt8) :=
  (map.fields.find? fun h => h.1 = name).map Prod.snd

def getAll (map : HeaderMap) (name : String) : List (List UInt8) :=
  (map.fields.filter fun h => h.1 = name).map Prod.snd

def append (map : HeaderMap) (name : String) (value : List UInt8) : HeaderMap := ⟨map.fields ++ [(name,value)]⟩

def insert (map : HeaderMap) (name : String) (value : List UInt8) : HeaderMap :=
  append ⟨map.fields.filter fun h => h.1 ≠ name⟩ name value

@[simp] theorem getAll_empty (name : String) : empty.getAll name = [] := rfl

@[simp] theorem getAll_append (map : HeaderMap) (name other : String) (value : List UInt8) :
    (map.append name value).getAll other = map.getAll other ++ if name = other then [value] else [] := by
  by_cases same : name = other <;> simp [getAll,append,same]

theorem getAll_insert_other (map : HeaderMap) (value : List UInt8) (different : name ≠ other) :
    (map.insert name value).getAll other = map.getAll other := by
  rw [insert,getAll_append,if_neg different,List.append_nil,getAll,getAll,List.filter_filter]
  congr 1
  refine List.filter_congr fun h _ => ?_
  by_cases here : h.1 = other
  · simp [here,Ne.symm different]
  · simp [here]

theorem getAll_insert_same (map : HeaderMap) (name : String) (value : List UInt8) :
    (map.insert name value).getAll name = [value] := by
  have gone : (HeaderMap.mk (map.fields.filter fun h => h.1 ≠ name)).getAll name = [] := by simp [getAll]
  rw [insert,getAll_append,gone,if_pos rfl,List.nil_append]

@[simp] theorem get_append_other (map : HeaderMap) (value : List UInt8) (different : name ≠ other) :
    (map.append name value).get other = map.get other := by
  simp [get,append,different]

@[simp] theorem get_append_new (map : HeaderMap) (value : List UInt8) (absent : ∀ h ∈ map.fields, h.1 ≠ name) :
    (map.append name value).get name = some value := by
  have none_ : map.fields.find? (fun h => h.1 = name) = none := by simpa using absent
  simp [get,append,none_]

end HeaderMap

section Trimming

theorem trim_of_ends (solid : ∀ b, text.head? = some b ∨ text.getLast? = some b → isBlank b = false) :
    trim text = text := by
  have front : text.dropWhile isBlank = text := by
    cases text with
    | nil => rfl
    | cons b text => simp [solid b (.inl rfl)]
  have back : text.reverse.dropWhile isBlank = text.reverse := by
    cases shown : text.reverse with
    | nil => rfl
    | cons b rest =>
      have last : text.getLast? = some b := by simp [List.getLast?_eq_head?_reverse,shown]
      simp [solid b (.inr last)]
  rw [trim,front,back,List.reverse_reverse]

theorem dropWhile_head (text : List UInt8) (first : (text.dropWhile isBlank).head? = some b) : isBlank b = false := by
  have solid := List.head?_dropWhile_not isBlank text
  rwa [first] at solid

theorem trim_trim (text : List UInt8) : trim (trim text) = trim text := by
  refine trim_of_ends fun b ends => ?_
  rcases ends with first | last
  · -- what is left starts where the trimmed front starts
    have start : trim text <+: text.dropWhile isBlank := by
      rw [trim,← List.reverse_suffix,List.reverse_reverse]
      exact List.dropWhile_suffix _
    obtain ⟨rest,cut⟩ := start
    refine dropWhile_head text ?_
    rw [← cut,List.head?_append,first]
    rfl
  · rw [trim,List.getLast?_reverse] at last
    exact dropWhile_head _ last

theorem trim_subset (text : List UInt8) (member : b ∈ trim text) : b ∈ text := by
  have kept := (List.dropWhile_suffix isBlank).subset (List.mem_reverse.mp member)
  exact (List.dropWhile_suffix isBlank).subset (List.mem_reverse.mp kept)

/-- Blanks in front go away, and nothing else when what follows them has none at its ends. -/
theorem trim_blank (text : List UInt8) : trim (32 :: text) = trim text := by
  simp [trim,isBlank]

end Trimming

end Malkuth.Headers
