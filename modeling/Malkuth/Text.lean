import Malkuth.Lines
import Mathlib.Algebra.GroupWithZero.Nat
import Mathlib.Data.List.DropRight
import Mathlib.Data.List.TakeWhile

/-! The functions of Rust's `str` that the modelled code applies to its arguments and files. -/
namespace Malkuth.Text

/-- `char::is_whitespace`: the Unicode `White_Space` property. -/
def isWhitespace (c : Char) : Bool :=
  let n := c.toNat
  (9 ≤ n && n ≤ 13) || n == 0x20 || n == 0x85 || n == 0xA0 || n == 0x1680 ||
    (0x2000 ≤ n && n ≤ 0x200A) || n == 0x2028 || n == 0x2029 || n == 0x202F ||
    n == 0x205F || n == 0x3000

def trimList (cs : List Char) : List Char :=
  ((cs.dropWhile isWhitespace).reverse.dropWhile isWhitespace).reverse

def trimEnd (cs : List Char) : List Char := (cs.reverse.dropWhile isWhitespace).reverse

def trim (s : String) : String := String.ofList (trimList s.toList)

/-- `str::to_ascii_lowercase`: only `A`-`Z` change. -/
def toAsciiLowercase (s : String) : String :=
  String.ofList (s.toList.map fun c => if 'A' ≤ c ∧ c ≤ 'Z' then Char.ofNat (c.toNat + 32) else c)

/-- `{:?}` of a `str`, for text whose characters beyond ASCII are printable. -/
def debugChar (c : Char) : String :=
  if c = '\t' then "\\t"
  else if c = '\n' then "\\n"
  else if c = '\r' then "\\r"
  else if c.toNat = 0 then "\\0"
  else if c = '"' ∨ c = '\\' then String.ofList ['\\',c]
  else if c.toNat < 32 ∨ c.toNat = 127 then
    "\\u\x7b" ++ String.ofList (Nat.toDigits 16 c.toNat) ++ "\x7d"
  else String.singleton c

def debug (s : String) : String := "\"" ++ String.join (s.toList.map debugChar) ++ "\""

/-- A line without its line feed, and without a carriage return before that. -/
def chomp (line : List Char) : List Char :=
  if line.dropLast.getLast? = some '\r' then line.dropLast.dropLast else line.dropLast

/-- `str::lines`: what follows the last line feed is a line if it is not empty. -/
def lines (cs : List Char) : List (List Char) :=
  let (complete,rest) := Lines.split '\n' cs
  complete.map chomp ++ if rest = [] then [] else [rest]

def splitOnce (sep : Char) : List Char → Option (List Char × List Char)
  | [] => none
  | c :: cs => if c = sep then some ([],cs) else (splitOnce sep cs).map fun (l,r) => (c :: l,r)

def digits (cs : List Char) : Option Nat :=
  if cs ≠ [] ∧ cs.all Char.isDigit then some (Nat.ofDigitChars 10 cs 0) else none

/-- `str::parse` to an unsigned type with values below `limit`: a plus sign may stand first. -/
def parseUnsigned (limit : Nat) (cs : List Char) : Option Nat :=
  (digits (match cs with | '+' :: rest => rest | _ => cs)).filter (· < limit)

def parseI32 (cs : List Char) : Option Int :=
  match cs with
  | '-' :: rest => ((digits rest).filter (· ≤ 2^31)).map fun n => -(n : Int)
  | _ => (parseUnsigned (2^31) cs).map Int.ofNat

def display (n : Nat) : List Char := Nat.toDigits 10 n

theorem display_ne_nil (n : Nat) : display n ≠ [] := Nat.toDigits_ne_nil

theorem isDigit_of_mem_display (member : c ∈ display n) : c.isDigit = true :=
  Nat.isDigit_of_mem_toDigits (by decide) (by decide) member

theorem digits_display (n : Nat) : digits (display n) = some n := by
  have all : (display n).all Char.isDigit = true := List.all_eq_true.mpr fun _ => isDigit_of_mem_display
  rw [digits,if_pos ⟨display_ne_nil n,all⟩,display,Nat.ofDigitChars_ten_toDigits]

/-- A printed number starts with a digit, so with no sign. -/
theorem display_head (n : Nat) : ∃ c cs, display n = c :: cs ∧ c.isDigit = true := by
  cases shown : display n with
  | nil => exact absurd shown (display_ne_nil n)
  | cons c cs => exact ⟨c,cs,rfl,isDigit_of_mem_display (n := n) (by simp [shown])⟩

theorem parseUnsigned_display (bound : n < limit) : parseUnsigned limit (display n) = some n := by
  obtain ⟨c,cs,shown,digit⟩ := display_head n
  have plain : (match display n with | '+' :: rest => rest | _ => display n) = display n := by
    rw [shown]
    split
    next eq =>
      obtain ⟨rfl,_⟩ := List.cons.inj eq
      contradiction
    · rfl
  rw [parseUnsigned.eq_def,plain,digits_display,Option.filter_some,decide_eq_true bound,if_pos rfl]

theorem parseI32_display (bound : n < 2^31) : parseI32 (display n) = some (n : Int) := by
  obtain ⟨c,cs,shown,digit⟩ := display_head n
  have parsed := parseUnsigned_display bound
  rw [shown] at parsed ⊢
  rw [parseI32.eq_def]
  split
  next eq =>
    obtain ⟨rfl,_⟩ := List.cons.inj eq
    contradiction
  · rw [parsed]
    rfl

theorem lines_line (content rest : List Char) (clean : '\n' ∉ content) :
    lines (content ++ '\n' :: rest) = chomp (content ++ ['\n']) :: lines rest := by
  simp [lines,Lines.split_line '\n' content rest clean]

theorem lines_ne_nil (cs : List Char) (some_ : cs ≠ []) : lines cs ≠ [] := by
  rcases Lines.exists_line '\n' cs with unfinished | ⟨content,rest,rfl,clean⟩
  · simp [lines,Lines.split_unfinished '\n' cs unfinished,some_]
  · simp [lines_line content rest clean]

/-- A line feed with something after it makes two lines at least. -/
theorem two_lines (front back : List Char) (some_ : back ≠ []) :
    ∃ first second more, lines (front ++ '\n' :: back) = first :: second :: more := by
  have cut : ∃ content rest, front ++ '\n' :: back = content ++ '\n' :: rest ∧ '\n' ∉ content ∧ rest ≠ [] := by
    rcases Lines.exists_line '\n' front with unfinished | ⟨content,rest,rfl,clean⟩
    · exact ⟨front,back,rfl,unfinished,some_⟩
    · exact ⟨content,rest ++ '\n' :: back,by simp,clean,by simp⟩
  obtain ⟨content,rest,eq,clean,more⟩ := cut
  rw [eq,lines_line content rest clean]
  obtain ⟨second,others,shown⟩ := List.exists_cons_of_ne_nil (lines_ne_nil rest more)
  exact ⟨_,second,others,by rw [shown]⟩

/-- Text is cut into lines one after the other. -/
theorem lines_induction {P : List Char → Prop} (cs : List Char) (last : ∀ cs, '\n' ∉ cs → P cs)
    (line : ∀ content rest, '\n' ∉ content → P rest → P (content ++ '\n' :: rest)) : P cs := by
  rcases Lines.exists_line '\n' cs with unfinished | ⟨content,rest,rfl,clean⟩
  · exact last cs unfinished
  · exact line content rest clean (lines_induction rest last line)
termination_by cs.length
decreasing_by
  rename_i cut _
  simp [cut]
  omega

theorem lines_last (cs : List Char) (clean : '\n' ∉ cs) (some_ : cs ≠ []) : lines cs = [cs] := by
  simp [lines,Lines.split_unfinished '\n' cs clean,some_]

theorem chomp_subset (content : List Char) : chomp (content ++ ['\n']) ⊆ content := by
  intro c member
  unfold chomp at member
  rw [List.dropLast_concat] at member
  split at member
  · exact List.dropLast_subset _ member
  · exact member

/-- No line has a line feed in it. -/
theorem clean_of_mem_lines (cs : List Char) : ∀ l ∈ lines cs, '\n' ∉ l := by
  induction cs using lines_induction with
  | last cs clean =>
    intro l member
    by_cases some_ : cs = []
    · simp [some_,lines,Lines.split] at member
    · rw [lines_last cs clean some_,List.mem_singleton] at member
      exact member ▸ clean
  | line content rest clean ih =>
    intro l member
    rw [lines_line content rest clean] at member
    rcases List.mem_cons.mp member with rfl | later
    · exact fun inside => clean (chomp_subset content inside)
    · exact ih l later

/-- There is at most one line more than there are line feeds. -/
theorem length_lines (cs : List Char) : (lines cs).length ≤ cs.count '\n' + 1 := by
  induction cs using lines_induction with
  | last cs clean =>
    by_cases some_ : cs = []
    · simp [some_,lines,Lines.split]
    · simp [lines_last cs clean some_]
  | line content rest clean ih =>
    rw [lines_line content rest clean,List.count_append,List.count_cons_self]
    simp only [List.length_cons]
    omega

theorem trimEnd_eq_self_iff (cs : List Char) :
    trimEnd cs = cs ↔ ∀ c, cs.getLast? = some c → isWhitespace c = false := by
  have same : trimEnd cs = cs ↔ ∀ some_ : cs ≠ [], ¬ isWhitespace (cs.getLast some_) = true := List.rdropWhile_eq_self_iff
  rw [same]
  constructor
  · intro solid c last
    obtain ⟨some_,rfl⟩ := List.mem_getLast?_eq_getLast last
    exact Bool.eq_false_iff.mpr (solid some_)
  · intro solid some_
    exact Bool.eq_false_iff.mp (solid _ (List.getLast?_eq_some_getLast some_))

theorem trimEnd_blank (front cs : List Char) (blank : ∀ c ∈ cs, isWhitespace c = true) :
    trimEnd (front ++ cs) = trimEnd front := by
  unfold trimEnd
  rw [List.reverse_append,List.dropWhile_append_of_pos (by simpa using blank)]

/-- Text that starts with another character is trimmed at its end. -/
theorem trimList_cons (c : Char) (cs : List Char) (first : isWhitespace c = false) : trimList (c :: cs) = trimEnd (c :: cs) := by
  simp [trimList,trimEnd,first]

/-- And there only inside its last part, if that is not blank. -/
theorem trimEnd_append (front back : List Char) (solid : ∃ d ∈ back, isWhitespace d = false) :
    trimEnd back ≠ [] ∧ trimEnd (front ++ back) = front ++ trimEnd back := by
  have some_ : back.reverse.dropWhile isWhitespace ≠ [] := by
    obtain ⟨d,member,solid⟩ := solid
    rw [Ne,List.dropWhile_eq_nil_iff]
    intro all
    simp [all d (List.mem_reverse.mpr member)] at solid
  refine ⟨by simpa [trimEnd] using some_,?_⟩
  unfold trimEnd
  rw [List.reverse_append,List.dropWhile_append,if_neg (by simpa using some_)]
  simp

theorem chomp_line (content : List Char) : chomp (content ++ ['\n']) = content ↔ content.getLast? ≠ some '\r' := by
  rw [chomp,List.dropLast_concat]
  constructor
  · intro whole last
    rw [if_pos last] at whole
    have shorter := congrArg List.length whole
    have some_ : content ≠ [] := by
      rintro rfl
      cases last
    have long := List.length_pos_iff.mpr some_
    rw [List.length_dropLast] at shorter
    omega
  · intro other
    exact if_neg other

/-- Printed digits are neither white space nor a separator. -/
theorem not_mem_display (n : Nat) (other : c.isDigit = false) : c ∉ display n := by
  intro member
  simp [isDigit_of_mem_display member] at other

theorem isWhitespace_digit (digit : c.isDigit = true) : isWhitespace c = false := by
  simp only [Char.isDigit,Bool.and_eq_true,decide_eq_true_eq] at digit
  have low : 48 ≤ c.toNat := digit.1
  have high : c.toNat ≤ 57 := digit.2
  simp only [isWhitespace,Bool.or_eq_false_iff,Bool.and_eq_false_iff,decide_eq_false_iff_not,
    beq_eq_false_iff_ne]
  omega

theorem chomp_digits (content : List Char) (plain : '\r' ∉ content) : chomp (content ++ ['\n']) = content := by
  have last : content.getLast? ≠ some '\r' := fun last => plain (List.mem_of_getLast? last)
  simp [chomp,last]

theorem splitOnce_append (sep : Char) (front back : List Char) (clean : sep ∉ front) :
    splitOnce sep (front ++ sep :: back) = some (front,back) := by
  induction front with
  | nil => simp [splitOnce]
  | cons c front ih =>
    obtain ⟨other,clean⟩ := not_or.mp (List.mem_cons.not.mp clean)
    simp [splitOnce,Ne.symm other,ih clean]

end Malkuth.Text
