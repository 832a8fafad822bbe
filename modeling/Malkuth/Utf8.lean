import Mathlib.Algebra.BigOperators.Group.List.Basic
import Mathlib.Algebra.GroupWithZero.Nat
import Mathlib.Data.List.Basic

/-! Text as its characters and as its UTF-8 bytes: lengths and positions in bytes, and the lossy
decoder. The decoder holds the part of a character that it has read, with the bytes that may
follow it; where another byte comes, the part is replaced by U+FFFD and the byte is read again
from the start, so that each replacement stands for a maximal part of a character. -/
namespace Utf8

def size (cs : List Char) : Nat := (cs.map Char.utf8Size).sum

@[simp] theorem size_nil : size [] = 0 := rfl

@[simp] theorem size_cons (c : Char) (cs : List Char) : size (c :: cs) = c.utf8Size + size cs := by
  simp [size]

@[simp] theorem size_append (front back : List Char) : size (front ++ back) = size front + size back := by
  simp [size]

theorem size_pos (some_ : cs ≠ []) : 0 < size cs := by
  cases cs with
  | nil => contradiction
  | cons c cs =>
    have := c.utf8Size_pos
    rw [size_cons]
    omega

theorem size_le (cs : List Char) : size cs ≤ 4 * cs.length := by
  induction cs with
  | nil => exact Nat.le_refl 0
  | cons c cs ih =>
    have := c.utf8Size_le_four
    rw [size_cons,List.length_cons]
    omega

theorem size_sublist (sub : List.Sublist cs ds) : size cs ≤ size ds := by
  induction sub with
  | slnil => exact Nat.le_refl 0
  | cons c _ ih =>
    rw [size_cons]
    omega
  | cons_cons c _ ih =>
    rw [size_cons,size_cons]
    omega

/-- The text from a byte on, if a character starts there or the text ends there. -/
def dropBytes : List Char → Nat → Option (List Char)
  | cs, 0 => some cs
  | [], _ + 1 => none
  | c :: cs, n + 1 => if c.utf8Size ≤ n + 1 then dropBytes cs (n + 1 - c.utf8Size) else none

def isCharBoundary (cs : List Char) (n : Nat) : Bool := (dropBytes cs n).isSome

theorem dropBytes_append (front back : List Char) : dropBytes (front ++ back) (size front) = some back := by
  induction front with
  | nil => simp [dropBytes]
  | cons c front ih =>
    have positive := c.utf8Size_pos
    obtain ⟨n,eq⟩ : ∃ n, c.utf8Size + size front = n + 1 := ⟨c.utf8Size + size front - 1,by omega⟩
    rw [size_cons,eq,List.cons_append,dropBytes,if_pos (by omega),← eq,Nat.add_sub_cancel_left]
    exact ih

theorem dropBytes_eq_some (cut : dropBytes cs n = some back) : ∃ front, cs = front ++ back ∧ size front = n := by
  induction cs, n using dropBytes.induct with
  | case1 cs =>
    rw [dropBytes] at cut
    exact ⟨[],by simpa using cut,rfl⟩
  | case2 => simp [dropBytes] at cut
  | case3 c cs n whole ih =>
    rw [dropBytes,if_pos whole] at cut
    obtain ⟨front,rfl,eq⟩ := ih cut
    exact ⟨c :: front,rfl,by rw [size_cons]; omega⟩
  | case4 c cs n inside =>
    rw [dropBytes,if_neg inside] at cut
    contradiction

theorem isCharBoundary_iff : isCharBoundary cs n = true ↔ ∃ front back, cs = front ++ back ∧ size front = n := by
  rw [isCharBoundary,Option.isSome_iff_exists]
  constructor
  · rintro ⟨back,cut⟩
    obtain ⟨front,eq,at_⟩ := dropBytes_eq_some cut
    exact ⟨front,back,eq,at_⟩
  · rintro ⟨front,back,rfl,rfl⟩
    exact ⟨back,dropBytes_append ..⟩

theorem isCharBoundary_size (cs : List Char) : isCharBoundary cs (size cs) = true :=
  isCharBoundary_iff.mpr ⟨cs,[],by simp,rfl⟩

/-- `while cut < len && !is_char_boundary(cut) { cut += 1 }`. -/
def seekBoundary (cs : List Char) (cut : Nat) : Nat :=
  if cut < size cs ∧ isCharBoundary cs cut = false then seekBoundary cs (cut + 1) else cut
termination_by size cs - cut

/-- The loop ends at a boundary, the first one from where it starts. -/
theorem seekBoundary_spec (cs : List Char) (cut : Nat) (inside : cut ≤ size cs) :
    cut ≤ seekBoundary cs cut ∧ seekBoundary cs cut ≤ size cs ∧ isCharBoundary cs (seekBoundary cs cut) = true := by
  fun_induction seekBoundary cs cut with
  | case1 cut more ih =>
    obtain ⟨low,high,boundary⟩ := ih more.1
    exact ⟨Nat.le_of_succ_le low,high,boundary⟩
  | case2 cut stop =>
    refine ⟨Nat.le_refl _,inside,?_⟩
    rcases Nat.lt_or_eq_of_le inside with less | rfl
    · simpa [less] using stop
    · exact isCharBoundary_size cs

def seekBack (cs : List Char) : Nat → Nat
  | 0 => 0
  | cut + 1 => if isCharBoundary cs (cut + 1) then cut + 1 else seekBack cs cut

theorem seekBack_spec (cs : List Char) (cut : Nat) : seekBack cs cut ≤ cut ∧ isCharBoundary cs (seekBack cs cut) = true := by
  induction cut with
  | zero => exact ⟨Nat.le_refl 0,by cases cs <;> rfl⟩
  | succ cut ih =>
    rw [seekBack]
    split
    next boundary => exact ⟨Nat.le_refl _,boundary⟩
    next => exact ⟨Nat.le_succ_of_le ih.1,ih.2⟩

/-- The text up to a byte, if a character starts there or the text ends there. -/
def takeBytes (cs : List Char) (n : Nat) : Option (List Char) :=
  (dropBytes cs n).map fun back => cs.take (cs.length - back.length)

theorem takeBytes_eq_some (cut : takeBytes cs n = some front) : front <+: cs ∧ size front = n := by
  obtain ⟨back,there,rfl⟩ := Option.map_eq_some_iff.mp cut
  obtain ⟨front,rfl,at_⟩ := dropBytes_eq_some there
  simpa using at_

theorem takeBytes_isSome (cs : List Char) (n : Nat) : (takeBytes cs n).isSome = isCharBoundary cs n := Option.isSome_map

def replacement : Char := Char.ofNat 0xFFFD

/-- A character that is not complete: the bytes still owed, the range of the next one, and the
bits so far. -/
structure Pending where
  owed : Nat
  low : Nat
  high : Nat
  value : Nat
  deriving DecidableEq, Repr

def first (b : Nat) : List Char × Option Pending :=
  if b ≤ 0x7F then ([Char.ofNat b],none)
  else if 0xC2 ≤ b ∧ b ≤ 0xDF then ([],some ⟨1,0x80,0xBF,b - 0xC0⟩)
  else if 0xE0 ≤ b ∧ b ≤ 0xEF then
    ([],some ⟨2,if b = 0xE0 then 0xA0 else 0x80,if b = 0xED then 0x9F else 0xBF,b - 0xE0⟩)
  else if 0xF0 ≤ b ∧ b ≤ 0xF4 then
    ([],some ⟨3,if b = 0xF0 then 0x90 else 0x80,if b = 0xF4 then 0x8F else 0xBF,b - 0xF0⟩)
  else ([replacement],none)

def next (pending : Option Pending) (b : Nat) : List Char × Option Pending :=
  match pending with
  | none => first b
  | some p =>
    if p.low ≤ b ∧ b ≤ p.high then
      let value := p.value * 64 + (b - 0x80)
      if p.owed = 1 then ([Char.ofNat value],none) else ([],some ⟨p.owed - 1,0x80,0xBF,value⟩)
    else (replacement :: (first b).1,(first b).2)

def decode : Option Pending → List UInt8 → List Char
  | none, [] => []
  | some _, [] => [replacement]
  | pending, b :: bytes => (next pending b.toNat).1 ++ decode (next pending b.toNat).2 bytes

def fromUtf8Lossy (bytes : List UInt8) : List Char := decode none bytes

theorem length_first (b : Nat) : (first b).1.length ≤ 1 := by
  unfold first
  split_ifs <;> simp

theorem length_next (pending : Option Pending) (b : Nat) : (next pending b).1.length ≤ 2 := by
  have one := length_first b
  unfold next
  split
  · exact Nat.le_succ_of_le one
  · split
    · dsimp only
      split <;> simp
    · simpa using one

theorem length_decode (pending : Option Pending) (bytes : List UInt8) :
    (decode pending bytes).length ≤ 2 * bytes.length + 1 := by
  induction bytes generalizing pending with
  | nil => cases pending <;> simp [decode]
  | cons b bytes ih =>
    have two := length_next pending b.toNat
    have rest := ih (next pending b.toNat).2
    rw [decode,List.length_append,List.length_cons]
    omega

/-- However the bytes are decoded, the text is bounded by their number. -/
theorem size_fromUtf8Lossy (bytes : List UInt8) : size (fromUtf8Lossy bytes) ≤ 8 * bytes.length + 4 := by
  have chars := length_decode none bytes
  have bytes_ := size_le (fromUtf8Lossy bytes)
  unfold fromUtf8Lossy at bytes_ ⊢
  omega

-- Text, a continuation byte that is missing, a byte that never occurs, a character cut off.
example : fromUtf8Lossy [0x41,0xE2,0x80,0xA6,0xF0,0x9F,0x42,0xFF,0xC3,0xA9,0xED,0xA0,0xE2,0x82] =
    ['A','…',replacement,'B',replacement,'é',replacement,replacement,replacement] := by decide

def accepts (pending : Option Pending) (b : Nat) : Bool :=
  match pending with
  | none => b ≤ 0x7F || (0xC2 ≤ b && b ≤ 0xF4)
  | some p => p.low ≤ b && b ≤ p.high

def decodeStrict : Option Pending → List UInt8 → Option (List Char)
  | none, [] => some []
  | some _, [] => none
  | pending, b :: bytes =>
    if accepts pending b.toNat then
      (decodeStrict (next pending b.toNat).2 bytes).map ((next pending b.toNat).1 ++ ·)
    else none

def fromUtf8 (bytes : List UInt8) : Option (List Char) := decodeStrict none bytes

theorem fromUtf8_ascii (b : UInt8) (bytes : List UInt8) (ascii : b.toNat ≤ 0x7F) :
    fromUtf8 (b :: bytes) = (fromUtf8 bytes).map (Char.ofNat b.toNat :: ·) := by
  have plain : next none b.toNat = ([Char.ofNat b.toNat],none) := by simp [next,first,ascii]
  simp only [fromUtf8,decodeStrict,accepts,ascii,plain,decide_true,Bool.true_or,if_true,List.singleton_append]

/-- ASCII in front of other bytes. -/
theorem fromUtf8_append (front back : List UInt8) (ascii : ∀ b ∈ front, b.toNat ≤ 0x7F) :
    fromUtf8 (front ++ back) = (fromUtf8 back).map (front.map (fun b => Char.ofNat b.toNat) ++ ·) := by
  induction front with
  | nil => simp
  | cons b front ih =>
    obtain ⟨here,others⟩ := List.forall_mem_cons.mp ascii
    rw [List.cons_append,fromUtf8_ascii b _ here,ih others,Option.map_map]
    rfl

-- What the lossy decoder replaces is refused.
example : fromUtf8 [0x41,0xE2,0x80,0xA6,0xC3,0xA9] = some ['A','…','é'] ∧ fromUtf8 [0x41,0xFF] = none ∧
    fromUtf8 [0xED,0xA0,0x80] = none ∧ fromUtf8 [0xE2,0x82] = none := by decide

end Utf8
