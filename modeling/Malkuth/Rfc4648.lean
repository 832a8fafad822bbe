import Mathlib.Algebra.GroupWithZero.Nat
import Mathlib.Data.List.Basic
import Mathlib.Data.List.GetD
import Mathlib.Data.List.TakeWhile

/-! The text encodings of RFC 4648: the bits of the bytes, in groups of the width of an
alphabet, each group a character, and padding up to whole quanta. What encodes some bytes is a
relation; the decoder is a function, and takes nothing that has not the padding it should have
or has bits left over that are not zero. -/
namespace Rfc4648

def msb : Nat → Nat → List Bool
  | 0, _ => []
  | w + 1, n => n.testBit w :: msb w n

def value : List Bool → Nat
  | [] => 0
  | b :: bits => 2 ^ bits.length * b.toNat + value bits

def groups (w : Nat) : Nat → List Bool → List (List Bool)
  | 0, _ => []
  | k + 1, bits => bits.take w :: groups w k (bits.drop w)

def stream (bytes : List UInt8) : List Bool := bytes.flatMap fun b => msb 8 b.toNat

def missing (m n : Nat) : Nat := (m - n % m) % m

def fill (w : Nat) (bits : List Bool) : List Bool := bits ++ List.replicate (missing w bits.length) false

def pad (quantum : Nat) (text : List Char) : List Char := text ++ List.replicate (missing quantum text.length) '='

structure Alphabet where
  width : Nat
  /-- Characters in a quantum. -/
  quantum : Nat
  chars : List Char
  size : chars.length = 2 ^ width
  distinct : chars.Nodup
  unpadded : '=' ∉ chars
  narrow : width ≤ 8
  some_ : 0 < width ∧ 0 < quantum

namespace Alphabet

variable (a : Alphabet)

def char (d : Nat) : Char := a.chars.getD d '='

def digit (c : Char) : Option Nat := if c ∈ a.chars then some (a.chars.idxOf c) else none

structure Digits (bits : List Bool) (digits : List Nat) : Prop where
  below : ∀ d ∈ digits, d < 2 ^ a.width
  bits : digits.flatMap (msb a.width) = bits

def Encodes (bytes : List UInt8) (text : List Char) : Prop :=
  ∃ digits, a.Digits (fill a.width (stream bytes)) digits ∧ text = pad a.quantum (digits.map a.char)

/-- The whole bytes of the bits; what is left over is less than a digit, and zero. -/
def bytes (digits : List Nat) : Option (List UInt8) :=
  let bits := digits.flatMap (msb a.width)
  let whole := bits.length / 8
  let left := bits.drop (8 * whole)
  if left.length < a.width ∧ left.all (! ·) then
    some ((groups 8 whole bits).map fun group => UInt8.ofNat (value group))
  else none

def decode (text : List Char) : Option (List UInt8) :=
  let body := text.takeWhile (· ≠ '=')
  let padding := text.dropWhile (· ≠ '=')
  if text.length % a.quantum = 0 ∧ padding.length < a.quantum ∧ padding.all (· = '=') then
    (body.mapM a.digit).bind a.bytes
  else none

end Alphabet

def from_ (first : Char) (count : Nat) : List Char := (List.range count).map fun k => Char.ofNat (first.toNat + k)

/-- Table 1: both cases of the letters, the ten digits, plus and slash. -/
def base64 : Alphabet where
  width := 6
  quantum := 4
  chars := from_ 'A' 26 ++ from_ 'a' 26 ++ from_ '0' 10 ++ ['+','/']
  size := by decide +kernel
  distinct := by decide +kernel
  unpadded := by decide +kernel
  narrow := by decide
  some_ := by decide

/-- Table 3: the letters, and the six digits that look like none of them. -/
def base32 : Alphabet where
  width := 5
  quantum := 8
  chars := from_ 'A' 26 ++ from_ '2' 6
  size := by decide +kernel
  distinct := by decide +kernel
  unpadded := by decide +kernel
  narrow := by decide
  some_ := by decide

theorem length_msb (w n : Nat) : (msb w n).length = w := by
  induction w with
  | zero => rfl
  | succ w ih => rw [msb,List.length_cons,ih]

theorem msb_congr (same : ∀ i < w, n.testBit i = m.testBit i) : msb w n = msb w m := by
  induction w with
  | zero => rfl
  | succ w ih =>
    rw [msb,msb,same w (Nat.lt_succ_self w),ih fun i below => same i (Nat.lt_succ_of_lt below)]

/-- Bits are cut where the number is shifted. -/
theorem msb_add (v w n : Nat) : msb (v + w) n = msb v (n >>> w) ++ msb w n := by
  induction v with
  | zero => rw [Nat.zero_add,msb,List.nil_append]
  | succ v ih =>
    rw [Nat.succ_add,msb,ih,msb,List.cons_append,Nat.testBit_shiftRight,Nat.add_comm w v]

theorem msb_zero (w : Nat) : msb w 0 = List.replicate w false := by
  induction w with
  | zero => rfl
  | succ w ih => rw [msb,ih,Nat.zero_testBit,List.replicate_succ]

theorem value_msb (w n : Nat) : value (msb w n) = n % 2 ^ w := by
  induction w with
  | zero => rw [msb,value,Nat.pow_zero,Nat.mod_one]
  | succ w ih => rw [msb,value,length_msb,ih,Nat.toNat_testBit,Nat.mod_pow_succ,Nat.add_comm]

theorem groups_append (f : α → List Bool) (size : ∀ x, (f x).length = w) (xs : List α) (rest : List Bool) :
    groups w xs.length (xs.flatMap f ++ rest) = xs.map f := by
  induction xs with
  | nil => rfl
  | cons x xs ih =>
    rw [List.length_cons,groups,List.flatMap_cons,List.append_assoc,List.take_left' (size x),
      List.drop_left' (size x),ih,List.map_cons]

theorem take_flatMap (f : α → List Bool) (size : ∀ x, (f x).length = w) (xs : List α) (k : Nat) :
    (xs.flatMap f).take (w * k) = (xs.take k).flatMap f := by
  induction xs generalizing k with
  | nil => simp
  | cons x xs ih =>
    cases k with
    | zero => simp
    | succ k =>
      have cut : w * (k + 1) = (f x).length + w * k := by rw [size,Nat.mul_succ,Nat.add_comm]
      rw [List.flatMap_cons,cut,List.take_length_add_append,ih,List.take_succ_cons,List.flatMap_cons]

theorem length_flatMap_msb (f : α → Nat) (xs : List α) :
    (xs.flatMap fun x => msb w (f x)).length = w * xs.length := by
  simp [List.length_flatMap,length_msb,Nat.mul_comm]

theorem stream_append (xs ys : List UInt8) : stream (xs ++ ys) = stream xs ++ stream ys :=
  List.flatMap_append

theorem length_stream (bytes : List UInt8) : (stream bytes).length = 8 * bytes.length := length_flatMap_msb ..

theorem missing_lt (n : Nat) (some_ : 0 < m) : missing m n < m := Nat.mod_lt _ some_

theorem missing_whole (whole : n % m = 0) : missing m n = 0 := by
  rw [missing,whole,Nat.sub_zero,Nat.mod_self]

theorem missing_rest (some_ : 0 < m) (rest : n % m ≠ 0) : missing m n = m - n % m := by
  have below := Nat.mod_lt n some_
  rw [missing,Nat.mod_eq_of_lt (by omega)]

theorem missing_succ (some_ : 0 < m) (rest : n % m ≠ 0) : missing m n = missing m (n + 1) + 1 := by
  have below := Nat.mod_lt n some_
  have big : 1 < m := by omega
  rw [missing_rest some_ rest]
  by_cases last : n % m + 1 = m
  · have whole : (n + 1) % m = 0 := by rw [Nat.add_mod,Nat.mod_eq_of_lt big,last,Nat.mod_self]
    rw [missing_whole whole]
    omega
  · have next : (n + 1) % m = n % m + 1 := by rw [Nat.add_mod,Nat.mod_eq_of_lt big,Nat.mod_eq_of_lt (by omega)]
    rw [missing_rest some_ (by omega),next]
    omega

theorem dvd_add_missing (n : Nat) (some_ : 0 < m) : m ∣ n + missing m n := by
  by_cases whole : n % m = 0
  · rw [missing_whole whole]
    exact Nat.dvd_of_mod_eq_zero whole
  · have below := Nat.mod_lt n some_
    have cut := Nat.div_add_mod n m
    refine ⟨n / m + 1,?_⟩
    rw [missing_rest some_ whole,Nat.mul_add,Nat.mul_one]
    omega

theorem fill_append (whole : w ∣ xs.length) (ys : List Bool) : fill w (xs ++ ys) = xs ++ fill w ys := by
  obtain ⟨k,length⟩ := whole
  rw [fill,fill,missing,List.length_append,length,Nat.mul_add_mod,List.append_assoc,missing]

theorem fill_nil (w : Nat) : fill w [] = [] := by
  rw [fill,List.length_nil,missing_whole (Nat.zero_mod w)]
  rfl

theorem dvd_length_pad (some_ : 0 < quantum) (text : List Char) : quantum ∣ (pad quantum text).length := by
  rw [pad,List.length_append,List.length_replicate]
  exact dvd_add_missing text.length some_

theorem cut_padding {body : List Char} (clean : '=' ∉ body) (n : Nat) :
    (body ++ List.replicate n '=').takeWhile (· ≠ '=') = body ∧
    (body ++ List.replicate n '=').dropWhile (· ≠ '=') = List.replicate n '=' := by
  have kept : ∀ c ∈ body, decide (c ≠ '=') = true := by
    intro c member
    exact decide_eq_true fun same => clean (same ▸ member)
  rw [List.takeWhile_append_of_pos kept,List.dropWhile_append_of_pos kept]
  cases n <;> simp [List.replicate_succ]

namespace Alphabet

variable {a : Alphabet} {digits : List Nat}

theorem char_mem (below : d < 2 ^ a.width) : a.char d ∈ a.chars := by
  have inside : d < a.chars.length := a.size ▸ below
  rw [char,List.getD_eq_getElem _ _ inside]
  exact List.getElem_mem inside

theorem digit_char (below : d < 2 ^ a.width) : a.digit (a.char d) = some d := by
  have inside : d < a.chars.length := a.size ▸ below
  rw [digit,if_pos (char_mem below),char,List.getD_eq_getElem _ _ inside,a.distinct.idxOf_getElem]

theorem mapM_digit (below : ∀ d ∈ digits, d < 2 ^ a.width) : (digits.map a.char).mapM a.digit = some digits := by
  induction digits with
  | nil => rfl
  | cons d digits ih =>
    rw [List.map_cons,List.mapM_cons,digit_char (below d (List.mem_cons_self ..)),
      ih fun d member => below d (List.mem_cons_of_mem _ member)]
    rfl

theorem getElem?_chars (below : d < 2 ^ a.width) : a.chars[d]? = some (a.char d) := by
  have inside : d < a.chars.length := a.size ▸ below
  rw [char,List.getD_eq_getElem _ _ inside,List.getElem?_eq_getElem inside]

theorem digits_nil (a : Alphabet) : a.Digits [] [] := ⟨by simp,rfl⟩

/-- A digit is what a group of bits amounts to, whatever stands above them. -/
theorem digits_one (a : Alphabet) (n : Nat) : a.Digits (msb a.width n) [n % 2 ^ a.width] where
  below := List.forall_mem_singleton.mpr (Nat.mod_lt _ (Nat.two_pow_pos _))
  bits := by
    rw [List.flatMap_singleton]
    exact msb_congr fun i below => by rw [Nat.testBit_mod_two_pow,decide_eq_true below,Bool.true_and]

theorem Digits.append (front : a.Digits xs digits) (back : a.Digits ys digits') :
    a.Digits (xs ++ ys) (digits ++ digits') where
  below := List.forall_mem_append.mpr ⟨front.below,back.below⟩
  bits := by rw [List.flatMap_append,front.bits,back.bits]

theorem Digits.whole (all : a.Digits xs digits) : a.width ∣ xs.length := by
  rw [← all.bits,length_flatMap_msb]
  exact Nat.dvd_mul_right ..

/-- The first digits are the first bits. -/
theorem Digits.take (all : a.Digits xs digits) (k : Nat) : a.Digits (xs.take (a.width * k)) (digits.take k) where
  below := fun d member => all.below d (List.mem_of_mem_take member)
  bits := by rw [← all.bits,take_flatMap _ (length_msb a.width)]

theorem clean (below : ∀ d ∈ digits, d < 2 ^ a.width) : '=' ∉ digits.map a.char := by
  intro member
  obtain ⟨d,here,same⟩ := List.mem_map.mp member
  exact a.unpadded (same ▸ char_mem (below d here))

theorem bytes_fill (bits : digits.flatMap (msb a.width) = fill a.width (stream bs)) : a.bytes digits = some bs := by
  have short := missing_lt (stream bs).length a.some_.1
  have narrow := a.narrow
  have length := length_stream bs
  have whole : (fill a.width (stream bs)).length / 8 = bs.length := by
    rw [fill,List.length_append,List.length_replicate]
    omega
  have left : (fill a.width (stream bs)).drop (8 * bs.length) =
      List.replicate (missing a.width (stream bs).length) false := List.drop_left' length
  have same : (groups 8 bs.length (fill a.width (stream bs))).map (fun group => UInt8.ofNat (value group)) = bs := by
    rw [fill,stream,groups_append _ (fun _ => length_msb ..),List.map_map]
    apply (List.map_congr_left ?_).trans (List.map_id bs)
    intro b _
    rw [Function.comp_apply,value_msb,Nat.mod_eq_of_lt b.toNat_lt,UInt8.ofNat_toNat,id]
  simp only [bytes,bits,whole,left,same]
  rw [if_pos]
  rw [List.length_replicate]
  exact ⟨short,by simp⟩

theorem Encodes.decode (encodes : a.Encodes bs text) : a.decode text = some bs := by
  obtain ⟨digits,⟨below,bits⟩,rfl⟩ := encodes
  have short := missing_lt (digits.map a.char).length a.some_.2
  obtain ⟨body,padding⟩ := cut_padding (clean below) (missing a.quantum (digits.map a.char).length)
  have whole := Nat.mod_eq_zero_of_dvd (dvd_length_pad a.some_.2 (digits.map a.char))
  rw [Alphabet.decode,if_pos]
  · rw [pad,body,mapM_digit below,Option.bind_some,bytes_fill bits]
  · refine ⟨whole,?_,?_⟩
    · rw [pad,padding,List.length_replicate]
      exact short
    · rw [pad,padding]
      simp

theorem Encodes.quanta (encodes : a.Encodes bs text) : a.quantum ∣ text.length := by
  obtain ⟨digits,_,rfl⟩ := encodes
  exact dvd_length_pad a.some_.2 _

/-- The length of the text without its padding, and the padding that this calls for. -/
theorem Encodes.padded (encodes : a.Encodes bs text) : ∃ body, '=' ∉ body ∧
    text = body ++ List.replicate (missing a.quantum body.length) '=' ∧
    a.width * body.length = 8 * bs.length + missing a.width (8 * bs.length) := by
  obtain ⟨digits,⟨below,bits⟩,rfl⟩ := encodes
  refine ⟨digits.map a.char,clean below,rfl,?_⟩
  calc a.width * (digits.map a.char).length
    _ = (digits.flatMap (msb a.width)).length := by rw [List.length_map,length_flatMap_msb]
    _ = 8 * bs.length + missing a.width (8 * bs.length) := by
      rw [bits,fill,List.length_append,List.length_replicate,length_stream]

end Alphabet

end Rfc4648
