import Malkuth.Rfc4648
/-! The two encoders of `info_page.rs`, with their shift registers. An index into an alphabet is
checked, and `none` is its panic. All characters pushed are of one byte, so that the length of the
output counts them. -/
namespace Malkuth.InfoPage

open Rfc4648

def shl (x k : Nat) : Nat := (x <<< k) % 2 ^ 32

def padWhile (m : Nat) [NeZero m] (out : List Char) : List Char :=
  if out.length % m = 0 then out else padWhile m (out ++ ['='])
termination_by missing m out.length
decreasing_by
  rw [List.length_append,List.length_singleton]
  have step := missing_succ (Nat.pos_of_neZero m) ‹_›
  omega

def base64Chars : List Char := "ABCDEFGHIJKLMNOPQRSTUVWXYZabcdefghijklmnopqrstuvwxyz0123456789+/".toList

def chunks3 : List UInt8 → List (List UInt8)
  | [] => []
  | [b0] => [[b0]]
  | [b0,b1] => [[b0,b1]]
  | b0 :: b1 :: b2 :: bytes => [b0,b1,b2] :: chunks3 bytes

/-- The `n` of a chunk; `getD` is the test of its length. -/
def number (chunk : List UInt8) : Nat :=
  shl (chunk.getD 0 0).toNat 16 ||| shl (chunk.getD 1 0).toNat 8 ||| (chunk.getD 2 0).toNat

/-- What is pushed for a chunk, which has a `chunk[0]`. -/
def pushChunk (chunk : List UInt8) : Option (List Char) := do
  guard (chunk ≠ [])
  let n := number chunk
  let first ← base64Chars[n >>> 18]?
  let second ← base64Chars[(n >>> 12) &&& 63]?
  let third ← if chunk.length > 1 then base64Chars[(n >>> 6) &&& 63]?.map ([·]) else some []
  let fourth ← if chunk.length > 2 then base64Chars[n &&& 63]?.map ([·]) else some []
  some ([first,second] ++ third ++ fourth)

def base64Encode (bytes : List UInt8) : Option (List Char) := do
  let out ← (chunks3 bytes).mapM pushChunk
  some (padWhile 4 out.flatten)

def base32Alphabet : List Char := "ABCDEFGHIJKLMNOPQRSTUVWXYZ234567".toList

structure Register where
  out : List Char
  buffer : Nat
  bits : Nat

/-- The inner `while`: what it pushes, and the bits it leaves. -/
def emit (buffer : Nat) : Nat → Option (List Char × Nat)
  | bits + 5 => do
    let c ← base32Alphabet[(buffer >>> bits) &&& 31]?
    let (out,left) ← emit buffer bits
    some (c :: out,left)
  | bits => some ([],bits)

def feed (s : Register) (b : UInt8) : Option Register := do
  let buffer := shl s.buffer 8 ||| b.toNat
  let (out,bits) ← emit buffer (s.bits + 8)
  some ⟨s.out ++ out,buffer,bits⟩

def base32Encode (bytes : List UInt8) : Option (List Char) := do
  let s ← bytes.foldlM feed ⟨[],0,0⟩
  let last ← if s.bits > 0 then base32Alphabet[shl s.buffer (5 - s.bits) &&& 31]?.map ([·]) else some []
  some (padWhile 8 (s.out ++ last))

/-- The constants are the standard's tables. -/
theorem base64Chars_eq : base64Chars = base64.chars := by decide +kernel

theorem base32Alphabet_eq : base32Alphabet = base32.chars := by decide +kernel

theorem padWhile_eq (m : Nat) [NeZero m] (out : List Char) : padWhile m out = pad m out := by
  induction out using padWhile.induct m with
  | case1 out whole =>
    rw [padWhile,if_pos whole,pad,missing_whole whole]
    exact (List.append_nil out).symm
  | case2 out rest ih =>
    rw [padWhile,if_neg rest,ih,pad,pad,List.length_append,List.length_singleton,
      missing_succ (Nat.pos_of_neZero m) rest,List.replicate_succ,List.append_assoc]
    rfl

theorem testBit_shl (x k i : Nat) : (shl x k).testBit i = (decide (i < 32) && (decide (k ≤ i) && x.testBit (i - k))) := by
  rw [shl,Nat.testBit_mod_two_pow,Nat.testBit_shiftLeft]

/-- The low bits of a register, when others come in below them. -/
theorem msb_shl (room : v + k ≤ 32) (below : lo < 2 ^ k) : msb (v + k) (shl hi k ||| lo) = msb v hi ++ msb k lo := by
  rw [msb_add]
  congr 1
  · apply msb_congr
    intro i inside
    have none_ : lo.testBit (k + i) = false :=
      Nat.testBit_lt_two_pow (Nat.lt_of_lt_of_le below (Nat.pow_le_pow_right (by decide) (Nat.le_add_right k i)))
    rw [Nat.testBit_shiftRight,Nat.testBit_or,none_,Bool.or_false,testBit_shl,Nat.add_sub_cancel_left]
    simp
    omega
  · apply msb_congr
    intro i inside
    rw [Nat.testBit_or,testBit_shl]
    simp
    omega

theorem msb_number (chunk : List UInt8) : msb 24 (number chunk) =
    msb 8 (chunk.getD 0 0).toNat ++ (msb 8 (chunk.getD 1 0).toNat ++ msb 8 (chunk.getD 2 0).toNat) := by
  have second : shl (chunk.getD 1 0).toNat 8 ||| (chunk.getD 2 0).toNat < 2 ^ 16 := by
    apply Nat.or_lt_two_pow
    · have below := (chunk.getD 1 0).toNat_lt
      rw [shl,Nat.shiftLeft_eq]
      omega
    · exact Nat.lt_trans (chunk.getD 2 0).toNat_lt (by decide)
  rw [number,Nat.or_assoc,msb_shl (v := 8) (k := 16) (by decide) second,
    msb_shl (v := 8) (k := 8) (by decide) (chunk.getD 2 0).toNat_lt]

theorem sextets (n : Nat) (small : n < 2 ^ 24) :
    base64.Digits (msb 24 n) [n >>> 18,(n >>> 12) &&& 63,(n >>> 6) &&& 63,n &&& 63] := by
  have low (m : Nat) : m &&& 63 = m % 2 ^ base64.width := Nat.and_two_pow_sub_one_eq_mod m 6
  have top : n >>> 18 = (n >>> 18) % 2 ^ base64.width := by
    rw [Nat.mod_eq_of_lt]
    rw [Nat.shiftRight_eq_div_pow]
    show n / 2 ^ 18 < 2 ^ 6
    omega
  rw [low,low,low,top]
  have cut : msb 24 n = msb 6 (n >>> 18) ++ (msb 6 (n >>> 12) ++ (msb 6 (n >>> 6) ++ msb 6 n)) := by
    rw [msb_add 6 18,msb_add 6 12,msb_add 6 6]
  rw [cut]
  exact (base64.digits_one _).append ((base64.digits_one _).append ((base64.digits_one _).append (base64.digits_one _)))

theorem number_lt (chunk : List UInt8) : number chunk < 2 ^ 24 := by
  have first := (chunk.getD 0 0).toNat_lt
  have second := (chunk.getD 1 0).toNat_lt
  have third := (chunk.getD 2 0).toNat_lt
  rw [number]
  apply Nat.or_lt_two_pow (Nat.or_lt_two_pow ?_ ?_) (by omega)
  all_goals rw [shl,Nat.shiftLeft_eq]; omega

theorem shapes (chunk : List UInt8) (some_ : chunk ≠ []) (short : chunk.length ≤ 3) :
    (∃ b0, chunk = [b0]) ∨ (∃ b0 b1, chunk = [b0,b1]) ∨ ∃ b0 b1 b2, chunk = [b0,b1,b2] := by
  match chunk with
  | [] => contradiction
  | [b0] => exact .inl ⟨b0,rfl⟩
  | [b0,b1] => exact .inr (.inl ⟨b0,b1,rfl⟩)
  | [b0,b1,b2] => exact .inr (.inr ⟨b0,b1,b2,rfl⟩)
  | _ :: _ :: _ :: _ :: more =>
    simp only [List.length_cons] at short
    omega

/-- The bits of a chunk, filled up, are the first ones of its number. -/
theorem fill_chunk (chunk : List UInt8) (some_ : chunk ≠ []) (short : chunk.length ≤ 3) :
    fill 6 (stream chunk) = (msb 24 (number chunk)).take (6 * (chunk.length + 1)) := by
  rw [msb_number]
  rcases shapes chunk some_ short with ⟨b0,rfl⟩ | ⟨b0,b1,rfl⟩ | ⟨b0,b1,b2,rfl⟩
  all_goals
    simp only [stream,fill,List.flatMap_cons,List.flatMap_nil,List.append_nil,List.append_assoc,List.length_append,
      length_msb,List.length_cons,List.length_nil,List.getD_cons_zero,List.getD_cons_succ,List.getD_nil]
    simp [List.take_append,List.take_of_length_le,length_msb,msb_zero]
    rfl

theorem pushChunk_eq (chunk : List UInt8) (some_ : chunk ≠ []) (short : chunk.length ≤ 3) : ∃ digits,
    pushChunk chunk = some (digits.map base64.char) ∧ base64.Digits (fill 6 (stream chunk)) digits := by
  have all := sextets (number chunk) (number_lt chunk)
  have part := all.take (chunk.length + 1)
  refine ⟨_,?_,fill_chunk chunk some_ short ▸ part⟩
  have pushed : ∀ d ∈ _, base64Chars[d]? = some (base64.char d) := fun d member => by
    rw [base64Chars_eq]
    exact Alphabet.getElem?_chars (a := base64) (all.below d member)
  simp only [List.mem_cons,List.not_mem_nil,or_false,forall_eq_or_imp,forall_eq] at pushed
  obtain ⟨first,second,third,fourth⟩ := pushed
  have guarded : guard (chunk ≠ []) = some () := if_pos some_
  unfold pushChunk
  rw [guarded]
  clear all part guarded
  generalize number chunk = n at *
  rcases shapes chunk some_ short with ⟨b0,rfl⟩ | ⟨b0,b1,rfl⟩ | ⟨b0,b1,b2,rfl⟩ <;> simp [first,second,third,fourth]

theorem mapM_pushChunk (bytes : List UInt8) : ∃ out digits, (chunks3 bytes).mapM pushChunk = some out ∧
    out.flatten = digits.map base64.char ∧ base64.Digits (fill 6 (stream bytes)) digits := by
  induction bytes using chunks3.induct with
  | case1 => exact ⟨[],[],rfl,rfl,base64.digits_nil⟩
  | case2 b0 =>
    obtain ⟨digits,pushed,all⟩ := pushChunk_eq [b0] (by simp) (by simp)
    exact ⟨[digits.map base64.char],digits,by simp [chunks3,pushed],List.flatten_singleton ..,all⟩
  | case3 b0 b1 =>
    obtain ⟨digits,pushed,all⟩ := pushChunk_eq [b0,b1] (by simp) (by simp)
    exact ⟨[digits.map base64.char],digits,by simp [chunks3,pushed],List.flatten_singleton ..,all⟩
  | case4 b0 b1 b2 bytes ih =>
    obtain ⟨digits,pushed,all⟩ := pushChunk_eq [b0,b1,b2] (by simp) (by simp)
    obtain ⟨out,later,pushes,same,rest⟩ := ih
    refine ⟨digits.map base64.char :: out,digits ++ later,by simp [chunks3,pushed,pushes],?_,?_⟩
    · rw [List.flatten_cons,same,List.map_append]
    · have whole : 6 ∣ (stream [b0,b1,b2]).length := by
        rw [length_stream]
        exact ⟨4,rfl⟩
      have front := fill_append whole []
      rw [fill_nil,List.append_nil] at front
      have cut : stream (b0 :: b1 :: b2 :: bytes) = stream [b0,b1,b2] ++ stream bytes := stream_append [b0,b1,b2] bytes
      rw [cut,fill_append whole]
      rw [front] at all
      exact all.append rest

theorem base64Encode_encodes (bytes : List UInt8) :
    ∃ text, base64Encode bytes = some text ∧ base64.Encodes bytes text := by
  obtain ⟨out,digits,pushed,same,all⟩ := mapM_pushChunk bytes
  refine ⟨padWhile 4 out.flatten,by simp [base64Encode,pushed],digits,all,?_⟩
  rw [padWhile_eq,same]
  rfl

theorem and_31 (n : Nat) : n &&& 31 = n % 2 ^ base32.width := Nat.and_two_pow_sub_one_eq_mod n 5

theorem pushed (n : Nat) : base32Alphabet[n &&& 31]? = some (base32.char (n % 2 ^ base32.width)) := by
  rw [and_31,base32Alphabet_eq]
  exact Alphabet.getElem?_chars (a := base32) (Nat.mod_lt _ (Nat.two_pow_pos _))

/-- The inner loop takes whole digits from the top of the bits. -/
theorem emit_eq (buffer bits : Nat) : ∃ digits left xs, emit buffer bits = some (digits.map base32.char,left) ∧
    left < 5 ∧ base32.Digits xs digits ∧ msb bits buffer = xs ++ msb left buffer := by
  induction bits using emit.induct with
  | case1 bits ih =>
    obtain ⟨digits,left,xs,emitted,short,all,cut⟩ := ih
    refine ⟨_,left,_,by simp [emit,pushed,emitted],short,(base32.digits_one (buffer >>> bits)).append all,?_⟩
    calc msb (bits + 5) buffer
      _ = msb 5 (buffer >>> bits) ++ msb bits buffer := by rw [Nat.add_comm,msb_add]
      _ = msb 5 (buffer >>> bits) ++ xs ++ msb left buffer := by rw [cut,List.append_assoc]
  | case2 bits short =>
    have few : bits < 5 := by
      by_contra many
      exact short (bits - 5) (by omega)
    refine ⟨[],bits,[],?_,few,base32.digits_nil,rfl⟩
    rw [emit]
    · rfl
    · exact short

/-- What has been pushed are digits of the bits taken in, and the rest of the bits is the low
part of the register. -/
structure Holds (s : Register) (bytes : List UInt8) (digits : List Nat) (xs : List Bool) : Prop where
  out : s.out = digits.map base32.char
  all : base32.Digits xs digits
  bits : stream bytes = xs ++ msb s.bits s.buffer
  short : s.bits < 5

theorem feed_holds (holds : Holds s bytes digits xs) (b : UInt8) :
    ∃ s' digits' xs', feed s b = some s' ∧ Holds s' (bytes ++ [b]) digits' xs' := by
  obtain ⟨more,left,ys,emitted,short,all,cut⟩ := emit_eq (shl s.buffer 8 ||| b.toNat) (s.bits + 8)
  have below := holds.short
  refine ⟨⟨s.out ++ more.map base32.char,shl s.buffer 8 ||| b.toNat,left⟩,digits ++ more,xs ++ ys,
    by simp [feed,emitted],?_,holds.all.append all,?_,short⟩
  · rw [holds.out,List.map_append]
  · calc stream (bytes ++ [b])
      _ = xs ++ (msb s.bits s.buffer ++ msb 8 b.toNat) := by
        rw [stream_append,holds.bits,List.append_assoc]
        simp [stream]
      _ = xs ++ msb (s.bits + 8) (shl s.buffer 8 ||| b.toNat) := by rw [msb_shl (by omega) b.toNat_lt]
      _ = xs ++ ys ++ msb left (shl s.buffer 8 ||| b.toNat) := by rw [cut,List.append_assoc]

theorem foldlM_feed (holds : Holds s bytes digits xs) (later : List UInt8) :
    ∃ s' digits' xs', later.foldlM feed s = some s' ∧ Holds s' (bytes ++ later) digits' xs' := by
  induction later generalizing s bytes digits xs with
  | nil => exact ⟨s,digits,xs,rfl,by rwa [List.append_nil]⟩
  | cons b later ih =>
    obtain ⟨m,digits',xs',fed,next⟩ := feed_holds holds b
    obtain ⟨s',digits'',xs'',rest,last⟩ := ih next
    refine ⟨s',digits'',xs'',?_,by rwa [List.append_assoc] at last⟩
    rw [List.foldlM_cons,fed]
    exact rest

/-- The bits that are left over make one more digit, filled up. -/
theorem fill_left (some_ : 0 < bits) (short : bits < 5) (buffer : Nat) :
    fill 5 (msb bits buffer) = msb 5 (shl buffer (5 - bits)) := by
  have five : 5 = bits + (5 - bits) := by omega
  have rest : bits % 5 ≠ 0 := by omega
  calc fill 5 (msb bits buffer)
    _ = msb bits buffer ++ msb (5 - bits) 0 := by
      rw [fill,length_msb,missing_rest (by decide) rest,Nat.mod_eq_of_lt short,msb_zero]
    _ = msb (bits + (5 - bits)) (shl buffer (5 - bits) ||| 0) := (msb_shl (by omega) (Nat.two_pow_pos _)).symm
    _ = msb 5 (shl buffer (5 - bits)) := by rw [Nat.or_zero,← five]

theorem base32Encode_encodes (bytes : List UInt8) :
    ∃ text, base32Encode bytes = some text ∧ base32.Encodes bytes text := by
  have empty : Holds ⟨[],0,0⟩ [] [] [] := ⟨rfl,base32.digits_nil,rfl,by decide⟩
  obtain ⟨s,digits,xs,fed,holds⟩ := foldlM_feed empty bytes
  have cut : fill 5 (stream bytes) = xs ++ fill 5 (msb s.bits s.buffer) := by
    have bits := holds.bits
    rw [List.nil_append] at bits
    rw [bits]
    exact fill_append holds.all.whole _
  by_cases left : 0 < s.bits
  · refine ⟨padWhile 8 (s.out ++ [base32.char (shl s.buffer (5 - s.bits) % 2 ^ base32.width)]),
      by simp [base32Encode,fed,left,pushed],digits ++ [shl s.buffer (5 - s.bits) % 2 ^ base32.width],?_,?_⟩
    · show base32.Digits (fill 5 (stream bytes)) _
      rw [cut,fill_left left holds.short]
      exact holds.all.append (base32.digits_one _)
    · rw [padWhile_eq,holds.out,List.map_append]
      rfl
  · have none_ : s.bits = 0 := by omega
    refine ⟨padWhile 8 s.out,by simp [base32Encode,fed,left],digits,?_,?_⟩
    · show base32.Digits (fill 5 (stream bytes)) _
      rw [cut,none_,msb,fill_nil,List.append_nil]
      exact holds.all
    · rw [padWhile_eq,holds.out]
      rfl

/-- The padding of so many bytes: their last quantum is one to three bytes in four characters. -/
def base64Padding (length : Nat) : Nat :=
  match length % 3 with
  | 0 => 0
  | 1 => 2
  | _ => 1

def base32Padding (length : Nat) : Nat :=
  match length % 5 with
  | 0 => 0
  | 1 => 6
  | 2 => 4
  | 3 => 3
  | _ => 1

structure Inverted (a : Alphabet) (bytes : List UInt8) (padding : Nat) (text : List Char) : Prop where
  decodes : a.decode text = some bytes
  quanta : text.length % a.quantum = 0
  padded : ∃ body, text = body ++ List.replicate padding '=' ∧ '=' ∉ body

theorem base32Padding_eq (digits : 5 * k = 8 * n + missing 5 (8 * n)) : missing 8 k = base32Padding n := by
  unfold missing at *
  have cases_ : n % 5 = 0 ∨ n % 5 = 1 ∨ n % 5 = 2 ∨ n % 5 = 3 ∨ n % 5 = 4 := by omega
  unfold base32Padding
  rcases cases_ with rest | rest | rest | rest | rest
  all_goals simp only [rest]; omega

theorem base64Padding_eq (digits : 6 * k = 8 * n + missing 6 (8 * n)) : missing 4 k = base64Padding n := by
  unfold missing at *
  have cases_ : n % 3 = 0 ∨ n % 3 = 1 ∨ n % 3 = 2 := by omega
  unfold base64Padding
  rcases cases_ with rest | rest | rest
  all_goals simp only [rest]; omega

theorem inverted_of_encodes (encodes : a.Encodes bytes text)
    (prescribed : ∀ k, a.width * k = 8 * bytes.length + missing a.width (8 * bytes.length) →
      missing a.quantum k = padding) : Inverted a bytes padding text := by
  obtain ⟨body,clean,padded,length⟩ := encodes.padded
  refine ⟨encodes.decode,Nat.mod_eq_zero_of_dvd encodes.quanta,body,?_,clean⟩
  rw [← prescribed body.length length]
  exact padded

/-- Both encoders answer for all bytes, with a text from which the bytes can be read back. -/
theorem encoders_inverted (bytes : List UInt8) :
    (∃ text, base32Encode bytes = some text ∧ Inverted base32 bytes (base32Padding bytes.length) text) ∧
    ∃ text, base64Encode bytes = some text ∧ Inverted base64 bytes (base64Padding bytes.length) text := by
  obtain ⟨text32,encoded32,encodes32⟩ := base32Encode_encodes bytes
  obtain ⟨text64,encoded64,encodes64⟩ := base64Encode_encodes bytes
  exact ⟨⟨text32,encoded32,inverted_of_encodes encodes32 fun _ => base32Padding_eq⟩,
    text64,encoded64,inverted_of_encodes encodes64 fun _ => base64Padding_eq⟩

-- The standard's own vectors for "foob".
example : base32.decode "MZXW6YQ=".toList = some [0x66,0x6F,0x6F,0x62] ∧
    base64.decode "Zm9vYg==".toList = some [0x66,0x6F,0x6F,0x62] := by decide +kernel

end Malkuth.InfoPage
