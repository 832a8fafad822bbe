import Malkuth.ResponseBytes

/-! Chunked bodies: an encoding that is well formed is decoded to its body, and nothing else is
taken, if and only if its size lines are text. -/
namespace Malkuth.BackendResponse

open Buffered

def chars (bytes : List UInt8) : List Char := bytes.map fun b => Char.ofNat b.toNat

/-- A size in hexadecimal digits of either case, then blanks, then nothing or extensions. -/
structure SizeLine where
  digits : List UInt8
  blanks : List UInt8
  extensions : List UInt8
  size : Nat
  value : hexValue 0 (chars digits) = some size
  some_ : digits ≠ []
  blank : ∀ b ∈ blanks, b = 32 ∨ b = 9
  opens : extensions = [] ∨ extensions.head? = some 59
  clean : position crlf (digits ++ blanks ++ extensions) = none
  short : (digits ++ blanks ++ extensions).length < 128

def SizeLine.bytes (l : SizeLine) : List UInt8 := l.digits ++ l.blanks ++ l.extensions

structure Chunk where
  line : SizeLine
  payload : List UInt8
  announced : line.size = payload.length
  some_ : payload ≠ []

structure Field where
  bytes : List UInt8
  some_ : bytes ≠ []
  clean : position crlf bytes = none
  short : bytes.length < 4096

structure Encoding where
  chunks : List Chunk
  last : SizeLine
  zero : last.size = 0
  trailers : List Field

namespace Encoding

def body (e : Encoding) : List UInt8 := e.chunks.flatMap Chunk.payload

def sizeLines (e : Encoding) : List SizeLine := e.chunks.map Chunk.line ++ [e.last]

/-- The part after the chunks. -/
def tail (e : Encoding) : List UInt8 :=
  e.last.bytes ++ crlf ++ (e.trailers.flatMap (fun f => f.bytes ++ crlf) ++ crlf)

def bytes (e : Encoding) : List UInt8 :=
  e.chunks.flatMap (fun c => c.line.bytes ++ crlf ++ (c.payload ++ crlf)) ++ e.tail

end Encoding

theorem hexDigit_byte : ∀ n < 256, (hexDigit (Char.ofNat n)).isSome = true →
    n ≤ 127 ∧ Char.ofNat n ≠ ';' ∧ Char.ofNat n ≠ '+' ∧ Text.isWhitespace (Char.ofNat n) = false := by decide +kernel

theorem hexDigit_of_value (cs : List Char) (value : hexValue n cs = some size) : ∀ c ∈ cs, (hexDigit c).isSome = true := by
  induction cs generalizing n with
  | nil => simp
  | cons c cs ih =>
    obtain ⟨d,digit,rest⟩ := Option.bind_eq_some_iff.mp value
    exact List.forall_mem_cons.mpr ⟨by rw [digit]; rfl,ih rest⟩

theorem SizeLine.digit (l : SizeLine) (member : b ∈ l.digits) :
    b.toNat ≤ 127 ∧ Char.ofNat b.toNat ≠ ';' ∧ Char.ofNat b.toNat ≠ '+' ∧
      Text.isWhitespace (Char.ofNat b.toNat) = false :=
  hexDigit_byte b.toNat b.toNat_lt (hexDigit_of_value _ l.value _ (List.mem_map_of_mem member))

theorem SizeLine.blank_byte (l : SizeLine) (member : b ∈ l.blanks) :
    b.toNat ≤ 127 ∧ Char.ofNat b.toNat ≠ ';' ∧ Text.isWhitespace (Char.ofNat b.toNat) = true := by
  rcases l.blank b member with rfl | rfl <;> decide

/-- A word with blanks after it. -/
theorem trimList_blanks (word blanks : List Char) (solid : ∀ c ∈ word, Text.isWhitespace c = false)
    (blank : ∀ c ∈ blanks, Text.isWhitespace c = true) (some_ : word ≠ []) : Text.trimList (word ++ blanks) = word := by
  have front : (word ++ blanks).dropWhile Text.isWhitespace = word ++ blanks := by
    cases word with
    | nil => exact absurd rfl some_
    | cons c word => simp [solid c (by simp)]
  have back : (word ++ blanks).reverse.dropWhile Text.isWhitespace = word.reverse := by
    rw [List.reverse_append,List.dropWhile_append_of_pos (by simpa using blank)]
    cases shown : word.reverse with
    | nil => rfl
    | cons c rest =>
      have member : c ∈ word := List.mem_reverse.mp (by simp [shown])
      simp [solid c member]
  rw [Text.trimList,front,back,List.reverse_reverse]

theorem fromStrRadix16_value (some_ : cs ≠ []) (plain : ∀ c ∈ cs, c ≠ '+') (value : hexValue 0 cs = some n)
    (small : n < 2^64) : fromStrRadix16 cs = some n := by
  unfold fromStrRadix16
  split
  next rest => exact absurd rfl (plain '+' (by simp))
  next => simpa [some_,value,Option.filter] using small

/-- The size line of a chunk as the code reads it. -/
theorem chunkSize_line (l : SizeLine) (small : l.size < 2^64) :
    chunkSize l.bytes = if (Utf8.fromUtf8 l.bytes).isSome then some l.size else none := by
  have ascii : ∀ b ∈ l.digits ++ l.blanks, b.toNat ≤ 0x7F :=
    List.forall_mem_append.mpr ⟨fun b member => (l.digit member).1,fun b member => (l.blank_byte member).1⟩
  have decoded := Utf8.fromUtf8_append (l.digits ++ l.blanks) l.extensions ascii
  rw [chunkSize,SizeLine.bytes,decoded]
  cases rest : Utf8.fromUtf8 l.extensions with
  | none => rfl
  | some text =>
    have plain : ∀ c ∈ chars (l.digits ++ l.blanks), c ≠ ';' := by
      simp only [chars,List.mem_map]
      rintro _ ⟨b,member,rfl⟩
      rcases List.mem_append.mp member with digit | blank
      · exact (l.digit digit).2.1
      · exact (l.blank_byte blank).2.1
    have cut : (chars (l.digits ++ l.blanks) ++ text).takeWhile (· ≠ ';') = chars (l.digits ++ l.blanks) := by
      rw [List.takeWhile_append_of_pos (by simpa using plain)]
      rcases l.opens with none_ | first
      · rw [none_] at rest
        obtain rfl := Option.some.inj rest
        simp
      · obtain ⟨b,more,shown⟩ : ∃ b more, l.extensions = b :: more := by
          cases ext : l.extensions with
          | nil => simp [ext] at first
          | cons b more => exact ⟨b,more,rfl⟩
        obtain rfl : b = 59 := by simpa [shown] using first
        rw [shown,Utf8.fromUtf8_ascii 59 more (by decide)] at rest
        obtain ⟨others,_,rfl⟩ := Option.map_eq_some_iff.mp rest
        simp
    have word : Text.trimList (chars (l.digits ++ l.blanks)) = chars l.digits := by
      rw [chars,List.map_append]
      refine trimList_blanks _ _ ?_ ?_ (by simpa using l.some_)
      · simp only [List.mem_map]
        rintro _ ⟨b,member,rfl⟩
        exact (l.digit member).2.2.2
      · simp only [List.mem_map]
        rintro _ ⟨b,member,rfl⟩
        exact (l.blank_byte member).2.2
    have unsigned : fromStrRadix16 (chars l.digits) = some l.size := by
      refine fromStrRadix16_value (by simpa [chars] using l.some_) ?_ l.value small
      simp only [chars,List.mem_map]
      rintro _ ⟨b,member,rfl⟩
      exact (l.digit member).2.2.1
    change fromStrRadix16 (Text.trimList ((chars (l.digits ++ l.blanks) ++ text).takeWhile (· ≠ ';'))) = some l.size
    rw [cut,word,unsigned]

section Decoded

variable {slack headLimit : Nat} {ending : Ending}

/-- A line with its line break, off the front of the bytes. -/
theorem bytes_line_append (slack headLimit : Nat) (ending : Ending) (cap : Nat) (line rest : List UInt8)
    (clean : position crlf line = none) (short : line.length + slack ≤ cap) :
    (bytesReader slack headLimit ending).line cap (line ++ crlf ++ rest) = (some line,rest) := by
  have found : position crlf (line ++ crlf ++ rest) = some line.length := by
    rw [List.append_assoc]
    exact position_append line rest clean
  rw [bytes_line found short]
  simp [crlf]

theorem trailers_encoded (headLimit : Nat) (ending : Ending) (spare : slack ≤ 1) (fields : List Field) (after : List UInt8) :
    trailers (bytesReader slack headLimit ending) (fields.flatMap (fun f => f.bytes ++ crlf) ++ (crlf ++ after)) =
      (true,after) := by
  induction fields with
  | nil =>
    have line := bytes_line_append slack headLimit ending 4096 [] after
      rfl (by simp; omega)
    rw [trailers_eq,List.flatMap_nil,List.nil_append]
    rw [List.nil_append] at line
    simp [line]
  | cons f fields ih =>
    have line := bytes_line_append slack headLimit ending 4096 f.bytes
      (fields.flatMap (fun f => f.bytes ++ crlf) ++ (crlf ++ after)) f.clean (by have := f.short; omega)
    rw [trailers_eq,List.flatMap_cons,List.append_assoc,line]
    simp only [f.some_,if_false]
    exact ih

def Encoding.Textual (e : Encoding) : Prop := ∀ l ∈ e.sizeLines, (Utf8.fromUtf8 l.bytes).isSome = true

theorem chunks_garbled (spare : slack ≤ 1) (l : SizeLine) (small : l.size < 2^64)
    (garbled : (Utf8.fromUtf8 l.bytes).isSome = false) (out rest : List UInt8) :
    (chunks (bytesReader slack headLimit ending) out (l.bytes ++ crlf ++ rest)).ok = false := by
  have line := bytes_line_append slack headLimit ending 128 l.bytes rest
    l.clean (by have := l.short; unfold SizeLine.bytes; omega)
  have none_ : chunkSize l.bytes = none := by rw [chunkSize_line l small,garbled]; rfl
  rw [chunks_eq,line]
  simp [none_]

theorem chunks_cons (spare : slack ≤ 1) (c : Chunk) (text : (Utf8.fromUtf8 c.line.bytes).isSome = true)
    (out rest : List UInt8) (fits : out.length + c.payload.length ≤ maxProxyResponseBytes) :
    chunks (bytesReader slack headLimit ending) out (c.line.bytes ++ crlf ++ (c.payload ++ crlf) ++ rest) =
      chunks (bytesReader slack headLimit ending) (out ++ c.payload) rest := by
  have line := bytes_line_append slack headLimit ending 128 c.line.bytes
    (c.payload ++ crlf ++ rest) c.line.clean (by have := c.line.short; unfold SizeLine.bytes; omega)
  have small : c.line.size < 2^64 := by
    rw [c.announced]
    unfold maxProxyResponseBytes at fits
    omega
  have size : chunkSize c.line.bytes = some c.payload.length := by
    rw [chunkSize_line c.line small,text,c.announced]
    rfl
  have fits' : ¬ (c.payload.length > maxProxyResponseBytes ∨ out.length + c.payload.length > maxProxyResponseBytes) := by
    omega
  have some_ : c.payload.length ≠ 0 := by simpa using c.some_
  have payload := (bytes_take (c.payload.length + 2) (c.payload ++ crlf ++ rest) (by simp [crlf]) :
    (bytesReader slack headLimit ending).take _ _ = _)
  have taken : ((c.payload ++ crlf ++ rest).take (c.payload.length + 2)).take c.payload.length = c.payload := by
    rw [List.take_take,Nat.min_eq_left (by omega),List.append_assoc,List.take_left]
  have dropped : (c.payload ++ crlf ++ rest).drop (c.payload.length + 2) = rest := by
    have length : (c.payload ++ crlf).length = c.payload.length + 2 := by simp [crlf]
    rw [← length,List.drop_left]
  rw [chunks_eq,List.append_assoc,line]
  simp only [size,fits',some_,if_false,payload,taken,dropped]

theorem chunks_last (spare : slack ≤ 1) (e : Encoding) (text : (Utf8.fromUtf8 e.last.bytes).isSome = true)
    (out after : List UInt8) (fits : out.length ≤ maxProxyResponseBytes) :
    chunks (bytesReader slack headLimit ending) out (e.tail ++ after) = ⟨true,out,after⟩ := by
  have line := bytes_line_append slack headLimit ending 128 e.last.bytes
    (e.trailers.flatMap (fun f => f.bytes ++ crlf) ++ (crlf ++ after)) e.last.clean
    (by have := e.last.short; unfold SizeLine.bytes; omega)
  have size : chunkSize e.last.bytes = some 0 := by
    rw [chunkSize_line e.last (by rw [e.zero]; decide),text,e.zero]
    rfl
  have ends := trailers_encoded headLimit ending spare e.trailers after
  have cut : e.tail ++ after =
      e.last.bytes ++ crlf ++ (e.trailers.flatMap (fun f => f.bytes ++ crlf) ++ (crlf ++ after)) := by
    simp [Encoding.tail]
  rw [chunks_eq,cut,line]
  have fits' : ¬ (0 > maxProxyResponseBytes ∨ out.length + 0 > maxProxyResponseBytes) := by omega
  simp only [size,fits',if_true,if_false,ends]

def Encoding.next (e : Encoding) (more : List Chunk) : Encoding := { e with chunks := more }

theorem Encoding.bytes_cons (e : Encoding) (is : e.chunks = c :: more) (after : List UInt8) :
    e.bytes ++ after = c.line.bytes ++ crlf ++ (c.payload ++ crlf) ++ ((e.next more).bytes ++ after) := by
  simp [Encoding.bytes,Encoding.next,Encoding.tail,is]

theorem chunks_textual (spare : slack ≤ 1) (e : Encoding) (text : e.Textual) (out after : List UInt8)
    (fits : out.length + e.body.length ≤ maxProxyResponseBytes) :
    chunks (bytesReader slack headLimit ending) out (e.bytes ++ after) = ⟨true,out ++ e.body,after⟩ := by
  cases is : e.chunks with
  | nil =>
    have last : (Utf8.fromUtf8 e.last.bytes).isSome = true := text e.last (by simp [Encoding.sizeLines])
    have body : e.body = [] := by simp [Encoding.body,is]
    rw [Encoding.bytes,is,List.flatMap_nil,List.nil_append,body,List.append_nil]
    exact chunks_last spare e last out after (by omega)
  | cons c more =>
    have first : (Utf8.fromUtf8 c.line.bytes).isSome = true := text c.line (by simp [Encoding.sizeLines,is])
    have others : (e.next more).Textual := by
      intro l member
      refine text l ?_
      rw [Encoding.sizeLines,is]
      exact List.mem_cons_of_mem _ member
    have body : e.body = c.payload ++ (e.next more).body := by simp [Encoding.body,Encoding.next,is]
    rw [body,List.length_append] at fits
    rw [e.bytes_cons is,chunks_cons spare c first out _ (by omega),
      chunks_textual spare (e.next more) others (out ++ c.payload) after (by rw [List.length_append]; omega),
      body,List.append_assoc]
termination_by e.chunks.length
decreasing_by simp [Encoding.next,is]

theorem chunks_not_textual (spare : slack ≤ 1) (e : Encoding) (garbled : ¬ e.Textual) (out after : List UInt8)
    (fits : out.length + e.body.length ≤ maxProxyResponseBytes) :
    (chunks (bytesReader slack headLimit ending) out (e.bytes ++ after)).ok = false := by
  cases is : e.chunks with
  | nil =>
    have last : (Utf8.fromUtf8 e.last.bytes).isSome = false := by
      by_contra text
      rw [Bool.not_eq_false] at text
      refine garbled ?_
      simpa [Encoding.Textual,Encoding.sizeLines,is] using text
    rw [Encoding.bytes,is,List.flatMap_nil,List.nil_append,Encoding.tail,List.append_assoc]
    exact chunks_garbled spare e.last (by rw [e.zero]; decide) last out _
  | cons c more =>
    have body : e.body = c.payload ++ (e.next more).body := by simp [Encoding.body,Encoding.next,is]
    rw [body,List.length_append] at fits
    rw [e.bytes_cons is]
    cases first : (Utf8.fromUtf8 c.line.bytes).isSome with
    | false =>
      rw [List.append_assoc]
      refine chunks_garbled spare c.line ?_ first out _
      rw [c.announced]
      unfold maxProxyResponseBytes at fits
      omega
    | true =>
      have others : ¬ (e.next more).Textual := by
        intro text
        refine garbled fun l member => ?_
        simp only [Encoding.sizeLines,is,List.map_cons,List.cons_append,List.mem_cons] at member
        rcases member with rfl | later
        · exact first
        · exact text l later
      rw [chunks_cons spare c first out _ (by omega)]
      exact chunks_not_textual spare (e.next more) others (out ++ c.payload) after (by rw [List.length_append]; omega)
termination_by e.chunks.length
decreasing_by simp [Encoding.next,is]

end Decoded

section Socket

variable {headers : List ParsedHeader} {e : Encoding} {leftover : List UInt8} {pieces : List (List UInt8)}
  {ending : Ending} {after : List UInt8}

theorem body_textual (framed : isChunked headers = true) (small : e.body.length ≤ maxProxyResponseBytes)
    (whole : leftover ++ pieces.flatten = e.bytes ++ after) (text : e.Textual) :
    (readResponseBody socket headers (.start leftover pieces ending)).ok = true ∧
    (readResponseBody socket headers (.start leftover pieces ending)).out = e.body ∧
    (readResponseBody socket headers (.start leftover pieces ending)).state.bytes = after := by
  have decoded : readResponseBody (tight ending) headers (e.bytes ++ after) = ⟨true,e.body,after⟩ := by
    rw [readResponseBody,if_pos framed,tight,chunks_textual (Nat.le_refl 1) e text [] after (by simpa using small)]
    rfl
  obtain ⟨ok,out,same,_⟩ := (tight_socket ending).body headers (e.bytes ++ after) (.start leftover pieces ending)
    ⟨whole,rfl⟩ (by rw [decoded])
  rw [decoded] at out same
  exact ⟨ok,out,same⟩

theorem body_not_textual (framed : isChunked headers = true) (small : e.body.length ≤ maxProxyResponseBytes)
    (whole : leftover ++ pieces.flatten = e.bytes ++ after) (garbled : ¬ e.Textual) :
    (readResponseBody socket headers (.start leftover pieces ending)).ok = false := by
  by_contra ok
  obtain ⟨decoded,_⟩ := (socket_wide ending).body headers (.start leftover pieces ending) (e.bytes ++ after)
    ⟨whole,rfl⟩ (by simpa using ok)
  rw [readResponseBody,if_pos framed,wide,
    chunks_not_textual (Nat.zero_le 1) e garbled [] after (by simpa using small)] at decoded
  contradiction

end Socket

/-- However an encoding is cut into reads and whatever of it has come with the head: its body is
returned and nothing but the encoding is taken if and only if all its size lines are UTF-8. -/
theorem chunked_decodes_iff (headers : List ParsedHeader) (framed : isChunked headers = true) (e : Encoding)
    (small : e.body.length ≤ maxProxyResponseBytes) (leftover : List UInt8) (pieces : List (List UInt8))
    (ending : Ending) (after : List UInt8) (whole : leftover ++ pieces.flatten = e.bytes ++ after) :
    ((readResponseBody socket headers (.start leftover pieces ending)).ok = true ∧
      (readResponseBody socket headers (.start leftover pieces ending)).out = e.body ∧
      (readResponseBody socket headers (.start leftover pieces ending)).state.bytes = after) ↔
    ∀ l ∈ e.sizeLines, (Utf8.fromUtf8 l.bytes).isSome = true := by
  constructor
  · rintro ⟨ok,_⟩
    by_contra garbled
    rw [body_not_textual framed small whole garbled] at ok
    contradiction
  · exact body_textual framed small whole

def sizeFour (extensions : List UInt8) (opens : extensions = [] ∨ extensions.head? = some 59)
    (clean : position crlf (52 :: extensions) = none) (short : extensions.length < 127) : SizeLine :=
  ⟨[52],[],extensions,4,rfl,by simp,by simp,opens,clean,by simpa using Nat.succ_lt_succ short⟩

def wiki (line : SizeLine) (four : line.size = 4) : Encoding where
  chunks := [⟨line,[87,105,107,105],four,by simp⟩]
  last := ⟨[48],[],[],0,rfl,by simp,by simp,.inl rfl,rfl,by simp⟩
  zero := rfl
  trailers := []

def chunkedHeader : List ParsedHeader := [("transfer-encoding",[99,104,117,110,107,101,100])]

/-- The size line comes with the head, the rest byte by byte. -/
theorem chunked_decodes_wiki :
    let e := wiki (sizeFour [59,97] (.inr rfl) rfl (by decide)) rfl
    (readResponseBody socket chunkedHeader (.start (e.bytes.take 5) ((e.bytes.drop 5).map ([·])) .failed)).out =
      [87,105,107,105] := by
  intro e
  have cut : e.bytes.take 5 ++ ((e.bytes.drop 5).map ([·])).flatten = e.bytes ++ [] := by decide +kernel
  exact ((chunked_decodes_iff chunkedHeader (by decide +kernel) e (by decide) _ _ .failed [] cut).mpr (by decide)).2.1

/-- An extension with a quoted byte that is no UTF-8: the body is refused. -/
theorem chunked_quoted_byte : ¬ ∀ (headers : List ParsedHeader), isChunked headers = true → ∀ e : Encoding,
    e.body.length ≤ maxProxyResponseBytes → ∀ leftover pieces ending after,
    leftover ++ pieces.flatten = e.bytes ++ after →
    (readResponseBody socket headers (.start leftover pieces ending)).ok = true ∧
    (readResponseBody socket headers (.start leftover pieces ending)).out = e.body ∧
    (readResponseBody socket headers (.start leftover pieces ending)).state.bytes = after := by
  intro decodes
  let e := wiki (sizeFour [59,97,61,34,255,34] (.inr rfl) rfl (by decide)) rfl
  have framed : isChunked chunkedHeader = true := by decide +kernel
  have small : e.body.length ≤ maxProxyResponseBytes := by decide
  have ok := (decodes chunkedHeader framed e small [] [e.bytes] .eof [] (by simp)).1
  have whole : [] ++ [e.bytes].flatten = e.bytes ++ [] := by simp
  rw [body_not_textual framed small whole (by unfold Encoding.Textual; decide)] at ok
  contradiction

end Malkuth.BackendResponse
