import Malkuth.Buffered
import Malkuth.Text
import Malkuth.Utf8

/-! How `proxy_upgrade` reads the response of a backend that does not upgrade: the head, and
then the body in whichever of three framings the head announces. The code is written once for
any reader; the one that runs reads a socket through a buffer. -/
namespace Malkuth.BackendResponse

open Buffered

abbrev ParsedHeader := String × List UInt8

/-- What the loops take from a response: its head, a line without its line break, a number of
bytes, and all that is left. An answer of `none` is an error. -/
structure Reader (σ : Type) where
  head : σ → Option (List UInt8) × σ
  line : Nat → σ → Option (List UInt8) × σ
  take : Nat → σ → Option (List UInt8) × σ
  toEnd : σ → Option (List UInt8) × σ
  left : σ → Nat
  line_left : ∀ cap s l s', line cap s = (some l,s') → left s' < left s
  take_left : ∀ n s l s', 0 < n → take n s = (some l,s') → left s' < left s

def crlf : List UInt8 := [13,10]

def headEnd : List UInt8 := [13,10,13,10]

/-- The check of `read_response_head`. There is nothing in the buffer before the first read, so
the end may be looked for before the cap. -/
def checkHead (buf : List UInt8) : Verdict Nat :=
  match position headEnd buf with
  | some at_ => .done (at_ + 4)
  | none => if buf.length ≥ 64 * 1024 then .refused else .more

def checkLine (cap : Nat) (buf : List UInt8) : Verdict Nat :=
  match position crlf buf with
  | some pos => if pos > cap then .refused else .done pos
  | none => if buf.length > cap then .refused else .more

def checkLength (n : Nat) (buf : List UInt8) : Verdict Unit := if buf.length < n then .more else .done ()

def readResponseHead (c : Conn) : Option (List UInt8) × Conn :=
  match fill 4096 checkHead none c with
  | (some end_,c) => (some (c.drain end_ 0).1,(c.drain end_ 0).2)
  | (none,c) => (none,c)

def takeLine (cap : Nat) (c : Conn) : Option (List UInt8) × Conn :=
  match fill 8192 (checkLine cap) none c with
  | (some pos,c) => (some (c.drain pos 2).1,(c.drain pos 2).2)
  | (none,c) => (none,c)

/-- `while rest.len() < n`, and then those bytes. -/
def takeBytes (n : Nat) (c : Conn) : Option (List UInt8) × Conn :=
  match fill 8192 (checkLength n) none c with
  | (some _,c) => (some (c.drain n 0).1,(c.drain n 0).2)
  | (none,c) => (none,c)

def readToEnd (c : Conn) : Option (List UInt8) × Conn :=
  match fill 8192 (fun _ => .more) (some ()) c with
  | (some _,c) => (some c.buf,{ c with buf := [] })
  | (none,c) => (none,c)

def splitCrlf : List Char → List (List Char)
  | [] => [[]]
  | '\r' :: '\n' :: rest => [] :: splitCrlf rest
  | c :: rest =>
    match splitCrlf rest with
    | [] => [[c]]
    | first :: more => (c :: first) :: more

def splitWhitespace (cs : List Char) : List (List Char) := (cs.splitOnP Text.isWhitespace).filter (· ≠ [])

def parseField (line : List Char) : Option ParsedHeader :=
  (Text.splitOnce ':' line).map fun (name,value) =>
    (Text.toAsciiLowercase (Text.trim (String.ofList name)),
      (Text.trim (String.ofList value)).toByteArray.data.toList)

def parseResponseHead (head : List UInt8) : Option (Nat × List ParsedHeader) := do
  let text ← Utf8.fromUtf8 head
  let lines := splitCrlf text
  let statusLine ← lines.head?
  let code ← (splitWhitespace statusLine)[1]?
  let status ← Text.parseUnsigned (2^16) code
  some (status,lines.tail.filterMap parseField)

def isChunked (headers : List ParsedHeader) : Bool :=
  headers.any fun (name,value) => name = "transfer-encoding" &&
    (Text.toAsciiLowercase (String.ofList (Utf8.fromUtf8Lossy value))).toList.tails.any "chunked".toList.isPrefixOf

def contentLength (headers : List ParsedHeader) : Option Nat := do
  let (_,value) ← headers.find? fun h => h.1 = "content-length"
  let v ← Utf8.fromUtf8 value
  Text.parseUnsigned (2^64) (Text.trimList v)

def hexDigit (c : Char) : Option Nat :=
  if '0' ≤ c ∧ c ≤ '9' then some (c.toNat - '0'.toNat)
  else if 'a' ≤ c ∧ c ≤ 'f' then some (c.toNat - 'a'.toNat + 10)
  else if 'A' ≤ c ∧ c ≤ 'F' then some (c.toNat - 'A'.toNat + 10)
  else none

def hexValue : Nat → List Char → Option Nat
  | n, [] => some n
  | n, c :: cs => (hexDigit c).bind fun d => hexValue (n * 16 + d) cs

/-- `usize::from_str_radix(_, 16)`: a plus sign may stand first. -/
def fromStrRadix16 (cs : List Char) : Option Nat :=
  let digits := match cs with | '+' :: rest => rest | _ => cs
  if digits = [] then none else (hexValue 0 digits).filter (· < 2^64)

/-- The size in a line that may carry extensions; a line that is no text has none. -/
def chunkSize (line : List UInt8) : Option Nat :=
  fromStrRadix16 (match Utf8.fromUtf8 line with
    | some text => Text.trimList (text.takeWhile (· ≠ ';'))
    | none => [])

def maxProxyResponseBytes : Nat := 32 * 1024 * 1024

/-- How the reading of a body ends: `out` is what it has put together, also when it fails. -/
structure Ended (σ : Type) where
  ok : Bool
  out : List UInt8
  state : σ

def trailers (r : Reader σ) (s : σ) : Bool × σ :=
  match _line : r.line 4096 s with
  | (none,s') => (false,s')
  | (some line,s') => if line = [] then (true,s') else trailers r s'
termination_by r.left s
decreasing_by exact r.line_left _ _ _ _ _line

def chunks (r : Reader σ) (out : List UInt8) (s : σ) : Ended σ :=
  match _line : r.line 128 s with
  | (none,s') => ⟨false,out,s'⟩
  | (some line,s') =>
    match chunkSize line with
    | none => ⟨false,out,s'⟩
    | some size =>
      if size > maxProxyResponseBytes ∨ out.length + size > maxProxyResponseBytes then ⟨false,out,s'⟩
      else if size = 0 then ⟨(trailers r s').1,out,(trailers r s').2⟩
      else
        match _payload : r.take (size + 2) s' with
        | (none,s'') => ⟨false,out,s''⟩
        | (some bytes,s'') => chunks r (out ++ bytes.take size) s''
termination_by r.left s
decreasing_by exact Nat.lt_trans (r.take_left _ _ _ _ (Nat.succ_pos _) _payload) (r.line_left _ _ _ _ _line)

/-- The loops without the proofs that they end. -/
theorem trailers_eq (r : Reader σ) (s : σ) : trailers r s =
    match r.line 4096 s with
    | (none,s') => (false,s')
    | (some line,s') => if line = [] then (true,s') else trailers r s' := by
  rw [trailers.eq_def]
  split
  next line => rw [line]
  next line => rw [line]

theorem chunks_eq (r : Reader σ) (out : List UInt8) (s : σ) : chunks r out s =
    match r.line 128 s with
    | (none,s') => ⟨false,out,s'⟩
    | (some line,s') =>
      match chunkSize line with
      | none => ⟨false,out,s'⟩
      | some size =>
        if size > maxProxyResponseBytes ∨ out.length + size > maxProxyResponseBytes then ⟨false,out,s'⟩
        else if size = 0 then ⟨(trailers r s').1,out,(trailers r s').2⟩
        else
          match r.take (size + 2) s' with
          | (none,s'') => ⟨false,out,s''⟩
          | (some bytes,s'') => chunks r (out ++ bytes.take size) s'' := by
  rw [chunks.eq_def]
  split
  next line => rw [line]
  next l s' line =>
    rw [line]
    dsimp only
    cases chunkSize l with
    | none => rfl
    | some size =>
      dsimp only
      split
      · rfl
      · split
        · rfl
        · split
          next payload => rw [payload]
          next payload => rw [payload]

def readResponseBody (r : Reader σ) (headers : List ParsedHeader) (s : σ) : Ended σ :=
  if isChunked headers then chunks r [] s
  else
    let (body,s') := match contentLength headers with
      | some len => r.take len s
      | none => r.toEnd s
    ⟨body.isSome,body.getD [],s'⟩

structure Response where
  head : List UInt8
  status : Nat
  headers : List ParsedHeader
  body : List UInt8
  deriving DecidableEq, Repr

def readResponse (r : Reader σ) (s : σ) : Option Response :=
  match r.head s with
  | (none,_) => none
  | (some head,s') => do
    let (status,headers) ← parseResponseHead head
    let ended := readResponseBody r headers s'
    if ended.ok then some ⟨head,status,headers,ended.out⟩ else none

theorem checkLine_done (is : checkLine cap buf = .done pos) : position crlf buf = some pos ∧ pos ≤ cap := by
  unfold checkLine at is
  split at is
  next at_ found =>
    split at is
    · simp at is
    next short => cases is; exact ⟨found,Nat.le_of_not_lt short⟩
  next => split at is <;> simp at is

theorem checkHead_done (is : checkHead buf = .done end_) : ∃ at_, position headEnd buf = some at_ ∧ end_ = at_ + 4 := by
  unfold checkHead at is
  split at is
  next at_ found => cases is; exact ⟨at_,found,rfl⟩
  next => split at is <;> simp at is

theorem checkLength_done (is : checkLength n buf = .done ()) : n ≤ buf.length := by
  unfold checkLength at is
  split at is
  · simp at is
  next long => exact Nat.le_of_not_lt long

/-- A pattern found in the buffer is where it is in all the bytes. -/
theorem position_bytes (c : Conn) (some_ : pattern ≠ []) (found : position pattern c.buf = some at_) :
    position pattern c.bytes = some at_ := by
  rw [c.buf_eq_take,position_take _ _ some_] at found
  exact Option.eq_some_of_filter_eq_some found

section Took

variable {c c' : Conn}

theorem readResponseHead_some (took : readResponseHead c = (some head,c')) : ∃ at_ d,
    fill 4096 checkHead none c = (some (at_ + 4),d) ∧ at_ + 4 ≤ d.buf.length ∧
    position headEnd c.bytes = some at_ ∧ head = c.bytes.take (at_ + 4) ∧ c'.bytes = c.bytes.drop (at_ + 4) ∧
    c'.ending = c.ending := by
  unfold readResponseHead at took
  split at took
  next end_ d filled =>
    obtain ⟨taken,rfl⟩ := Prod.mk.inj took
    obtain ⟨is,same,ending⟩ := fill_found c (by decide) filled
    obtain ⟨at_,found,rfl⟩ := checkHead_done is
    have inside : at_ + 4 ≤ d.buf.length := (position_eq_some found).2
    obtain ⟨head_,rest⟩ := d.drain_bytes (at_ + 4) 0 inside
    refine ⟨at_,d,filled,inside,?_,?_,?_,ending⟩
    · rw [← same]
      exact position_bytes d (by decide) found
    · rw [← same,← head_]
      exact (Option.some.inj taken).symm
    · rw [← same,rest]
  next => simp at took

/-- A line that was taken ends at the first line break of the bytes. -/
theorem takeLine_some (took : takeLine cap c = (some line,c')) : ∃ pos, position crlf c.bytes = some pos ∧ pos ≤ cap ∧
    line = c.bytes.take pos ∧ c'.bytes = c.bytes.drop (pos + 2) ∧ c'.ending = c.ending := by
  unfold takeLine at took
  split at took
  next pos d filled =>
    obtain ⟨taken,rfl⟩ := Prod.mk.inj took
    obtain ⟨is,same,ending⟩ := fill_found c (by decide) filled
    obtain ⟨found,short⟩ := checkLine_done is
    obtain ⟨line_,rest⟩ := d.drain_bytes pos 2 (position_eq_some found).2
    refine ⟨pos,?_,short,?_,?_,ending⟩
    · rw [← same]
      exact position_bytes d (by decide) found
    · rw [← same,← line_]
      exact (Option.some.inj taken).symm
    · rw [← same,rest]
  next => simp at took

theorem takeBytes_some (took : takeBytes n c = (some bytes,c')) : n ≤ c.bytes.length ∧ bytes = c.bytes.take n ∧
    c'.bytes = c.bytes.drop n ∧ c'.ending = c.ending := by
  unfold takeBytes at took
  split at took
  next d filled =>
    obtain ⟨taken,rfl⟩ := Prod.mk.inj took
    obtain ⟨is,same,ending⟩ := fill_found c (by decide) filled
    have long := checkLength_done is
    obtain ⟨bytes_,rest⟩ := d.drain_bytes n 0 long
    refine ⟨?_,?_,?_,ending⟩
    · rw [← same,Conn.bytes,List.length_append]
      omega
    · rw [← same,← bytes_]
      exact (Option.some.inj taken).symm
    · rw [← same,rest]
      rfl
  next => simp at took

theorem readToEnd_some (took : readToEnd c = (some bytes,c')) : c.ending = .eof ∧ bytes = c.bytes ∧
    c'.bytes = [] ∧ c'.ending = c.ending := by
  unfold readToEnd at took
  split at took
  next d filled =>
    obtain ⟨taken,rfl⟩ := Prod.mk.inj took
    have kept := fill_kept 8192 (fun _ => Verdict.more) (some ()) c (by decide)
    rw [filled] at kept
    rcases fill_some c (by decide) filled with found | ⟨_,_,none_,closed⟩
    · simp at found
    · have whole : d.buf = c.bytes := by rw [← kept.1,Conn.bytes,none_,List.append_nil]
      refine ⟨kept.2.symm.trans closed,?_,?_,kept.2⟩
      · rw [← whole]
        exact (Option.some.inj taken).symm
      · exact none_
  next => simp at took

end Took

def socket : Reader Conn where
  head := readResponseHead
  line := takeLine
  take := takeBytes
  toEnd := readToEnd
  left c := c.bytes.length
  line_left cap c line c' took := by
    obtain ⟨pos,found,_,_,rest,_⟩ := takeLine_some took
    have inside : pos + 2 ≤ c.bytes.length := (position_eq_some found).2
    rw [rest,List.length_drop]
    omega
  take_left n c bytes c' positive took := by
    obtain ⟨long,_,rest,_⟩ := takeBytes_some took
    rw [rest,List.length_drop]
    omega

end Malkuth.BackendResponse
