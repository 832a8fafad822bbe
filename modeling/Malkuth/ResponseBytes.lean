import Malkuth.BackendResponse

/-! A response as bytes alone, without reads. Both ways of reading run the same code, so it is
enough to compare what their readers take: every answer from the socket is one from the bytes
with the widest limits, and every answer from the bytes with one byte to spare at each limit
is one from the socket, however the bytes are cut. -/
namespace Malkuth.BackendResponse

open Buffered

theorem line_shorter (took : (match position crlf bytes with
    | some pos => if pos + slack ≤ cap then (some (bytes.take pos),bytes.drop (pos + 2)) else (none,bytes)
    | none => (none,bytes)) = (some line,rest)) : rest.length < bytes.length := by
  split at took
  next pos found =>
    split at took
    next =>
      have inside : pos + 2 ≤ bytes.length := (position_eq_some found).2
      obtain ⟨_,rfl⟩ := Prod.mk.inj took
      rw [List.length_drop]
      omega
    next => simp at took
  next => simp at took

theorem take_shorter {bytes : List UInt8} (positive : 0 < n)
    (took : (if n ≤ bytes.length then (some (bytes.take n),bytes.drop n) else (none,bytes)) = (some line,rest)) :
    rest.length < bytes.length := by
  split at took
  next long =>
    obtain ⟨_,rfl⟩ := Prod.mk.inj took
    rw [List.length_drop]
    omega
  next => simp at took

/-- The bytes themselves. A line may have `cap` bytes less `slack`, the head at most
`headLimit`. -/
def bytesReader (slack headLimit : Nat) (ending : Ending) : Reader (List UInt8) where
  head bytes :=
    match position headEnd bytes with
    | some at_ => if at_ + 4 ≤ headLimit then (some (bytes.take (at_ + 4)),bytes.drop (at_ + 4)) else (none,bytes)
    | none => (none,bytes)
  line cap bytes :=
    match position crlf bytes with
    | some pos => if pos + slack ≤ cap then (some (bytes.take pos),bytes.drop (pos + 2)) else (none,bytes)
    | none => (none,bytes)
  take n bytes := if n ≤ bytes.length then (some (bytes.take n),bytes.drop n) else (none,bytes)
  toEnd bytes := (if ending = .eof then some bytes else none,[])
  left bytes := bytes.length
  line_left _ _ _ _ took := line_shorter took
  take_left _ _ _ _ positive took := take_shorter positive took

/-- The most that a head may have at all: a read of 4096 bytes after 65535. -/
def headMost : Nat := 64 * 1024 - 1 + 4096

def tight (ending : Ending) : Reader (List UInt8) := bytesReader 1 (64 * 1024) ending

def wide (ending : Ending) : Reader (List UInt8) := bytesReader 0 headMost ending

section Bytes

variable {slack headLimit : Nat} {ending : Ending} {bytes : List UInt8}

theorem bytes_head_some (took : (bytesReader slack headLimit ending).head bytes = (some head,rest)) :
    ∃ at_, position headEnd bytes = some at_ ∧ at_ + 4 ≤ headLimit ∧ head = bytes.take (at_ + 4) ∧
      rest = bytes.drop (at_ + 4) := by
  simp only [bytesReader] at took
  split at took
  next at_ found =>
    split at took
    next short =>
      obtain ⟨taken,rfl⟩ := Prod.mk.inj took
      exact ⟨at_,found,short,(Option.some.inj taken).symm,rfl⟩
    next => simp at took
  next => simp at took

theorem bytes_head (found : position headEnd bytes = some at_) (short : at_ + 4 ≤ headLimit) :
    (bytesReader slack headLimit ending).head bytes = (some (bytes.take (at_ + 4)),bytes.drop (at_ + 4)) := by
  simp only [bytesReader,found,if_pos short]

theorem bytes_line_some (took : (bytesReader slack headLimit ending).line cap bytes = (some line,rest)) :
    ∃ pos, position crlf bytes = some pos ∧ pos + slack ≤ cap ∧ line = bytes.take pos ∧ rest = bytes.drop (pos + 2) := by
  simp only [bytesReader] at took
  split at took
  next pos found =>
    split at took
    next short =>
      obtain ⟨taken,rfl⟩ := Prod.mk.inj took
      exact ⟨pos,found,short,(Option.some.inj taken).symm,rfl⟩
    next => simp at took
  next => simp at took

theorem bytes_line (found : position crlf bytes = some pos) (short : pos + slack ≤ cap) :
    (bytesReader slack headLimit ending).line cap bytes = (some (bytes.take pos),bytes.drop (pos + 2)) := by
  simp only [bytesReader,found,if_pos short]

theorem bytes_take_some (took : (bytesReader slack headLimit ending).take n bytes = (some taken,rest)) :
    n ≤ bytes.length ∧ taken = bytes.take n ∧ rest = bytes.drop n := by
  simp only [bytesReader] at took
  split at took
  next long =>
    obtain ⟨taken,rfl⟩ := Prod.mk.inj took
    exact ⟨long,(Option.some.inj taken).symm,rfl⟩
  next => simp at took

theorem bytes_take (n : Nat) (bytes : List UInt8) (long : n ≤ bytes.length) :
    (bytesReader slack headLimit ending).take n bytes = (some (bytes.take n),bytes.drop n) := by
  simp only [bytesReader,if_pos long]

theorem bytes_toEnd_some (took : (bytesReader slack headLimit ending).toEnd bytes = (some taken,rest)) :
    ending = .eof ∧ taken = bytes ∧ rest = [] := by
  simp only [bytesReader] at took
  split at took
  next closed =>
    obtain ⟨taken,rfl⟩ := Prod.mk.inj took
    exact ⟨closed,(Option.some.inj taken).symm,rfl⟩
  next => simp at took

end Bytes

/-- What one reader answers the other answers too, from related states; `First` relates them
before the head. -/
structure Simulates (r₁ : Reader σ) (r₂ : Reader τ) (First R : σ → τ → Prop) : Prop where
  head : First s t → r₁.head s = (some x,s') → ∃ t', r₂.head t = (some x,t') ∧ R s' t'
  line : R s t → r₁.line cap s = (some x,s') → ∃ t', r₂.line cap t = (some x,t') ∧ R s' t'
  take : R s t → r₁.take n s = (some x,s') → ∃ t', r₂.take n t = (some x,t') ∧ R s' t'
  toEnd : R s t → r₁.toEnd s = (some x,s') → ∃ t', r₂.toEnd t = (some x,t') ∧ R s' t'

namespace Simulates

variable {r₁ : Reader σ} {r₂ : Reader τ} {First R : σ → τ → Prop}

theorem trailers (simulates : Simulates r₁ r₂ First R) (s : σ) (t : τ) (related : R s t)
    (ok : (BackendResponse.trailers r₁ s).1 = true) :
    (BackendResponse.trailers r₂ t).1 = true ∧
      R (BackendResponse.trailers r₁ s).2 (BackendResponse.trailers r₂ t).2 := by
  induction s using BackendResponse.trailers.induct r₁ generalizing t with
  | case1 s s' line => simp [trailers_eq,line] at ok
  | case2 s s' line =>
    obtain ⟨t',line',related'⟩ := simulates.line related line
    simpa [trailers_eq,line,line'] using related'
  | case3 s field s' line some_ ih =>
    obtain ⟨t',line',related'⟩ := simulates.line related line
    rw [trailers_eq r₁ s,line,trailers_eq r₂ t,line']
    rw [trailers_eq,line] at ok
    simp only [some_,if_false] at ok ⊢
    exact ih t' related' ok

/-- Every turn of the loop of one reader is one of the other. -/
theorem chunks (simulates : Simulates r₁ r₂ First R) (out : List UInt8) (s : σ) (t : τ) (related : R s t)
    (ok : (BackendResponse.chunks r₁ out s).ok = true) :
    (BackendResponse.chunks r₂ out t).ok = true ∧
      (BackendResponse.chunks r₂ out t).out = (BackendResponse.chunks r₁ out s).out ∧
      R (BackendResponse.chunks r₁ out s).state (BackendResponse.chunks r₂ out t).state := by
  induction out, s using BackendResponse.chunks.induct r₁ generalizing t with
  | case1 out s s' line => simp [chunks_eq,line] at ok
  | case2 out s l s' line size => simp [chunks_eq,line,size] at ok
  | case3 out s l s' line n size large => simp [chunks_eq,line,size,large] at ok
  | case4 out s l s' line fits size =>
    obtain ⟨t',line',related'⟩ := simulates.line related line
    rw [chunks_eq r₁,line,chunks_eq r₂,line']
    rw [chunks_eq,line] at ok
    simp only [size,fits,if_true,if_false] at ok ⊢
    obtain ⟨ended,related''⟩ := simulates.trailers s' t' related' ok
    exact ⟨ended,trivial,related''⟩
  | case5 out s l s' line n size fits some_ s'' payload => simp [chunks_eq,line,size,fits,some_,payload] at ok
  | case6 out s l s' line n size fits some_ bytes s'' payload ih =>
    obtain ⟨t',line',related'⟩ := simulates.line related line
    obtain ⟨t'',payload',related''⟩ := simulates.take related' payload
    rw [chunks_eq r₁,line,chunks_eq r₂,line']
    rw [chunks_eq,line] at ok
    simp only [size,fits,some_,payload,payload',if_false] at ok ⊢
    exact ih t'' related'' ok

theorem body (simulates : Simulates r₁ r₂ First R) (headers : List ParsedHeader) (s : σ) (t : τ) (related : R s t)
    (ok : (readResponseBody r₁ headers s).ok = true) :
    (readResponseBody r₂ headers t).ok = true ∧
      (readResponseBody r₂ headers t).out = (readResponseBody r₁ headers s).out ∧
      R (readResponseBody r₁ headers s).state (readResponseBody r₂ headers t).state := by
  unfold readResponseBody at ok ⊢
  cases framing : isChunked headers with
  | true =>
    simp only [framing,if_true] at ok ⊢
    exact simulates.chunks [] s t related ok
  | false =>
    have whole (p : Option (List UInt8) × σ) (q : Option (List UInt8) × τ)
        (follows : ∀ x s', p = (some x,s') → ∃ t', q = (some x,t') ∧ R s' t') (ok : p.1.isSome = true) :
        q.1.isSome = true ∧ q.1.getD [] = p.1.getD [] ∧ R p.2 q.2 := by
      obtain ⟨x,taken⟩ := Option.isSome_iff_exists.mp ok
      obtain ⟨t',rfl,related'⟩ := follows x p.2 (by rw [← taken])
      exact ⟨rfl,by rw [taken],related'⟩
    simp only [framing,Bool.false_eq_true,if_false] at ok ⊢
    cases length : contentLength headers with
    | some len =>
      rw [length] at ok
      exact whole _ _ (fun x s' => simulates.take related) ok
    | none =>
      rw [length] at ok
      exact whole _ _ (fun x s' => simulates.toEnd related) ok

theorem response (simulates : Simulates r₁ r₂ First R) (s : σ) (t : τ) (first : First s t)
    (answered : readResponse r₁ s = some answer) : readResponse r₂ t = some answer := by
  unfold readResponse at answered ⊢
  split at answered
  next => simp at answered
  next head s' took =>
    obtain ⟨t',took',related⟩ := simulates.head first took
    rw [took']
    cases parsed : parseResponseHead head with
    | none => simp [parsed] at answered
    | some fields =>
      obtain ⟨status,headers⟩ := fields
      simp only [parsed,Option.bind_eq_bind,Option.bind_some] at answered ⊢
      split at answered
      next ok =>
        obtain ⟨ended,out,_⟩ := simulates.body headers s' t' related ok
        rw [if_pos ended,out]
        exact answered
      next => simp at answered

end Simulates

section Reaches

variable {c : Conn}

/-- The first occurrence is in every buffer that does not end before it does. -/
theorem position_there (d : Conn) (same : d.bytes = c.bytes) (found : position pattern c.bytes = some at_)
    (reached : at_ + pattern.length ≤ d.buf.length) (some_ : pattern ≠ []) : position pattern d.buf = some at_ := by
  rw [d.buf_eq_take,position_take _ _ some_,same,found]
  simp [Option.filter,reached]

theorem position_absent (d : Conn) (same : d.bytes = c.bytes) (found : position pattern c.bytes = some at_)
    (less : d.buf.length < at_ + pattern.length) (some_ : pattern ≠ []) : position pattern d.buf = none := by
  rw [d.buf_eq_take,position_take _ _ some_,same,found]
  simp [Option.filter,less]

/-- The loops take what is there, whatever `I` says of the buffers on the way, as long as none
of these is refused. -/
theorem takeLine_reaches (cap : Nat) (I : Conn → Prop) (first : I c) (found : position crlf c.bytes = some pos) (short : pos ≤ cap)
    (keeps : ∀ d k d', I d → d.bytes = c.bytes → d.buf.length < pos + 2 → d.read 8192 = (some (k + 1),d') → I d')
    (room : ∀ d, I d → d.bytes = c.bytes → d.buf.length < pos + 2 → d.buf.length ≤ cap) :
    ∃ d, I d ∧ pos + 2 ≤ d.buf.length ∧ d.bytes = c.bytes ∧ d.ending = c.ending ∧
      takeLine cap c = (some (c.bytes.take pos),(d.drain pos 2).2) := by
  have inside : pos + 2 ≤ c.bytes.length := (position_eq_some found).2
  obtain ⟨d,holds,reached,same,ending,eq⟩ := fill_reaches 8192 (checkLine cap) none I (pos + 2) c
    (by decide) first inside keeps (by
      intro d holds same less
      have absent := position_absent d same found less (by decide)
      have low := room d holds same less
      simp [checkLine,absent,Nat.not_lt.mpr low])
  have here : checkLine cap d.buf = .done pos := by
    have there := position_there d same found reached (by decide)
    simp [checkLine,there,Nat.not_lt.mpr short]
  refine ⟨d,holds,reached,same,ending,?_⟩
  rw [takeLine,eq,fill_done d here,← same,← (d.drain_bytes pos 2 reached).1]

theorem takeBytes_reaches (I : Conn → Prop) (first : I c) (long : n ≤ c.bytes.length)
    (keeps : ∀ d k d', I d → d.bytes = c.bytes → d.buf.length < n → d.read 8192 = (some (k + 1),d') → I d') :
    ∃ d, I d ∧ n ≤ d.buf.length ∧ d.bytes = c.bytes ∧ d.ending = c.ending ∧
      takeBytes n c = (some (c.bytes.take n),(d.drain n 0).2) := by
  obtain ⟨d,holds,reached,same,ending,eq⟩ := fill_reaches 8192 (checkLength n) none I n c
    (by decide) first long keeps (by
      intro d _ _ less
      simp [checkLength,less])
  have here : checkLength n d.buf = .done () := by simp [checkLength,Nat.not_lt.mpr reached]
  refine ⟨d,holds,reached,same,ending,?_⟩
  rw [takeBytes,eq,fill_done d here,← same,← (d.drain_bytes n 0 reached).1]

theorem readResponseHead_reaches (I : Conn → Prop) (first : I c) (found : position headEnd c.bytes = some at_)
    (keeps : ∀ d k d', I d → d.bytes = c.bytes → d.buf.length < at_ + 4 → d.read 4096 = (some (k + 1),d') → I d')
    (room : ∀ d, I d → d.bytes = c.bytes → d.buf.length < at_ + 4 → d.buf.length < 64 * 1024) :
    ∃ d, I d ∧ at_ + 4 ≤ d.buf.length ∧ d.bytes = c.bytes ∧ d.ending = c.ending ∧
      readResponseHead c = (some (c.bytes.take (at_ + 4)),(d.drain (at_ + 4) 0).2) := by
  have inside : at_ + 4 ≤ c.bytes.length := (position_eq_some found).2
  obtain ⟨d,holds,reached,same,ending,eq⟩ := fill_reaches 4096 checkHead none I (at_ + 4) c
    (by decide) first inside keeps (by
      intro d holds same less
      have absent := position_absent d same found less (by decide)
      have low := room d holds same less
      simp [checkHead,absent,Nat.not_le.mpr low])
  have here : checkHead d.buf = .done (at_ + 4) := by
    have there := position_there d same found reached (by decide)
    simp [checkHead,there]
  refine ⟨d,holds,reached,same,ending,?_⟩
  rw [readResponseHead,eq,fill_done d here,← same,← (d.drain_bytes (at_ + 4) 0 reached).1]

theorem readToEnd_reaches (closed : c.ending = .eof) : ∃ d, d.bytes = [] ∧ d.ending = c.ending ∧
    d.pieces = [] ∧ readToEnd c = (some c.bytes,d) := by
  obtain ⟨d,_,reached,same,ending,eq⟩ := fill_reaches 8192 (fun _ => Verdict.more) (some ())
    (fun _ => True) c.bytes.length c (by decide) trivial (Nat.le_refl _) (by simp) (by simp)
  have last : d.unread = [] := by
    rw [← same,Conn.bytes,List.length_append] at reached
    exact List.length_eq_zero_iff.mp (by omega)
  have whole : d.buf = c.bytes := by rw [← same,Conn.bytes,last,List.append_nil]
  refine ⟨{ d with buf := [], pieces := [] },rfl,ending,rfl,?_⟩
  rw [readToEnd,eq,fill_last d (by decide) rfl last]
  simp [ending,closed,whole]

end Reaches

def Carries (ending : Ending) (c : Conn) (bytes : List UInt8) : Prop := c.bytes = bytes ∧ c.ending = ending

/-- What is read from the socket is in the bytes, within the widest limits. -/
theorem socket_wide (ending : Ending) :
    Simulates socket (wide ending) (fun c bytes => c.buf = [] ∧ Carries ending c bytes) (Carries ending) where
  head := by
    rintro c _ head c' ⟨empty,rfl,rfl⟩ took
    obtain ⟨at_,d,filled,inside,found,rfl,rest,end_⟩ := readResponseHead_some took
    have bound := fill_keeps 4096 checkHead none (fun d => d.buf.length ≤ headMost) c
      (by simp [empty]) (by
        intro d _ more
        have low : d.buf.length < 64 * 1024 := by
          by_contra high
          unfold checkHead at more
          split at more
          · simp at more
          · rw [if_pos (Nat.le_of_not_lt high)] at more
            simp at more
        have long := read_length 4096 (by decide) d
        unfold headMost
        omega)
    rw [filled] at bound
    exact ⟨_,bytes_head found (inside.trans bound),rest,end_⟩
  line := by
    rintro c _ cap line c' ⟨rfl,rfl⟩ took
    obtain ⟨pos,found,short,rfl,rest,end_⟩ := takeLine_some took
    exact ⟨_,bytes_line found short,rest,end_⟩
  take := by
    rintro c _ n bytes c' ⟨rfl,rfl⟩ took
    obtain ⟨long,rfl,rest,end_⟩ := takeBytes_some took
    exact ⟨_,bytes_take n _ long,rest,end_⟩
  toEnd := by
    rintro c _ bytes c' ⟨rfl,rfl⟩ took
    obtain ⟨closed,rfl,rest,end_⟩ := readToEnd_some took
    exact ⟨[],by simp [wide,bytesReader,closed],rest,end_⟩

/-- What is in the bytes with a byte to spare at every limit is read from the socket. -/
theorem tight_socket (ending : Ending) :
    Simulates (tight ending) socket (fun bytes c => Carries ending c bytes) (fun bytes c => Carries ending c bytes) where
  head := by
    rintro _ c head rest ⟨rfl,rfl⟩ took
    obtain ⟨at_,found,short,rfl,rfl⟩ := bytes_head_some took
    obtain ⟨d,_,reached,same,end_,eq⟩ := readResponseHead_reaches (fun _ => True) trivial found (by simp) (by
      intro d _ _ less
      omega)
    exact ⟨_,eq,by rw [(d.drain_bytes _ 0 reached).2,same],end_⟩
  line := by
    rintro _ c cap line rest ⟨rfl,rfl⟩ took
    obtain ⟨pos,found,short,rfl,rfl⟩ := bytes_line_some took
    obtain ⟨d,_,reached,same,end_,eq⟩ := takeLine_reaches cap (fun _ => True) trivial found (by omega) (by simp) (by
      intro d _ _ less
      omega)
    exact ⟨_,eq,by rw [(d.drain_bytes _ 2 reached).2,same],end_⟩
  take := by
    rintro _ c n bytes rest ⟨rfl,rfl⟩ took
    obtain ⟨long,rfl,rfl⟩ := bytes_take_some took
    obtain ⟨d,_,reached,same,end_,eq⟩ := takeBytes_reaches (fun _ => True) trivial long (by simp)
    exact ⟨_,eq,by rw [(d.drain_bytes _ 0 reached).2,same]; rfl,end_⟩
  toEnd := by
    rintro _ c bytes rest ⟨rfl,rfl⟩ took
    obtain ⟨closed,rfl,rfl⟩ := bytes_toEnd_some took
    obtain ⟨d,none_,end_,_,eq⟩ := readToEnd_reaches closed
    exact ⟨d,eq,none_,end_⟩

end Malkuth.BackendResponse
