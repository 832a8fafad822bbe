import Mathlib.Data.List.Basic
import Mathlib.Data.List.Infix

/-! A connection that is read piece by piece into a buffer, and the loop that reads until the
buffer holds what it waits for. How the bytes are cut into pieces is no part of what they
say: the rules below tell what a loop comes to from the bytes alone. -/
namespace Buffered

/-- How a connection is after its last byte: closed, or broken (or silent for too long). -/
inductive Ending where
  | eof
  | failed
  deriving DecidableEq, Repr

/-- The bytes read and not yet taken, and the pieces to come. A piece of no bytes is none.
`held` is the most that the buffer has held. -/
structure Conn where
  buf : List UInt8
  pieces : List (List UInt8)
  ending : Ending
  held : Nat
  deriving DecidableEq, Repr

namespace Conn

def start (leftover : List UInt8) (pieces : List (List UInt8)) (ending : Ending) : Conn :=
  ⟨leftover,pieces,ending,leftover.length⟩

def unread (c : Conn) : List UInt8 := c.pieces.flatten

def bytes (c : Conn) : List UInt8 := c.buf ++ c.unread

/-- Takes the first bytes out of the buffer, with those of `lost` after them. -/
def drain (c : Conn) (n lost : Nat) : List UInt8 × Conn := (c.buf.take n,{ c with buf := c.buf.drop (n + lost) })

theorem buf_eq_take (c : Conn) : c.buf = c.bytes.take c.buf.length := by simp [bytes]

theorem drain_bytes (c : Conn) (n lost : Nat) (there : n + lost ≤ c.buf.length) :
    (c.drain n lost).1 = c.bytes.take n ∧ (c.drain n lost).2.bytes = c.bytes.drop (n + lost) := by
  refine ⟨?_,?_⟩
  · rw [bytes,List.take_append_of_le_length (by omega)]
    rfl
  · rw [bytes,bytes,List.drop_append_of_le_length there]
    rfl

end Conn

def next (size : Nat) : List (List UInt8) → Option (List UInt8 × List (List UInt8))
  | [] => none
  | [] :: more => next size more
  | (b :: piece) :: more => some ((b :: piece).take size,(b :: piece).drop size :: more)

/-- One read into the buffer: the number of bytes, none after the last. -/
def Conn.read (size : Nat) (c : Conn) : Option Nat × Conn :=
  match next size c.pieces with
  | some (bytes,pieces) => (some bytes.length,
      { c with buf := c.buf ++ bytes, pieces := pieces, held := max c.held (c.buf.length + bytes.length) })
  | none => (if c.ending = .eof then some 0 else none,{ c with pieces := [] })

theorem next_eq_some (found : next size pieces = some (bytes,rest)) : ∃ skipped piece more,
    pieces = skipped ++ piece :: more ∧ (∀ s ∈ skipped, s = []) ∧ piece ≠ [] ∧ bytes = piece.take size ∧
      rest = piece.drop size :: more := by
  induction pieces using next.induct with
  | case1 => simp [next] at found
  | case2 more ih =>
    obtain ⟨skipped,piece,others,rfl,empty,rest⟩ := ih found
    exact ⟨[] :: skipped,piece,others,rfl,by simpa using empty,rest⟩
  | case3 b piece more =>
    obtain ⟨rfl,rfl⟩ := Prod.mk.inj (Option.some.inj found)
    exact ⟨[],b :: piece,more,rfl,by simp,by simp,rfl,rfl⟩

theorem next_eq_none (none_ : next size pieces = none) : pieces.flatten = [] := by
  induction pieces using next.induct with
  | case1 => rfl
  | case2 more ih => simpa using ih none_
  | case3 => simp [next] at none_

inductive Reads (size : Nat) (c : Conn) : Option Nat → Conn → Prop where
  | some (got : next size c.pieces = .some (b :: bytes,pieces)) (few : bytes.length < size)
      (cut : c.unread = b :: bytes ++ pieces.flatten) :
      Reads size c (.some (bytes.length + 1)) { c with
        buf := c.buf ++ b :: bytes
        pieces := pieces
        held := max c.held (c.buf.length + (bytes.length + 1)) }
  | eof (last : c.unread = []) (closed : c.ending = .eof) : Reads size c (.some 0) { c with pieces := [] }
  | failed (last : c.unread = []) (broken : c.ending = .failed) : Reads size c none { c with pieces := [] }

theorem read_reads (c : Conn) (positive : 0 < size) : Reads size c (c.read size).1 (c.read size).2 := by
  unfold Conn.read
  cases got : next size c.pieces with
  | none =>
    have last : c.unread = [] := next_eq_none got
    cases ending : c.ending with
    | eof => simpa [ending] using Reads.eof last ending
    | failed => simpa [ending] using Reads.failed last ending
  | some found =>
    obtain ⟨bytes,pieces⟩ := found
    obtain ⟨skipped,piece,more,cut,empty,some_,taken,rest⟩ := next_eq_some got
    have whole : c.unread = bytes ++ pieces.flatten := by
      have none_ : skipped.flatten = [] := by simpa using empty
      simp [Conn.unread,cut,taken,rest,none_,← List.append_assoc]
    have few : bytes.length ≤ size := by rw [taken]; exact List.length_take_le ..
    cases bytes with
    | nil =>
      have zero := congrArg List.length taken
      have long := List.length_pos_of_ne_nil some_
      simp only [List.length_nil,List.length_take] at zero
      omega
    | cons b bytes => exact .some got few whole

variable {c c' : Conn} {size n : Nat}

theorem read_more (read : c.read size = (some (n + 1),c')) : ∃ bytes : List UInt8, bytes.length = n + 1 ∧ n < size ∧
    c'.buf = c.buf ++ bytes ∧ c.unread = bytes ++ c'.unread ∧ c'.ending = c.ending ∧
    c'.held = max c.held c'.buf.length := by
  rcases Nat.eq_zero_or_pos size with rfl | positive
  · unfold Conn.read at read
    cases got : next 0 c.pieces with
    | none =>
      rw [got] at read
      dsimp only at read
      split at read <;> simp at read
    | some found =>
      obtain ⟨_,_,_,_,_,_,taken,_⟩ := next_eq_some got
      rw [got] at read
      simp [taken] at read
  · have reads := read_reads c positive
    rw [read] at reads
    cases reads with
    | some got few cut => exact ⟨_,rfl,few,rfl,cut,rfl,by simp⟩

theorem read_unread (c : Conn) (positive : 0 < size) (unread : c.unread ≠ []) :
    ∃ k c', c.read size = (some (k + 1),c') := by
  have reads := read_reads c positive
  generalize eq : c.read size = result at reads
  obtain ⟨count,c'⟩ := result
  cases reads with
  | some => exact ⟨_,_,rfl⟩
  | eof last | failed last => exact absurd last unread

theorem read_last (c : Conn) (positive : 0 < size) (last : c.unread = []) :
    c.read size = (if c.ending = .eof then some 0 else none,{ c with pieces := [] }) := by
  have reads := read_reads c positive
  generalize c.read size = result at reads
  obtain ⟨count,c'⟩ := result
  cases reads with
  | some _ _ cut => simp [last] at cut
  | eof _ closed => simp [closed]
  | failed _ broken => simp [broken]

inductive Verdict (α : Type) where
  | more
  | done (answer : α)
  | refused
  deriving DecidableEq, Repr

/-- Reads until the buffer is enough, or too much; `atEof` is the answer if it never is. -/
def fill (size : Nat) (check : List UInt8 → Verdict α) (atEof : Option α) (c : Conn) : Option α × Conn :=
  match check c.buf with
  | .done answer => (some answer,c)
  | .refused => (none,c)
  | .more =>
    match _read : c.read size with
    | (none,c') => (none,c')
    | (some 0,c') => (atEof,c')
    | (some (_ + 1),c') => fill size check atEof c'
termination_by c.unread.length
decreasing_by
  obtain ⟨bytes,long,_,_,cut,_⟩ := read_more _read
  rw [cut,List.length_append]
  omega

variable {check : List UInt8 → Verdict α} {atEof : Option α}

theorem fill_done (c : Conn) (is : check c.buf = .done answer) : fill size check atEof c = (some answer,c) := by
  rw [fill,is]

theorem fill_refused (c : Conn) (is : check c.buf = .refused) : fill size check atEof c = (none,c) := by
  rw [fill,is]

/-- One turn of the loop. -/
theorem fill_more (c : Conn) (is : check c.buf = .more) (read : c.read size = (some (n + 1),c')) :
    fill size check atEof c = fill size check atEof c' := by
  rw [fill,is]
  simp only
  split
  next other => rw [read] at other; cases other
  next other => rw [read] at other; cases other
  next other => rw [read] at other; cases other; rfl

/-- The last turn of a loop that has read everything. -/
theorem fill_last (c : Conn) (positive : 0 < size) (is : check c.buf = .more) (last : c.unread = []) :
    fill size check atEof c = (if c.ending = .eof then atEof else none,{ c with pieces := [] }) := by
  have read := read_last c positive last
  rw [fill,is]
  simp only
  split
  next other => rw [read] at other; split at other <;> simp_all
  next other => rw [read] at other; split at other <;> simp_all
  next other => rw [read] at other; split at other <;> simp_all

/-- What every read keeps, as long as the loop goes on, holds when it is over. -/
theorem fill_keeps (size : Nat) (check : List UInt8 → Verdict α) (atEof : Option α) (P : Conn → Prop) (c : Conn)
    (first : P c)
    (keeps : ∀ c, P c → check c.buf = .more → P (c.read size).2) : P (fill size check atEof c).2 := by
  fun_induction fill size check atEof c with
  | case1 | case2 => exact first
  | case3 c is c' read | case4 c is c' read =>
    have kept := keeps c first is
    rwa [read] at kept
  | case5 c is n c' read ih =>
    have kept := keeps c first is
    rw [read] at kept
    exact ih kept

/-- A read loses nothing. -/
theorem read_kept (size : Nat) (positive : 0 < size) (c : Conn) :
    (c.read size).2.bytes = c.bytes ∧ (c.read size).2.ending = c.ending := by
  have reads := read_reads c positive
  generalize (c.read size).1 = count at reads
  generalize (c.read size).2 = c' at reads
  cases reads with
  | some got few cut => exact ⟨by rw [Conn.bytes,Conn.bytes,cut]; simp [Conn.unread],rfl⟩
  | eof last | failed last => exact ⟨by simp [Conn.bytes,last]; simp [Conn.unread],rfl⟩

theorem read_length (size : Nat) (positive : 0 < size) (c : Conn) :
    (c.read size).2.buf.length ≤ c.buf.length + size := by
  have reads := read_reads c positive
  generalize (c.read size).1 = count at reads
  generalize (c.read size).2 = c' at reads
  cases reads with
  | some got few cut => rw [List.length_append,List.length_cons]; omega
  | eof | failed => exact Nat.le_add_right ..

theorem fill_kept (size : Nat) (check : List UInt8 → Verdict α) (atEof : Option α) (c : Conn) (positive : 0 < size) :
    (fill size check atEof c).2.bytes = c.bytes ∧ (fill size check atEof c).2.ending = c.ending := by
  refine fill_keeps size check atEof (fun d => d.bytes = c.bytes ∧ d.ending = c.ending) c ⟨rfl,rfl⟩ ?_
  intro d same _
  obtain ⟨bytes,ending⟩ := read_kept size positive d
  exact ⟨bytes.trans same.1,ending.trans same.2⟩

/-- A loop that has an answer found it in the buffer, or came to the end of the bytes. -/
theorem fill_some (c : Conn) (positive : 0 < size) (answered : fill size check atEof c = (some answer,c')) :
    check c'.buf = .done answer ∨
      (check c'.buf = .more ∧ atEof = some answer ∧ c'.unread = [] ∧ c'.ending = .eof) := by
  fun_induction fill size check atEof c with
  | case1 c found is =>
    obtain ⟨answer,rfl⟩ := Prod.mk.inj answered
    exact .inl (is.trans (congrArg _ (Option.some.inj answer)))
  | case2 | case3 => simp at answered
  | case4 c is m read =>
    obtain ⟨answer,rfl⟩ := Prod.mk.inj answered
    have reads := read_reads c positive
    rw [read] at reads
    cases reads with
    | eof last closed => exact .inr ⟨is,answer,rfl,closed⟩
  | case5 c is n m read ih => exact ih answered

/-- So a loop for which the end is an error has its answer from the buffer. -/
theorem fill_found (c : Conn) (positive : 0 < size) (answered : fill size check none c = (some answer,c')) :
    check c'.buf = .done answer ∧ c'.bytes = c.bytes ∧ c'.ending = c.ending := by
  have kept := fill_kept size check none c positive
  rw [answered] at kept
  rcases fill_some c positive answered with found | ⟨_,none_,_⟩
  · exact ⟨found,kept⟩
  · simp at none_

/-- A loop that goes on until the buffer has `n` bytes comes there, if there are so many.
`I` is what the reads on the way keep. -/
theorem fill_reaches (size : Nat) (check : List UInt8 → Verdict α) (atEof : Option α) (I : Conn → Prop) (n : Nat)
    (c : Conn) (positive : 0 < size) (first : I c)
    (enough : n ≤ c.bytes.length)
    (keeps : ∀ d k d', I d → d.bytes = c.bytes → d.buf.length < n → d.read size = (some (k + 1),d') → I d')
    (more : ∀ d, I d → d.bytes = c.bytes → d.buf.length < n → check d.buf = .more) :
    ∃ d, I d ∧ n ≤ d.buf.length ∧ d.bytes = c.bytes ∧ d.ending = c.ending ∧
      fill size check atEof c = fill size check atEof d := by
  by_cases there : n ≤ c.buf.length
  · exact ⟨c,first,there,rfl,rfl,rfl⟩
  · have short : c.buf.length < n := Nat.lt_of_not_le there
    have unread : c.unread ≠ [] := by
      intro none_
      simp [Conn.bytes,none_] at enough
      omega
    obtain ⟨k,c',read⟩ := read_unread c positive unread
    obtain ⟨kept,ending⟩ := read_kept size positive c
    rw [read] at kept ending
    obtain ⟨bytes,long,_,_,cut,_⟩ := read_more read
    have fewer : c'.unread.length < c.unread.length := by
      rw [cut,List.length_append]
      omega
    obtain ⟨d,holds,reached,same,end_,eq⟩ := fill_reaches size check atEof I n c' positive
      (keeps c k c' first rfl short read) (by rw [kept]; exact enough)
      (fun d k d' holds same => keeps d k d' holds (same.trans kept))
      (fun d holds same => more d holds (same.trans kept))
    refine ⟨d,holds,reached,same.trans kept,end_.trans ending,?_⟩
    rw [fill_more c (more c first rfl short) read]
    exact eq
termination_by c.unread.length

/-- On the way through the first piece. -/
def Approaching (k : Nat) (more : List (List UInt8)) (c : Conn) : Prop :=
  ∃ piece, c.pieces = piece :: more ∧ c.buf.length + piece.length = k

theorem approaching_read (approaching : Approaching k more c) (less : c.buf.length < k)
    (read : c.read size = (some (n + 1),c')) : Approaching k more c' := by
  obtain ⟨piece,is,length⟩ := approaching
  cases piece with
  | nil =>
    rw [List.length_nil] at length
    omega
  | cons b piece =>
    simp only [Conn.read,is,next] at read
    obtain ⟨_,rfl⟩ := Prod.mk.inj read
    refine ⟨_,rfl,?_⟩
    rw [List.length_append,List.length_take,List.length_drop]
    omega

/-- A read takes as much of the piece that comes next as it can. -/
theorem read_piece (size : Nat) (c : Conn) (is : c.pieces = [] :: piece :: more) (some_ : piece ≠ []) :
    c.read size = (some (piece.take size).length,{ c with
      buf := c.buf ++ piece.take size
      pieces := piece.drop size :: more
      held := max c.held (c.buf.length + (piece.take size).length) }) := by
  obtain ⟨b,rest,rfl⟩ := List.exists_cons_of_ne_nil some_
  simp only [Conn.read,is,next]

/-- A loop that waits until the first piece is read takes what it can of the second one next. -/
theorem fill_piece (check : List UInt8 → Verdict α) (atEof : Option α) (c : Conn) (is : c.pieces = first :: piece :: more)
    (positive : 0 < size) (some_ : piece ≠ [])
    (waits : ∀ d : Conn, d.bytes = c.bytes → d.buf.length ≤ c.buf.length + first.length → check d.buf = .more) :
    ∃ d : Conn, d.buf = c.buf ++ first ++ piece.take size ∧ d.pieces = piece.drop size :: more ∧ d.ending = c.ending ∧
      d.buf.length ≤ d.held ∧ fill size check atEof c = fill size check atEof d := by
  have whole : c.bytes = c.buf ++ first ++ (piece ++ more.flatten) := by simp [Conn.bytes,Conn.unread,is]
  obtain ⟨d,⟨left,cut,length⟩,reached,same,end_,eq⟩ := fill_reaches size check atEof
    (Approaching (c.buf.length + first.length) (piece :: more)) (c.buf.length + first.length) c positive
    ⟨first,is,rfl⟩ (by simp [whole])
    (fun d k d' approaching _ less read => approaching_read approaching less read)
    (fun d _ same less => waits d same (Nat.le_of_lt less))
  obtain rfl : left = [] := List.length_eq_zero_iff.mp (by omega)
  have filled : d.buf.length = (c.buf ++ first).length := by simpa using length
  have start : d.buf = c.buf ++ first := by
    rw [d.buf_eq_take,same,whole,filled]
    exact List.take_left
  have read := read_piece size d cut some_
  obtain ⟨k,count⟩ : ∃ k, (piece.take size).length = k + 1 := by
    apply Nat.exists_eq_add_one_of_ne_zero
    have long := List.length_pos_of_ne_nil some_
    rw [List.length_take]
    omega
  rw [count] at read
  refine ⟨_,?_,?_,?_,?_,eq.trans (fill_more d (waits d same (Nat.le_of_eq length)) read)⟩
  · rw [start]
  · rfl
  · exact end_
  · rw [List.length_append,count]
    exact Nat.le_max_right ..

/-- The most ever held is no less than what is held. -/
theorem read_held (size : Nat) (c : Conn) (first : c.buf.length ≤ c.held) :
    (c.read size).2.buf.length ≤ (c.read size).2.held ∧ c.held ≤ (c.read size).2.held := by
  unfold Conn.read
  cases next size c.pieces with
  | none => exact ⟨first,Nat.le_refl _⟩
  | some found => exact ⟨by rw [List.length_append]; exact Nat.le_max_right ..,Nat.le_max_left ..⟩

theorem read_held_le (c : Conn) : (c.read size).2.held ≤ max c.held (c.read size).2.buf.length := by
  unfold Conn.read
  cases next size c.pieces with
  | none => exact Nat.le_max_left ..
  | some found => rw [List.length_append]

def position (pattern : List UInt8) : List UInt8 → Option Nat
  | [] => none
  | b :: rest => if pattern <+: b :: rest then some 0 else (position pattern rest).map (· + 1)

theorem position_eq_some (found : position pattern bytes = some at_) :
    pattern <+: bytes.drop at_ ∧ at_ + pattern.length ≤ bytes.length := by
  induction bytes generalizing at_ with
  | nil => simp [position] at found
  | cons b rest ih =>
    rw [position] at found
    split at found
    next starts =>
      obtain rfl := Option.some.inj found
      exact ⟨starts,by simpa using starts.length_le⟩
    next =>
      obtain ⟨k,further,rfl⟩ := Option.map_eq_some_iff.mp found
      obtain ⟨starts,inside⟩ := ih further
      exact ⟨by simpa using starts,by rw [List.length_cons]; omega⟩

/-- The first occurrence is seen as soon as all of it is there. -/
theorem position_take (pattern bytes : List UInt8) (some_ : pattern ≠ []) (k : Nat) :
    position pattern (bytes.take k) = (position pattern bytes).filter fun at_ => decide (at_ + pattern.length ≤ k) := by
  have long := List.length_pos_of_ne_nil some_
  induction bytes generalizing k with
  | nil => simp [position]
  | cons b rest ih =>
    cases k with
    | zero =>
      rw [List.take_zero,position,eq_comm,Option.filter_eq_none_iff]
      intro at_ _
      simp only [decide_eq_true_eq]
      omega
    | succ k =>
      have starts : pattern <+: b :: rest.take k ↔ pattern <+: b :: rest ∧ pattern.length ≤ k + 1 := by
        rw [← List.take_succ_cons,List.prefix_take_iff]
      rw [List.take_succ_cons,position,position,ih]
      by_cases here : pattern <+: b :: rest
      · by_cases fits : pattern.length ≤ k + 1
        · simp [starts,here,fits,Option.filter]
        · have late : ∀ at_ : Nat, ¬ at_ + pattern.length ≤ k := by omega
          rw [if_neg (by simp [starts,fits]),if_pos here]
          cases position pattern rest <;> simp [Option.filter,fits,late]
      · simp only [starts,here,false_and,if_false]
        cases position pattern rest with
        | none => rfl
        | some at_ =>
          by_cases fits : at_ + pattern.length ≤ k
          · have fits' : at_ + 1 + pattern.length ≤ k + 1 := by omega
            simp [Option.filter,fits,fits']
          · have late : ¬ at_ + 1 + pattern.length ≤ k + 1 := by omega
            simp [Option.filter,fits,late]

/-- Bytes with no occurrence in them, up to a first one. -/
theorem position_append (line rest : List UInt8) (clean : position [13,10] line = none) :
    position [13,10] (line ++ 13 :: 10 :: rest) = some line.length := by
  induction line with
  | nil => simp [position]
  | cons b line ih =>
    rw [position] at clean
    split at clean
    next => contradiction
    next no =>
      have later := ih (Option.map_eq_none_iff.mp clean)
      have here : ¬ [13,10] <+: b :: (line ++ 13 :: 10 :: rest) := by
        cases line with
        | nil => simp
        | cons x line => simpa using no
      rw [List.cons_append,position,if_neg here,later]
      rfl

end Buffered
