import Malkuth.Lines
import Malkuth.Newest
import Malkuth.Text
import Malkuth.Utf8

/-! Log capture of `worker.rs`. A task reads one stream of a child in chunks, keeps the line in
flight in a buffer that it never lets grow past the cap, and puts finished lines into the ring
of the worker. Other tasks may put lines of theirs between them: a ring is filled by all of
them. A read that fails ends the stream as its end does; a poisoned lock is not modelled, since
nothing under it panics. -/
namespace Malkuth.Worker

open Newest Utf8

def logRingCapacity : Nat := 500
def logReadChunkBytes : Nat := 8 * 1024
def logLineMaxBytes : Nat := 8 * 1024

def newline : UInt8 := 10

abbrev Line := List Char

structure WorkerLogRing where
  inner : List Line
  bounded : inner.length ≤ logRingCapacity
  deriving DecidableEq

def WorkerLogRing.new : WorkerLogRing := ⟨[],by decide⟩

def WorkerLogRing.insert (ring : WorkerLogRing) (line : Line) : WorkerLogRing where
  inner := dropThenPush logRingCapacity ring.inner line
  bounded := length_dropThenPush (by decide) ring.bounded line

def WorkerLogRing.tail (ring : WorkerLogRing) (maxLines : Nat) : List Line :=
  ring.inner.drop (ring.inner.length - maxLines)

structure Chunk where
  bytes : List UInt8
  some_ : bytes ≠ []
  fits : bytes.length ≤ logReadChunkBytes

/-- The capturing task: the line in flight, whether its end was discarded, the ring, and the
lines that it inserted there, which `tracing` shows too. -/
structure Capture where
  line : List UInt8
  truncated : Bool
  ring : WorkerLogRing
  inserted : List Line

def Capture.start (ring : WorkerLogRing) : Capture := ⟨[],false,ring,[]⟩

def Capture.deposit (s : Capture) (piece : List UInt8) : Capture :=
  if piece.isEmpty then s
  else
    let room := logLineMaxBytes - s.line.length
    if room = 0 then { s with truncated := true }
    else
      let take := min piece.length room
      { s with line := s.line ++ piece.take take, truncated := if take < piece.length then true else s.truncated }

def Capture.flushLine (s : Capture) : Capture :=
  let text := Text.trimEnd (fromUtf8Lossy s.line)
  if text.isEmpty ∧ s.truncated = false then { s with line := [], truncated := false }
  else
    let owned := if s.truncated then text ++ ['…'] else text
    ⟨[],false,s.ring.insert owned,s.inserted ++ [owned]⟩

/-- The body of the loop, for what is left of a chunk: the states after each of its calls. -/
def Capture.takeLines (s : Capture) (rest : List UInt8) : List Capture :=
  match found : rest.idxOf? newline with
  | some pos =>
    let deposited := s.deposit (rest.take pos)
    deposited :: deposited.flushLine :: deposited.flushLine.takeLines (rest.drop (pos + 1))
  | none => [s.deposit rest]
termination_by rest.length
decreasing_by
  have := (List.idxOf?_eq_some_iff.mp found).1
  rw [List.length_drop]
  omega

/-- The states that the task goes through, from its first call to the end of its stream. -/
def Capture.captureStream (s : Capture) : List Chunk → List Capture
  | [] => if s.line.isEmpty = false ∨ s.truncated = true then [s.flushLine] else []
  | chunk :: chunks =>
    let states := s.takeLines chunk.bytes
    states ++ (states.getLastD s).captureStream chunks

/-- What the capture of a stream is for: its pieces are the parts between newlines, and what
follows the last one if there is any; -/
def pieces (stream : List UInt8) : List (List UInt8) :=
  let (complete,rest) := Lines.split newline stream
  complete.map List.dropLast ++ if rest = [] then [] else [rest]

/-- each of them gives the line of its first 8192 bytes, with a mark if there are more; -/
def render (piece : List UInt8) : Option Line :=
  let text := Text.trimEnd (fromUtf8Lossy (piece.take logLineMaxBytes))
  let line := if logLineMaxBytes < piece.length then text ++ ['…'] else text
  if line = [] ∧ piece.length ≤ logLineMaxBytes then none else some line

/-- and these are the lines of the stream. -/
def reference (stream : List UInt8) : List Line := (pieces stream).filterMap render

/-- The buffer holds the start of the unfinished piece. -/
structure Holds (s : Capture) (piece : List UInt8) : Prop where
  line : s.line = piece.take logLineMaxBytes
  truncated : s.truncated = decide (logLineMaxBytes < piece.length)

theorem Holds.bounded (holds : Holds s piece) : s.line.length ≤ logLineMaxBytes := by
  rw [holds.line,List.length_take]
  exact Nat.min_le_left ..

theorem Holds.deposit (holds : Holds s piece) (more : List UInt8) : Holds (s.deposit more) (piece ++ more) := by
  have length : s.line.length = min logLineMaxBytes piece.length := by rw [holds.line,List.length_take]
  unfold Capture.deposit
  split
  next none_ =>
    obtain rfl := List.isEmpty_iff.mp none_
    simpa using holds
  next some_ =>
    have positive : 0 < more.length := List.length_pos_iff.mpr fun nil => some_ (by simp [nil])
    dsimp only
    split
    next full =>
      have filled : logLineMaxBytes ≤ piece.length := by omega
      refine ⟨?_,?_⟩
      · rw [holds.line,List.take_append_of_le_length filled]
      · rw [List.length_append,eq_comm,decide_eq_true_iff]
        omega
    next room =>
      have under : piece.length < logLineMaxBytes := by omega
      have whole : s.line = piece := by rw [holds.line,List.take_of_length_le (Nat.le_of_lt under)]
      refine ⟨?_,?_⟩
      · rw [whole,List.take_append,List.take_of_length_le (Nat.le_of_lt under),Nat.min_comm,← List.take_take]
        simp
      · rw [whole,holds.truncated,List.length_append]
        by_cases long : logLineMaxBytes < piece.length + more.length
        · rw [if_pos (by omega),decide_eq_true long]
        · rw [if_neg (by omega),decide_eq_false long,decide_eq_false (by omega)]

/-- A flush puts the line of the piece into the ring, if it has one, and empties the buffer. -/
theorem Holds.flushLine (holds : Holds s piece) : Holds s.flushLine [] ∧
    s.flushLine.inserted = s.inserted ++ (render piece).toList ∧
    s.flushLine.ring = (render piece).toList.foldl WorkerLogRing.insert s.ring := by
  have empty : ∀ ring inserted, Holds ⟨[],false,ring,inserted⟩ [] := fun _ _ => ⟨rfl,by simp⟩
  by_cases long : logLineMaxBytes < piece.length
  · have marked : s.truncated = true := by rw [holds.truncated,decide_eq_true long]
    simp [Capture.flushLine,render,marked,holds.line,long,empty]
  · have whole : s.truncated = false := by rw [holds.truncated,decide_eq_false long]
    by_cases blank : Text.trimEnd (fromUtf8Lossy (piece.take logLineMaxBytes)) = []
    · simp [Capture.flushLine,render,whole,holds.line,long,blank,empty,Nat.le_of_not_lt long]
    · simp [Capture.flushLine,render,whole,holds.line,long,blank,empty]

theorem insert_newest (ring : WorkerLogRing) (line : Line) (all : List Line)
    (newest : ring.inner = all.rtake logRingCapacity) :
    (ring.insert line).inner = (all ++ [line]).rtake logRingCapacity := by
  change dropThenPush logRingCapacity ring.inner line = _
  rw [newest]
  exact dropThenPush_rtake all (by decide) line

structure Stands (ring : WorkerLogRing) (seen : List UInt8) (s : Capture) : Prop where
  holds : Holds s (Lines.split newline seen).2
  inserted : s.inserted = ((Lines.split newline seen).1.map List.dropLast).filterMap render
  newest : s.ring.inner = (ring.inner ++ s.inserted).rtake logRingCapacity

theorem Stands.start (ring : WorkerLogRing) : Stands ring [] (.start ring) := by
  refine ⟨⟨rfl,by simp [Capture.start,Lines.split]⟩,rfl,?_⟩
  simpa [Capture.start] using (rtake_of_length_le ring.bounded).symm

theorem deposit_frame (s : Capture) (piece : List UInt8) :
    (s.deposit piece).inserted = s.inserted ∧ (s.deposit piece).ring = s.ring := by
  unfold Capture.deposit
  dsimp only
  split
  · exact ⟨rfl,rfl⟩
  · split <;> exact ⟨rfl,rfl⟩

theorem Stands.deposit (stands : Stands ring seen s) (clean : newline ∉ piece) :
    Stands ring (seen ++ piece) (s.deposit piece) := by
  obtain ⟨inserted,unchanged⟩ := deposit_frame s piece
  have more := Lines.split_append_clean newline seen piece clean
  constructor
  · rw [more]
    exact stands.holds.deposit piece
  · rw [more,inserted]
    exact stands.inserted
  · rw [inserted,unchanged]
    exact stands.newest

/-- The ring after a flush is the newest of what was inserted, the flushed line included. -/
theorem flush_newest (newest : s.ring.inner = (front ++ s.inserted).rtake logRingCapacity) (holds : Holds s piece) :
    s.flushLine.ring.inner = (front ++ s.flushLine.inserted).rtake logRingCapacity := by
  obtain ⟨_,inserted,ring⟩ := holds.flushLine
  rw [inserted,ring]
  cases render piece with
  | none => simpa using newest
  | some line =>
    rw [← List.append_assoc]
    exact insert_newest s.ring line _ newest

theorem Stands.flushLine (stands : Stands ring seen s) : Stands ring (seen ++ [newline]) s.flushLine := by
  obtain ⟨empty,inserted,_⟩ := stands.holds.flushLine
  have done := Lines.split_append_sep newline seen
  constructor
  · rw [done]
    exact empty
  · rw [done,inserted,stands.inserted]
    cases line : render (Lines.split newline seen).2 <;> simp [line]
  · exact flush_newest stands.newest stands.holds

/-- Every state within a chunk is one that some part of the stream leads to. -/
theorem Stands.takeLines (stands : Stands ring seen s) (rest : List UInt8) :
    (∀ m ∈ s.takeLines rest, ∃ seen', Stands ring seen' m) ∧
      Stands ring (seen ++ rest) ((s.takeLines rest).getLastD s) := by
  fun_induction Capture.takeLines s rest generalizing seen with
  | case1 s rest pos found deposited =>
    rename_i ih
    obtain ⟨inside,here,clean⟩ := List.idxOf?_eq_some_iff.mp found
    have free : newline ∉ rest.take pos := by
      intro member
      obtain ⟨i,low,eq⟩ := List.mem_take_iff_getElem.mp member
      exact clean i (by omega) eq
    have cut : rest = rest.take pos ++ [newline] ++ rest.drop (pos + 1) := by
      rw [← here,← List.take_succ_eq_append_getElem inside,List.take_append_drop]
    have first := stands.deposit free
    obtain ⟨all,last⟩ := ih first.flushLine
    constructor
    · intro m member
      rcases List.mem_cons.mp member with rfl | member
      · exact ⟨_,first⟩
      · rcases List.mem_cons.mp member with rfl | member
        · exact ⟨_,first.flushLine⟩
        · exact all m member
    · rw [List.append_assoc,List.append_assoc,← List.append_assoc _ [newline],← cut] at last
      rw [List.getLastD_cons,List.getLastD_cons]
      exact last
  | case2 s rest found =>
    have last := stands.deposit (List.idxOf?_eq_none_iff.mp found)
    constructor
    · intro m member
      obtain rfl := List.mem_singleton.mp member
      exact ⟨_,last⟩
    · exact last

theorem getLastD_append (front back : List α) (a : α) :
    (front ++ back).getLastD a = back.getLastD (front.getLastD a) := by
  induction front generalizing a with
  | nil => rfl
  | cons x front ih => rw [List.cons_append,List.getLastD_cons,List.getLastD_cons,ih]

/-- The task at the end of its stream. -/
theorem Stands.captureStream (stands : Stands ring seen s) (chunks : List Chunk) :
    (∀ m ∈ s.captureStream chunks, m.line.length ≤ logLineMaxBytes) ∧
      ((s.captureStream chunks).getLastD s).inserted = reference (seen ++ chunks.flatMap Chunk.bytes) ∧
      ((s.captureStream chunks).getLastD s).ring.inner =
        (ring.inner ++ reference (seen ++ chunks.flatMap Chunk.bytes)).rtake logRingCapacity := by
  induction chunks generalizing s seen with
  | nil =>
    rw [List.flatMap_nil,List.append_nil]
    obtain ⟨empty,inserted,_⟩ := stands.holds.flushLine
    have parts : reference seen = s.inserted ++ (if (Lines.split newline seen).2 = [] then [] else
        (render (Lines.split newline seen).2).toList) := by
      rw [reference,pieces,List.filterMap_append,stands.inserted]
      split
      · rfl
      · cases line : render (Lines.split newline seen).2 <;> simp [line]
    unfold Capture.captureStream
    split
    next unfinished =>
      have some_ : (Lines.split newline seen).2 ≠ [] := by
        intro none_
        simp [stands.holds.line,stands.holds.truncated,none_] at unfinished
      rw [if_neg some_] at parts
      rw [parts,← inserted]
      refine ⟨?_,rfl,flush_newest stands.newest stands.holds⟩
      intro m member
      obtain rfl := List.mem_singleton.mp member
      exact empty.bounded
    next finished =>
      have none_ : (Lines.split newline seen).2 = [] := by
        by_contra some_
        apply finished
        left
        rw [stands.holds.line]
        simpa [logLineMaxBytes] using some_
      rw [if_pos none_,List.append_nil] at parts
      rw [parts]
      exact ⟨by simp,rfl,stands.newest⟩
  | cons chunk chunks ih =>
    obtain ⟨all,last⟩ := stands.takeLines chunk.bytes
    obtain ⟨later,inserted,newest⟩ := ih last
    rw [Capture.captureStream,List.flatMap_cons,← List.append_assoc,getLastD_append]
    refine ⟨?_,inserted,newest⟩
    intro m member
    rcases List.mem_append.mp member with member | member
    · obtain ⟨_,there⟩ := all m member
      exact there.holds.bounded
    · exact later m member

/-- However the stream is cut into reads, the capture inserts the lines of the stream, its
buffer stays within the cap, and the ring ends up with the newest lines. -/
theorem capture_stream_lines (ring : WorkerLogRing) (chunks : List Chunk) :
    let states := (Capture.start ring).captureStream chunks
    let last := states.getLastD (.start ring)
    last.inserted = reference (chunks.flatMap Chunk.bytes) ∧
      (∀ s ∈ Capture.start ring :: states, s.line.length ≤ logLineMaxBytes) ∧
      last.ring.inner = (ring.inner ++ last.inserted).rtake logRingCapacity := by
  obtain ⟨small,inserted,newest⟩ := (Stands.start ring).captureStream chunks
  refine ⟨inserted,?_,?_⟩
  · intro s member
    rcases List.mem_cons.mp member with rfl | member
    · exact Nat.zero_le _
    · exact small s member
  · rw [inserted]
    exact newest

/-- A line that a capture inserts. -/
def Captured (line : Line) : Prop := ∃ piece, render piece = some line

theorem captured_stream (ring : WorkerLogRing) (chunks : List Chunk) (before : ∀ line ∈ ring.inner, Captured line) :
    ∀ line ∈ (((Capture.start ring).captureStream chunks).getLastD (.start ring)).ring.inner, Captured line := by
  obtain ⟨_,_,newest⟩ := (Stands.start ring).captureStream chunks
  intro line member
  rw [newest] at member
  rcases List.mem_append.mp ((rtake_suffix ..).subset member) with old | new
  · exact before line old
  · obtain ⟨piece,_,eq⟩ := List.mem_filterMap.mp new
    exact ⟨piece,eq⟩

/-- A captured line is not empty, and its length is bounded. -/
theorem Captured.bounds (captured : Captured line) : line ≠ [] ∧ size line ≤ 70000 := by
  obtain ⟨piece,eq⟩ := captured
  have start : (piece.take logLineMaxBytes).length ≤ logLineMaxBytes := by
    rw [List.length_take]
    exact Nat.min_le_left ..
  have text := size_fromUtf8Lossy (piece.take logLineMaxBytes)
  have trimmed : size (Text.trimEnd (fromUtf8Lossy (piece.take logLineMaxBytes))) ≤
      size (fromUtf8Lossy (piece.take logLineMaxBytes)) := by
    apply size_sublist
    unfold Text.trimEnd
    simpa using (List.dropWhile_sublist Text.isWhitespace (l := (fromUtf8Lossy _).reverse)).reverse
  have mark : size ['…'] = 3 := by decide
  unfold render at eq
  by_cases long : logLineMaxBytes < piece.length
  · simp only [if_pos long,Nat.not_le_of_lt long,and_false,if_false] at eq
    obtain rfl := Option.some.inj eq
    rw [size_append,mark]
    refine ⟨by simp,?_⟩
    unfold logLineMaxBytes at *
    omega
  · simp only [if_neg long] at eq
    split at eq
    next => contradiction
    next some_ =>
      obtain rfl := Option.some.inj eq
      refine ⟨fun nil => some_ ⟨nil,Nat.le_of_not_lt long⟩,?_⟩
      unfold logLineMaxBytes at *
      omega

end Malkuth.Worker
