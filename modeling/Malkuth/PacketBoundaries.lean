import Malkuth.Headers
import Malkuth.ResponseBytes

/-! Whether a response depends on how its bytes come in. The limits are tested on what happens
to be in the buffer: a line or a head at its limit is refused byte by byte and accepted if its
end comes in one piece. These two extremes are the readers `tight` and `wide`. -/
namespace Malkuth.BackendResponse

open Buffered

def Single (ending : Ending) (c : Conn) (bytes : List UInt8) : Prop :=
  c.buf = [] ∧ Carries ending c bytes ∧ ∀ p ∈ c.pieces, p.length ≤ 1

def Upto (n : Nat) (c : Conn) : Prop := (∀ p ∈ c.pieces, p.length ≤ 1) ∧ c.buf.length ≤ n

section Single

variable {c c' : Conn}

theorem upto_read (upto : Upto n c) (less : c.buf.length < n) (read : c.read size = (some (k + 1),c')) : Upto n c' := by
  unfold Conn.read at read
  cases got : next size c.pieces with
  | none =>
    rw [got] at read
    dsimp only at read
    split at read <;> simp at read
  | some found =>
    obtain ⟨bytes,pieces⟩ := found
    obtain ⟨skipped,piece,more,cut,_,_,rfl,rfl⟩ := next_eq_some got
    rw [got] at read
    obtain ⟨_,rfl⟩ := Prod.mk.inj read
    have single := upto.1
    rw [cut,List.forall_mem_append,List.forall_mem_cons] at single
    obtain ⟨_,one,others⟩ := single
    refine ⟨List.forall_mem_cons.mpr ⟨?_,others⟩,?_⟩
    · rw [List.length_drop]
      omega
    · rw [List.length_append,List.length_take]
      omega

theorem Single.upto (single : Single ending c bytes) (n : Nat) : Upto n c := ⟨single.2.2,by simp [single.1]⟩

/-- What is drained to its last byte leaves nothing over. -/
theorem Upto.drained (upto : Upto (n + lost) c) (carries : (c.drain n lost).2.bytes = bytes) (end_ : c.ending = ending) :
    Single ending (c.drain n lost).2 bytes :=
  ⟨List.drop_eq_nil_of_le upto.2,⟨carries,end_⟩,upto.1⟩

/-- Byte by byte a loop comes to a buffer of `n` bytes. -/
theorem single_fill (size n : Nat) (check : List UInt8 → Verdict α) (positive : 0 < size) (single : Single ending c bytes)
    (enough : n ≤ c.bytes.length) (more : ∀ d : Conn, d.bytes = c.bytes → d.buf.length < n → check d.buf = .more) :
    ∃ d : Conn, d.buf.length = n ∧ d.bytes = c.bytes ∧ fill size check none c = fill size check none d := by
  obtain ⟨d,upto,reached,same,_,eq⟩ := fill_reaches size check none (Upto n) n c positive
    (single.upto n) enough (fun d k d' upto _ less read => upto_read upto less read) (fun d _ => more d)
  exact ⟨d,Nat.le_antisymm upto.2 reached,same,eq⟩

theorem single_head (single : Single ending c bytes) (took : readResponseHead c = (some head,c'))
    (found : position headEnd c.bytes = some at_) : at_ + 4 ≤ 64 * 1024 := by
  by_contra long
  have inside : at_ + 4 ≤ c.bytes.length := (position_eq_some found).2
  have absent (d : Conn) (same : d.bytes = c.bytes) (less : d.buf.length ≤ 64 * 1024) : position headEnd d.buf = none := by
    have before : d.buf.length < at_ + 4 := by omega
    exact position_absent d same found before (by decide)
  obtain ⟨d,length,same,eq⟩ := single_fill 4096 (64 * 1024) checkHead (by decide) single (by omega) (by
    intro d same less
    simp [checkHead,absent d same (Nat.le_of_lt less),Nat.not_le.mpr less])
  have refused : checkHead d.buf = .refused := by simp [checkHead,absent d same (Nat.le_of_eq length),length]
  rw [readResponseHead,eq,fill_refused d refused] at took
  simp at took

theorem single_line (single : Single ending c bytes) (took : takeLine cap c = (some line,c'))
    (found : position crlf c.bytes = some pos) : pos + 1 ≤ cap := by
  by_contra long
  have inside : pos + 2 ≤ c.bytes.length := (position_eq_some found).2
  have absent (d : Conn) (same : d.bytes = c.bytes) (less : d.buf.length ≤ cap + 1) : position crlf d.buf = none := by
    have before : d.buf.length < pos + 2 := by omega
    exact position_absent d same found before (by decide)
  obtain ⟨d,length,same,eq⟩ := single_fill 8192 (cap + 1) (checkLine cap) (by decide) single (by omega) (by
    intro d same less
    simp [checkLine,absent d same (Nat.le_of_lt less),Nat.le_of_lt_succ less])
  have refused : checkLine cap d.buf = .refused := by simp [checkLine,absent d same (Nat.le_of_eq length),length]
  rw [takeLine,eq,fill_refused d refused] at took
  simp at took

end Single

/-- Byte by byte the head and every line have a byte to spare. -/
theorem single_tight (ending : Ending) : Simulates socket (tight ending) (Single ending) (Single ending) where
  head := by
    intro c bytes head c' single took
    obtain ⟨at_,_,_,_,found,rfl,_⟩ := readResponseHead_some took
    have short := single_head single took found
    obtain ⟨d,upto,reached,same,end_,eq⟩ := readResponseHead_reaches (Upto (at_ + 4)) (single.upto _) found
      (fun d k d' upto _ less read => upto_read upto less read) (by intro d _ _ less; omega)
    obtain ⟨_,rfl⟩ := Prod.mk.inj (eq.symm.trans took)
    obtain ⟨_,⟨rfl,rfl⟩,_⟩ := single
    refine ⟨_,bytes_head found short,Upto.drained upto ?_ end_⟩
    rw [(d.drain_bytes _ 0 reached).2,same]
  line := by
    intro c bytes cap line c' single took
    obtain ⟨pos,found,_,rfl,_⟩ := takeLine_some took
    have short := single_line single took found
    obtain ⟨d,upto,reached,same,end_,eq⟩ := takeLine_reaches cap (Upto (pos + 2)) (single.upto _) found
      (by omega) (fun d k d' upto _ less read => upto_read upto less read) (by intro d _ _ less; omega)
    obtain ⟨_,rfl⟩ := Prod.mk.inj (eq.symm.trans took)
    obtain ⟨_,⟨rfl,rfl⟩,_⟩ := single
    refine ⟨_,bytes_line found short,Upto.drained upto ?_ end_⟩
    rw [(d.drain_bytes _ 2 reached).2,same]
  take := by
    intro c bytes n taken c' single took
    obtain ⟨long,rfl,_⟩ := takeBytes_some took
    obtain ⟨d,upto,reached,same,end_,eq⟩ := takeBytes_reaches (Upto n) (single.upto _) long
      (fun d k d' upto _ less read => upto_read upto less read)
    obtain ⟨_,rfl⟩ := Prod.mk.inj (eq.symm.trans took)
    obtain ⟨_,⟨rfl,rfl⟩,_⟩ := single
    refine ⟨_,bytes_take n _ long,Upto.drained upto ?_ end_⟩
    rw [(d.drain_bytes _ 0 reached).2,same]
    rfl
  toEnd := by
    intro c bytes taken c' single took
    obtain ⟨closed,rfl,_⟩ := readToEnd_some took
    obtain ⟨d,none_,end_,last,eq⟩ := readToEnd_reaches closed
    obtain ⟨_,rfl⟩ := Prod.mk.inj (eq.symm.trans took)
    obtain ⟨_,⟨rfl,rfl⟩,_⟩ := single
    refine ⟨[],by simp [tight,bytesReader,closed],?_,⟨none_,end_⟩,by simp [last]⟩
    exact (List.append_eq_nil_iff.mp none_).1

def pairs : List UInt8 → List (List UInt8)
  | [] => []
  | 13 :: 10 :: rest => [13,10] :: pairs rest
  | b :: rest => [b] :: pairs rest

def Paired (c : Conn) : Prop :=
  c.pieces.filter (· ≠ []) = pairs c.unread ∧ ¬ (c.buf.getLast? = some 13 ∧ c.unread.head? = some 10)

theorem flatten_pairs (bytes : List UInt8) : (pairs bytes).flatten = bytes := by
  induction bytes using pairs.induct with
  | case1 => rfl
  | case2 rest ih => simp [pairs,ih]
  | case3 b rest no ih => rw [pairs.eq_3 b rest no]; simp [ih]

theorem filter_pairs (bytes : List UInt8) : (pairs bytes).filter (· ≠ []) = pairs bytes := by
  refine List.filter_eq_self.mpr ?_
  induction bytes using pairs.induct with
  | case1 => simp [pairs]
  | case2 rest ih => simpa [pairs] using ih
  | case3 b rest no ih => rw [pairs.eq_3 b rest no]; simpa using ih

/-- The first of the pieces, and that it cuts no line break. -/
theorem pairs_eq_cons (is : pairs bytes = piece :: more) : ∃ rest, bytes = piece ++ rest ∧ more = pairs rest ∧
    piece.length ≤ 2 ∧ ¬ (piece.getLast? = some 13 ∧ rest.head? = some 10) := by
  induction bytes using pairs.induct with
  | case1 => simp [pairs] at is
  | case2 rest =>
    obtain ⟨rfl,rfl⟩ := List.cons.inj is
    exact ⟨rest,rfl,rfl,Nat.le_refl 2,by simp⟩
  | case3 b rest no =>
    rw [pairs.eq_3 b rest no] at is
    obtain ⟨rfl,rfl⟩ := List.cons.inj is
    refine ⟨rest,rfl,rfl,Nat.le_succ 1,?_⟩
    rintro ⟨last,first⟩
    cases rest with
    | nil => simp at first
    | cons x rest => exact no rest (by simpa using last) (by simpa using first)

section Paired

variable {c c' : Conn}

theorem paired_read (paired : Paired c) (large : 2 ≤ size) (read : c.read size = (some (k + 1),c')) : Paired c' := by
  unfold Conn.read at read
  cases got : next size c.pieces with
  | none =>
    rw [got] at read
    dsimp only at read
    split at read <;> simp at read
  | some found =>
    obtain ⟨bytes,pieces⟩ := found
    obtain ⟨skipped,piece,more,cut,empty,some_,rfl,rfl⟩ := next_eq_some got
    rw [got] at read
    obtain ⟨_,rfl⟩ := Prod.mk.inj read
    have none_ : skipped.filter (· ≠ []) = [] := by simpa using empty
    have whole : c.unread = piece ++ more.flatten := by
      have flat : skipped.flatten = [] := by simpa using empty
      simp [Conn.unread,cut,flat]
    have is : pairs c.unread = piece :: more.filter (· ≠ []) := by
      rw [← paired.1,cut,List.filter_append,none_,List.nil_append,List.filter_cons_of_pos (by simpa using some_)]
    obtain ⟨rest,eq,others,short,uncut⟩ := pairs_eq_cons is
    obtain rfl : more.flatten = rest := List.append_cancel_left (whole.symm.trans eq)
    have all : piece.take size = piece := List.take_of_length_le (by omega)
    have gone : piece.drop size = [] := List.drop_eq_nil_of_le (by omega)
    refine ⟨?_,?_⟩
    · simpa [gone,Conn.unread] using others
    · rintro ⟨last,first⟩
      refine uncut ⟨?_,by simpa [gone,Conn.unread] using first⟩
      simpa [all,List.getLast?_append,some_] using last

theorem paired_drain (paired : Paired c) (n lost : Nat) : Paired (c.drain n lost).2 := by
  refine ⟨paired.1,?_⟩
  rintro ⟨last,first⟩
  refine paired.2 ⟨?_,first⟩
  simp only [Conn.drain,List.getLast?_drop] at last
  split at last
  · simp at last
  · exact last

/-- A buffer never ends inside of the first line break. -/
theorem paired_room (paired : Paired c) (found : position crlf c.bytes = some pos) (less : c.buf.length < pos + 2) :
    c.buf.length ≤ pos := by
  by_contra long
  have length : c.buf.length = pos + 1 := by omega
  obtain ⟨rest,cut⟩ := (position_eq_some found).1
  rw [Conn.bytes,List.drop_append_of_le_length (by omega)] at cut
  obtain ⟨b,single⟩ : ∃ b, c.buf.drop pos = [b] := List.length_eq_one_iff.mp (by rw [List.length_drop]; omega)
  rw [single] at cut
  obtain ⟨rfl,others⟩ := List.cons.inj cut
  have after : 10 :: rest = c.unread := others
  refine paired.2 ⟨?_,by rw [← after]; rfl⟩
  have last := congrArg List.getLast? single
  rw [List.getLast?_drop,if_neg (by omega)] at last
  exact last

end Paired

/-- How much of a head is read before its last read. -/
def approach (at_ : Nat) : Nat := min (64 * 1024 - 1) (at_ + 3)

/-- The pieces that let a head of every length through: its end comes in one read. After it no
line break is cut. -/
def coarse (bytes : List UInt8) : List (List UInt8) :=
  match position headEnd bytes with
  | some at_ => bytes.take (approach at_) :: (bytes.take (at_ + 4)).drop (approach at_) :: pairs (bytes.drop (at_ + 4))
  | none => [bytes]

theorem flatten_coarse (bytes : List UInt8) : (coarse bytes).flatten = bytes := by
  unfold coarse
  split
  next at_ found =>
    have less : approach at_ ≤ at_ + 4 := by unfold approach; omega
    have front : bytes.take (approach at_) = (bytes.take (at_ + 4)).take (approach at_) := by
      rw [List.take_take,Nat.min_eq_left less]
    rw [List.flatten_cons,List.flatten_cons,flatten_pairs,front,← List.append_assoc,List.take_append_drop,
      List.take_append_drop]
  next => simp

/-- A head that is not longer than a read after all but its last byte below the cap is read. -/
theorem coarse_head (bytes : List UInt8) (ending : Ending) (found : position headEnd bytes = some at_)
    (short : at_ + 4 ≤ headMost) : ∃ c', readResponseHead (.start [] (coarse bytes) ending) =
      (some (bytes.take (at_ + 4)),c') ∧ Carries ending c' (bytes.drop (at_ + 4)) ∧ Paired c' := by
  have inside : at_ + 4 ≤ bytes.length := (position_eq_some found).2
  have near : approach at_ < at_ + 4 ∧ approach at_ < 64 * 1024 ∧ at_ + 4 - approach at_ ≤ 4096 := by
    unfold approach headMost at *
    omega
  let c := Conn.start [] (coarse bytes) ending
  have whole : c.bytes = bytes := flatten_coarse bytes
  have pieces : c.pieces = bytes.take (approach at_) ::
      (bytes.take (at_ + 4)).drop (approach at_) :: pairs (bytes.drop (at_ + 4)) := by simp only [c,Conn.start,coarse,found]
  have size : ((bytes.take (at_ + 4)).drop (approach at_)).length = at_ + 4 - approach at_ := by
    rw [List.length_drop,List.length_take,Nat.min_eq_left inside]
  have fits : ((bytes.take (at_ + 4)).drop (approach at_)).length ≤ 4096 := by
    rw [size]
    exact near.2.2
  have some_ : (bytes.take (at_ + 4)).drop (approach at_) ≠ [] := by
    apply List.ne_nil_of_length_pos
    omega
  -- the buffer is all of the first piece before it is all of the head
  obtain ⟨d,buf,left,end_,_,eq⟩ := fill_piece checkHead none c pieces (by decide : 0 < 4096) some_ (by
    intro d same less
    have few : d.buf.length ≤ approach at_ := by
      simp only [c,Conn.start,List.length_nil,List.length_take] at less
      omega
    have before : d.buf.length < at_ + 4 := Nat.lt_of_le_of_lt few near.1
    have absent := position_absent d same (by rw [whole]; exact found) before (by decide)
    have low : ¬ 64 * 1024 ≤ d.buf.length := by omega
    simp [checkHead,absent,low])
  have head : d.buf = bytes.take (at_ + 4) := by
    have front : bytes.take (approach at_) = (bytes.take (at_ + 4)).take (approach at_) := by
      rw [List.take_take,Nat.min_eq_left (Nat.le_of_lt near.1)]
    rw [buf,List.take_of_length_le fits,front]
    exact List.take_append_drop ..
  rw [List.drop_eq_nil_of_le fits] at left
  have unread : d.unread = bytes.drop (at_ + 4) := by simp [left,Conn.unread,flatten_pairs]
  have same : d.bytes = bytes := by rw [Conn.bytes,head,unread,List.take_append_drop]
  have long : d.buf.length = at_ + 4 := by rw [head,List.length_take,Nat.min_eq_left inside]
  have done : checkHead d.buf = .done (at_ + 4) := by
    have there := position_there (c := d) d rfl (by rw [same]; exact found) (Nat.le_of_eq long.symm) (by decide)
    simp [checkHead,there]
  obtain ⟨taken,after⟩ := d.drain_bytes (at_ + 4) 0 (Nat.le_of_eq long.symm)
  refine ⟨(d.drain (at_ + 4) 0).2,?_,⟨by rw [after,same],end_⟩,?_,?_⟩
  · rw [readResponseHead,eq.trans (fill_done d done),← same,← taken]
  · change d.pieces.filter (· ≠ []) = pairs d.unread
    rw [left,unread,List.filter_cons_of_neg (by simp),filter_pairs]
  · rintro ⟨nothing,_⟩
    change (d.buf.drop (at_ + 4 + 0)).getLast? = some 13 at nothing
    rw [List.drop_eq_nil_of_le (by omega)] at nothing
    simp at nothing

/-- With line breaks uncut every line up to its limit is read. -/
theorem wide_paired (ending : Ending) : Simulates (wide ending) socket
    (fun bytes c => c = .start [] (coarse bytes) ending) (fun bytes c => Carries ending c bytes ∧ Paired c) where
  head := by
    rintro bytes _ head rest rfl took
    obtain ⟨at_,found,short,rfl,rfl⟩ := bytes_head_some took
    exact coarse_head bytes ending found short
  line := by
    rintro _ c cap line rest ⟨⟨rfl,rfl⟩,paired⟩ took
    obtain ⟨pos,found,short,rfl,rfl⟩ := bytes_line_some took
    obtain ⟨d,paired',reached,same,end_,eq⟩ := takeLine_reaches cap Paired paired found short
      (fun d k d' paired _ _ read => paired_read paired (by decide) read)
      (fun d paired same less => (paired_room paired (by rw [same]; exact found) less).trans short)
    refine ⟨_,eq,⟨?_,end_⟩,paired_drain paired' pos 2⟩
    rw [(d.drain_bytes _ 2 reached).2,same]
  take := by
    rintro _ c n bytes rest ⟨⟨rfl,rfl⟩,paired⟩ took
    obtain ⟨long,rfl,rfl⟩ := bytes_take_some took
    obtain ⟨d,paired',reached,same,end_,eq⟩ := takeBytes_reaches Paired paired long
      (fun d k d' paired _ _ read => paired_read paired (by decide) read)
    refine ⟨_,eq,⟨?_,end_⟩,paired_drain paired' n 0⟩
    rw [(d.drain_bytes _ 0 reached).2,same]
    rfl
  toEnd := by
    rintro _ c bytes rest ⟨⟨rfl,rfl⟩,_⟩ took
    obtain ⟨closed,rfl,rfl⟩ := bytes_toEnd_some took
    obtain ⟨d,none_,end_,last,eq⟩ := readToEnd_reaches closed
    have unread : d.unread = [] := (List.append_eq_nil_iff.mp none_).2
    exact ⟨d,eq,⟨none_,end_⟩,by rw [last,unread]; rfl,by simp [unread]⟩

/-- The result does not depend on how the bytes are cut if and only if no part of the response
needs its last byte: a stream that is a response with lines of at most 128 and 4096 bytes and a
head of at most 69631 is one with lines that are shorter and a head of at most 65536. -/
theorem boundaries_iff (bytes : List UInt8) (ending : Ending) :
    (∀ pieces pieces' : List (List UInt8), pieces.flatten = bytes → pieces'.flatten = bytes →
      readResponse socket (.start [] pieces ending) = readResponse socket (.start [] pieces' ending)) ↔
    ∀ response, readResponse (wide ending) bytes = some response → readResponse (tight ending) bytes = some response := by
  constructor
  · intro same response accepted
    have cut : (bytes.map ([·])).flatten = bytes := by simp [← List.flatMap_def]
    have coarsely := (wide_paired ending).response bytes _ rfl accepted
    have singly := (same _ _ (flatten_coarse bytes) cut).symm.trans coarsely
    refine (single_tight ending).response (.start [] (bytes.map ([·])) ending) bytes ⟨rfl,⟨cut,rfl⟩,?_⟩ singly
    simp [Conn.start]
  · intro roomy pieces pieces' whole whole'
    have follows (front back : List (List UInt8)) (whole : front.flatten = bytes) (whole' : back.flatten = bytes)
        (response : Response) (read : readResponse socket (.start [] front ending) = some response) :
        readResponse socket (.start [] back ending) = some response := by
      have accepted := (socket_wide ending).response (.start [] front ending) bytes ⟨rfl,whole,rfl⟩ read
      exact (tight_socket ending).response bytes (.start [] back ending) ⟨whole',rfl⟩ (roomy response accepted)
    refine Option.ext fun response => ?_
    exact ⟨follows pieces pieces' whole whole' response,follows pieces' pieces whole' whole response⟩

def lineAtCap : List UInt8 :=
  Headers.ascii "HTTP/1.1 200 OK\r\nTransfer-Encoding: chunked\r\n\r\n0;" ++ List.replicate 126 97

/-- In one piece it is a response, with the line break cut it is an error. -/
theorem line_break_cut : ¬ ∀ (bytes : List UInt8) (ending : Ending) (pieces pieces' : List (List UInt8)),
    pieces.flatten = bytes → pieces'.flatten = bytes →
    readResponse socket (.start [] pieces ending) = readResponse socket (.start [] pieces' ending) := by
  intro same
  have together : (readResponse socket (.start [] [lineAtCap ++ [13,10,13,10]] .eof)).isSome = true := by decide +kernel
  have cut : (readResponse socket (.start [] [lineAtCap ++ [13],[10,13,10]] .eof)).isSome = false := by decide +kernel
  have equal := same (lineAtCap ++ [13,10,13,10]) .eof [lineAtCap ++ [13,10,13,10]] [lineAtCap ++ [13],[10,13,10]]
    (by simp) (by simp)
  rw [equal,cut] at together
  contradiction

end Malkuth.BackendResponse
