import Malkuth.ResponseBytes

/-! How much of a response is held in memory. Only the chunked framing is bounded: a length that
the backend announces, or none, makes the buffer as long as the backend likes. -/
namespace Malkuth.BackendResponse

open Buffered

def limit : Nat := maxProxyResponseBytes + 8192 + 2

/-- Neither the body nor the buffer has ever been longer. -/
def Bounded (ended : Ended Conn) : Prop := ended.out.length ≤ limit ∧ ended.state.held ≤ limit

/-- The sizes of the first chunks that the bytes begin with, together; the last one need not have
come in. -/
inductive Announces : List UInt8 → Nat → Prop where
  | one (line : position crlf bytes = some pos) (size : chunkSize (bytes.take pos) = some n) : Announces bytes n
  | more (line : position crlf bytes = some pos) (size : chunkSize (bytes.take pos) = some n) (some_ : n ≠ 0)
      (rest : Announces (bytes.drop (pos + 2 + (n + 2))) total) : Announces bytes (n + total)

/-- The backend announces, or sends without any framing, more than the proxy wants to hold. -/
def Larger (headers : List ParsedHeader) (stream : List UInt8) : Prop :=
  if isChunked headers then ∃ total, Announces stream total ∧ maxProxyResponseBytes < total
  else match contentLength headers with
    | some n => limit < n
    | none => limit < stream.length

structure Capped (headers : List ParsedHeader) (stream : List UInt8) (ended : Ended Conn) : Prop where
  bounded : Bounded ended
  refused : Larger headers stream → ended.ok = false

section Keeps

variable {r : Reader σ} {P : σ → Prop}

theorem trailers_keeps (s : σ) (first : P s) (line : ∀ cap s, cap ≤ 4096 → P s → P (r.line cap s).2) :
    P (trailers r s).2 := by
  fun_induction trailers r s with
  | case1 s s' took | case2 s s' took =>
    have kept := line 4096 s (Nat.le_refl _) first
    rwa [took] at kept
  | case3 s field s' took some_ ih =>
    have kept := line 4096 s (Nat.le_refl _) first
    rw [took] at kept
    exact ih kept

/-- What every read of the chunked framing keeps; no more than the largest chunk and its line
break is waited for. -/
theorem chunks_keeps (out : List UInt8) (s : σ) (first : P s) (line : ∀ cap s, cap ≤ 4096 → P s → P (r.line cap s).2)
    (take : ∀ n s, n ≤ maxProxyResponseBytes + 2 → P s → P (r.take n s).2) : P (chunks r out s).state := by
  have afterLine (s s' : σ) (l : Option (List UInt8)) (first : P s) (took : r.line 128 s = (l,s')) : P s' := by
    have kept := line 128 s (by decide) first
    rwa [took] at kept
  fun_induction chunks r out s with
  | case1 out s s' took | case2 out s l s' took | case3 out s l s' took => exact afterLine s s' _ first took
  | case4 out s l s' took => exact trailers_keeps s' (afterLine s s' _ first took) line
  | case5 out s l s' took n size fits some_ s'' payload =>
    have kept := take (n + 2) s' (by omega) (afterLine s s' _ first took)
    rwa [payload] at kept
  | case6 out s l s' took n size fits some_ bytes s'' payload ih =>
    have kept := take (n + 2) s' (by omega) (afterLine s s' _ first took)
    rw [payload] at kept
    exact ih kept

theorem chunks_out (r : Reader σ) (out : List UInt8) (s : σ) (short : out.length ≤ maxProxyResponseBytes) :
    (chunks r out s).out.length ≤ maxProxyResponseBytes := by
  fun_induction chunks r out s with
  | case6 out s l s' took n size fits some_ bytes s'' payload ih =>
    refine ih ?_
    rw [List.length_append,List.length_take]
    omega
  | _ => exact short

end Keeps

section Held

variable {P : Conn → Prop} {c : Conn}

/-- What the reads keep and draining does not touch is kept by a line and by a number of bytes. -/
theorem takeLine_keeps (cap : Nat) (first : P c) (drains : ∀ c n lost, P c → P (Conn.drain c n lost).2)
    (keeps : ∀ c, P c → c.buf.length ≤ cap → P (c.read 8192).2) : P (takeLine cap c).2 := by
  have filled := fill_keeps 8192 (checkLine cap) none P c first (by
    intro d holds more
    refine keeps d holds ?_
    by_contra long
    unfold checkLine at more
    split at more
    · split at more <;> simp at more
    · rw [if_pos (Nat.lt_of_not_le long)] at more
      simp at more)
  unfold takeLine
  split
  next pos d eq => rw [eq] at filled; exact drains d pos 2 filled
  next d eq => rw [eq] at filled; exact filled

theorem takeBytes_keeps (n : Nat) (first : P c) (drains : ∀ c n lost, P c → P (Conn.drain c n lost).2)
    (keeps : ∀ c, P c → c.buf.length < n → P (c.read 8192).2) : P (takeBytes n c).2 := by
  have filled := fill_keeps 8192 (checkLength n) none P c first (by
    intro d holds more
    refine keeps d holds ?_
    by_contra long
    simp [checkLength,long] at more)
  unfold takeBytes
  split
  next d eq => rw [eq] at filled; exact drains d n 0 filled
  next d eq => rw [eq] at filled; exact filled

theorem readToEnd_keeps (first : P c) (drains : ∀ c : Conn, P c → P { c with buf := [] })
    (keeps : ∀ c, P c → P (c.read 8192).2) : P (readToEnd c).2 := by
  have filled := fill_keeps 8192 (fun _ => Verdict.more) (some ()) P c first
    fun d holds _ => keeps d holds
  unfold readToEnd
  split
  next d eq => rw [eq] at filled; exact drains d filled
  next d eq => rw [eq] at filled; exact filled

/-- A read that starts from at most `n` bytes. -/
theorem read_bounded (held : c.held ≤ limit) (most : c.buf.length + 8192 ≤ limit) : (c.read 8192).2.held ≤ limit := by
  unfold Conn.read
  cases got : next 8192 c.pieces with
  | none => exact held
  | some found =>
    obtain ⟨bytes,pieces⟩ := found
    obtain ⟨_,piece,_,_,_,_,rfl,_⟩ := next_eq_some got
    have few : (piece.take 8192).length ≤ 8192 := List.length_take_le ..
    refine Nat.max_le.mpr ⟨held,?_⟩
    omega

/-- The chunked framing waits for no more than the largest chunk. -/
theorem chunks_bounded (headers : List ParsedHeader) (framed : isChunked headers = true) (held : c.held ≤ limit) :
    Bounded (readResponseBody socket headers c) := by
  rw [readResponseBody,if_pos framed]
  refine ⟨?_,?_⟩
  · have cap : maxProxyResponseBytes ≤ limit := by unfold limit; omega
    exact (chunks_out socket [] c (Nat.zero_le _)).trans cap
  · refine chunks_keeps (P := fun d => d.held ≤ limit) [] c held ?_ ?_
    · intro cap d low held
      refine takeLine_keeps (P := fun d => d.held ≤ limit) cap held (fun d n lost held => held) fun d held short => ?_
      refine read_bounded held ?_
      unfold limit maxProxyResponseBytes
      omega
    · intro n d low held
      refine takeBytes_keeps (P := fun d => d.held ≤ limit) n held (fun d n lost held => held) fun d held short => ?_
      refine read_bounded held ?_
      unfold limit
      omega

theorem body_length (framed : isChunked headers = false) (length : contentLength headers = some n) :
    readResponseBody socket headers c =
      ⟨(takeBytes n c).1.isSome,(takeBytes n c).1.getD [],(takeBytes n c).2⟩ := by
  simp only [readResponseBody,framed,length,Bool.false_eq_true,if_false]
  rfl

theorem body_end (framed : isChunked headers = false) (length : contentLength headers = none) :
    readResponseBody socket headers c = ⟨(readToEnd c).1.isSome,(readToEnd c).1.getD [],(readToEnd c).2⟩ := by
  simp only [readResponseBody,framed,length,Bool.false_eq_true,if_false]
  rfl

theorem takeBytes_out : ((takeBytes n c).1.getD []).length ≤ min n c.bytes.length := by
  cases took : (takeBytes n c).1 with
  | none => exact Nat.zero_le _
  | some bytes =>
    obtain ⟨_,rfl,_⟩ := takeBytes_some (Prod.ext took rfl : takeBytes n c = (some bytes,(takeBytes n c).2))
    rw [Option.getD_some,List.length_take]

theorem readToEnd_out : ((readToEnd c).1.getD []).length ≤ c.bytes.length := by
  cases took : (readToEnd c).1 with
  | none => exact Nat.zero_le _
  | some bytes =>
    obtain ⟨_,rfl,_⟩ := readToEnd_some (Prod.ext took rfl : readToEnd c = (some bytes,(readToEnd c).2))
    exact Nat.le_refl _

/-- Nothing is held that is not there. -/
theorem short_bounded (framed : isChunked headers = false) (held : c.held ≤ limit) (short : c.bytes.length ≤ limit) :
    Bounded (readResponseBody socket headers c) := by
  have drains (d : Conn) (n lost : Nat) (both : d.held ≤ limit ∧ d.bytes.length ≤ limit) :
      (d.drain n lost).2.held ≤ limit ∧ (d.drain n lost).2.bytes.length ≤ limit := by
    refine ⟨both.1,Nat.le_trans ?_ both.2⟩
    simp only [Conn.drain,Conn.bytes,Conn.unread,List.length_append,List.length_drop]
    omega
  have keeps (d : Conn) (both : d.held ≤ limit ∧ d.bytes.length ≤ limit) :
      (d.read 8192).2.held ≤ limit ∧ (d.read 8192).2.bytes.length ≤ limit := by
    have same := (read_kept 8192 (by decide) d).1
    have inside : (d.read 8192).2.buf.length ≤ (d.read 8192).2.bytes.length := by
      rw [Conn.bytes,List.length_append]
      omega
    rw [same] at inside ⊢
    exact ⟨(read_held_le d).trans (Nat.max_le.mpr ⟨both.1,inside.trans both.2⟩),both.2⟩
  cases length : contentLength headers with
  | some n =>
    rw [body_length framed length]
    refine ⟨Nat.le_trans takeBytes_out ((Nat.min_le_right ..).trans short),?_⟩
    exact (takeBytes_keeps (P := fun d => d.held ≤ limit ∧ d.bytes.length ≤ limit) n ⟨held,short⟩ drains
      fun d both _ => keeps d both).1
  | none =>
    rw [body_end framed length]
    refine ⟨readToEnd_out.trans short,?_⟩
    refine (readToEnd_keeps (P := fun d => d.held ≤ limit ∧ d.bytes.length ≤ limit) ⟨held,short⟩ ?_ keeps).1
    intro d both
    refine ⟨both.1,Nat.le_trans ?_ both.2⟩
    simp [Conn.bytes,Conn.unread]

/-- A length that a read does not lift over the limit, or that has come with the head. -/
theorem length_bounded (framed : isChunked headers = false) (length : contentLength headers = some n)
    (held : c.held ≤ limit) (buffered : c.buf.length ≤ c.held) (low : n + 8191 ≤ limit ∨ n ≤ c.buf.length) :
    Bounded (readResponseBody socket headers c) := by
  rw [body_length framed length]
  refine ⟨?_,?_⟩
  · refine (takeBytes_out.trans (Nat.min_le_left ..)).trans ?_
    omega
  · rcases low with low | here
    · refine takeBytes_keeps (P := fun d => d.held ≤ limit) n held (fun d n lost held => held) fun d held short => ?_
      exact read_bounded held (by omega)
    · have done : checkLength n c.buf = .done () := by simp [checkLength,Nat.not_lt.mpr here]
      rw [takeBytes,fill_done c done]
      exact held

/-- The loop ends well only if all the chunks together fit, with what it has put together before. -/
theorem chunks_announced (out : List UInt8) (c : Conn) (ok : (chunks socket out c).ok = true)
    (announces : Announces c.bytes total) : out.length + total ≤ maxProxyResponseBytes := by
  fun_induction chunks socket out c generalizing total with
  | case4 out c line c' took size fits =>
    obtain ⟨pos,found,_,rfl,_⟩ := takeLine_some took
    cases announces with
    | one there same =>
      obtain rfl := Option.some.inj (found.symm.trans there)
      have none_ : total = 0 := Option.some.inj (same.symm.trans size)
      omega
    | more there same some_ rest =>
      obtain rfl := Option.some.inj (found.symm.trans there)
      exact absurd (Option.some.inj (same.symm.trans size)) some_
  | case6 out c line c' took n size fits some_ bytes c'' payload ih =>
    obtain ⟨pos,found,_,rfl,behind,_⟩ := takeLine_some took
    obtain ⟨long,rfl,rest,_⟩ := takeBytes_some payload
    have added : (out ++ (c'.bytes.take (n + 2)).take n).length = out.length + n := by
      rw [List.length_append,List.length_take,List.length_take]
      omega
    cases announces with
    | one there same =>
      obtain rfl := Option.some.inj (found.symm.trans there)
      obtain rfl := Option.some.inj (size.symm.trans same)
      omega
    | more there same _ later =>
      obtain rfl := Option.some.inj (found.symm.trans there)
      obtain rfl := Option.some.inj (size.symm.trans same)
      have fits := ih ok (by rwa [rest,behind,List.drop_drop])
      omega
  | _ => simp at ok

theorem chunks_refused (headers : List ParsedHeader) (framed : isChunked headers = true) (larger : Larger headers c.bytes) :
    (readResponseBody socket headers c).ok = false := by
  rw [readResponseBody,if_pos framed]
  rw [Larger,if_pos framed] at larger
  obtain ⟨total,announces,long⟩ := larger
  by_contra ended
  have fits := chunks_announced [] c (by simpa using ended) announces
  simp at fits
  omega

/-- A body without chunks that does not fit and whose bytes all do is cut off. -/
theorem short_refused (headers : List ParsedHeader) (framed : isChunked headers = false) (short : c.bytes.length ≤ limit)
    (larger : Larger headers c.bytes) : (readResponseBody socket headers c).ok = false := by
  simp only [Larger,framed,Bool.false_eq_true,if_false] at larger
  cases length : contentLength headers with
  | none =>
    rw [length] at larger
    exact absurd short (Nat.not_le.mpr larger)
  | some n =>
    rw [length] at larger
    rw [body_length framed length]
    cases took : (takeBytes n c).1 with
    | none => rfl
    | some bytes =>
      have long := (takeBytes_some (Prod.ext took rfl : takeBytes n c = (some bytes,(takeBytes n c).2))).1
      exact absurd (long.trans short) (Nat.not_le.mpr larger)

/-- What is in the buffer at the start is held. -/
theorem start_held (headers : List ParsedHeader) (buffered : c.buf.length ≤ c.held) :
    c.held ≤ (readResponseBody socket headers c).state.held := by
  have drains (d : Conn) (n lost : Nat) (both : d.buf.length ≤ d.held ∧ c.held ≤ d.held) :
      (d.drain n lost).2.buf.length ≤ (d.drain n lost).2.held ∧ c.held ≤ (d.drain n lost).2.held := by
    refine ⟨?_,both.2⟩
    simp only [Conn.drain,List.length_drop]
    omega
  have keeps (d : Conn) (both : d.buf.length ≤ d.held ∧ c.held ≤ d.held) :
      (d.read 8192).2.buf.length ≤ (d.read 8192).2.held ∧ c.held ≤ (d.read 8192).2.held := by
    obtain ⟨fits,more⟩ := read_held 8192 d both.1
    exact ⟨fits,both.2.trans more⟩
  have taken (n : Nat) (d : Conn) (both : d.buf.length ≤ d.held ∧ c.held ≤ d.held) :
      (takeBytes n d).2.buf.length ≤ (takeBytes n d).2.held ∧ c.held ≤ (takeBytes n d).2.held :=
    takeBytes_keeps (P := fun d => d.buf.length ≤ d.held ∧ c.held ≤ d.held) n both drains fun d both _ => keeps d both
  cases framed : isChunked headers with
  | true =>
    rw [readResponseBody,if_pos framed]
    refine (chunks_keeps (r := socket) (P := fun d => d.buf.length ≤ d.held ∧ c.held ≤ d.held) [] c
      ⟨buffered,Nat.le_refl _⟩ ?_ fun n d _ => taken n d).2
    intro cap d _ both
    exact takeLine_keeps (P := fun d => d.buf.length ≤ d.held ∧ c.held ≤ d.held) cap both drains fun d both _ => keeps d both
  | false =>
    cases length : contentLength headers with
    | some n =>
      rw [body_length framed length]
      exact (taken n c ⟨buffered,Nat.le_refl _⟩).2
    | none =>
      rw [body_end framed length]
      refine (readToEnd_keeps (P := fun d => d.buf.length ≤ d.held ∧ c.held ≤ d.held) ⟨buffered,Nat.le_refl _⟩ ?_ keeps).2
      exact fun d both => ⟨Nat.zero_le _,both.2⟩

/-- A loop that waits for more than there is, or for the end, comes to hold all of it. -/
theorem all_held (check : List UInt8 → Verdict α) (atEof : Option α) (buffered : c.buf.length ≤ c.held)
    (more : ∀ d : Conn, d.bytes = c.bytes → check d.buf = .more) :
    c.bytes.length ≤ (fill 8192 check atEof c).2.held := by
  obtain ⟨d,fits,reached,same,_,eq⟩ := fill_reaches 8192 check atEof
    (fun d => d.buf.length ≤ d.held) c.bytes.length c (by decide) buffered (Nat.le_refl _)
    (by
      intro d k d' fits _ _ read
      have kept := (read_held 8192 d fits).1
      rwa [read] at kept)
    (fun d _ same _ => more d same)
  have last : d.unread = [] := by
    rw [← same,Conn.bytes,List.length_append] at reached
    exact List.length_eq_zero_iff.mp (by omega)
  rw [eq,fill_last d (by decide) (more d same) last]
  exact reached.trans fits

theorem end_held (headers : List ParsedHeader) (framed : isChunked headers = false) (length : contentLength headers = none)
    (buffered : c.buf.length ≤ c.held) : c.bytes.length ≤ (readResponseBody socket headers c).state.held := by
  have held := all_held (fun _ => Verdict.more) (some ()) buffered fun _ _ => rfl
  rw [body_end framed length]
  change c.bytes.length ≤ (readToEnd c).2.held
  unfold readToEnd
  split
  next d eq => rw [eq] at held; exact held
  next d eq => rw [eq] at held; exact held

theorem short_held (n : Nat) (less : c.bytes.length < n) (buffered : c.buf.length ≤ c.held) :
    c.bytes.length ≤ (takeBytes n c).2.held := by
  have held := all_held (checkLength n) none buffered fun d same => by
    have inside : d.buf.length ≤ d.bytes.length := by rw [Conn.bytes,List.length_append]; omega
    have short : d.buf.length < n := by rw [same] at inside; omega
    simp [checkLength,short]
  unfold takeBytes
  split
  next d eq => rw [eq] at held; exact held
  next d eq => rw [eq] at held; exact held

end Held

/-- A body cut just before its announced end, and then as much as a read takes. -/
def lastRead (leftover bytes : List UInt8) (n : Nat) : List (List UInt8) :=
  [bytes.take (n - 1 - leftover.length),bytes.drop (n - 1 - leftover.length)]

theorem lastRead_held (leftover bytes : List UInt8) (ending : Ending) (later : leftover.length < n)
    (enough : n ≤ leftover.length + bytes.length) :
    min (leftover.length + bytes.length) (n + 8191) ≤
      (takeBytes n (.start leftover (lastRead leftover bytes n) ending)).2.held := by
  let c := Conn.start leftover (lastRead leftover bytes n) ending
  have front : (bytes.take (n - 1 - leftover.length)).length = n - 1 - leftover.length := by
    rw [List.length_take]
    omega
  have some_ : bytes.drop (n - 1 - leftover.length) ≠ [] := by
    rw [Ne,List.drop_eq_nil_iff]
    omega
  obtain ⟨d,buf,_,_,held,eq⟩ := fill_piece (checkLength n) none c rfl (by decide : 0 < 8192) some_ (by
    intro d _ less
    have short : d.buf.length < n := by
      rw [front] at less
      simp only [c,Conn.start] at less
      omega
    simp [checkLength,short])
  have length : d.buf.length = min (leftover.length + bytes.length) (n + 8191) := by
    rw [buf,List.length_append,List.length_append,front,List.length_take,List.length_drop]
    simp only [c,Conn.start]
    omega
  have done : checkLength n d.buf = .done () := by
    have long : ¬ d.buf.length < n := by omega
    simp [checkLength,long]
  change _ ≤ (takeBytes n c).2.held
  rw [takeBytes,eq.trans (fill_done d done),← length]
  exact held

/-- The body and the buffer stay within the limit and what is larger is an error, however the bytes
come in, if and only if what came with the head fits and the framing is chunked, or there are not
more bytes, or no read starts that could pass the limit. -/
theorem body_bounded_iff (headers : List ParsedHeader) (leftover bytes : List UInt8) (ending : Ending) :
    (∀ pieces : List (List UInt8), pieces.flatten = bytes →
      Capped headers (leftover ++ bytes) (readResponseBody socket headers (.start leftover pieces ending))) ↔
    leftover.length ≤ limit ∧ (isChunked headers = true ∨ leftover.length + bytes.length ≤ limit ∨
      ∃ n, contentLength headers = some n ∧ (n + 8191 ≤ limit ∨ n ≤ leftover.length)) := by
  have whole (pieces : List (List UInt8)) (flat : pieces.flatten = bytes) :
      (Conn.start leftover pieces ending).bytes = leftover ++ bytes := by
    rw [← flat]
    rfl
  have total (pieces : List (List UInt8)) (flat : pieces.flatten = bytes) :
      (Conn.start leftover pieces ending).bytes.length = leftover.length + bytes.length := by
    rw [whole pieces flat,List.length_append]
  constructor
  · intro capped
    have bounded (pieces : List (List UInt8)) (flat : pieces.flatten = bytes) := (capped pieces flat).bounded
    have one : [bytes].flatten = bytes := List.flatten_singleton
    refine ⟨(start_held headers (c := .start leftover [bytes] ending) (Nat.le_refl _)).trans (bounded _ one).2,?_⟩
    cases framed : isChunked headers with
    | true => exact .inl rfl
    | false =>
      refine .inr ?_
      by_contra neither
      obtain ⟨long,unannounced⟩ := not_or.mp neither
      cases length : contentLength headers with
      | none =>
        have held := end_held headers framed length (c := .start leftover [bytes] ending) (Nat.le_refl _)
        rw [total _ one] at held
        exact long (held.trans (bounded _ one).2)
      | some n =>
        have open_ : ¬ n + 8191 ≤ limit ∧ ¬ n ≤ leftover.length :=
          not_or.mp fun low => unannounced ⟨n,length,low⟩
        by_cases enough : n ≤ leftover.length + bytes.length
        · have cut : (lastRead leftover bytes n).flatten = bytes := by simp [lastRead]
          have held := lastRead_held leftover bytes ending (Nat.lt_of_not_le open_.2) enough
          have most := (bounded _ cut).2
          rw [body_length framed length] at most
          rcases Nat.le_total (leftover.length + bytes.length) (n + 8191) with all | more
          · rw [Nat.min_eq_left all] at held
            exact long (held.trans most)
          · rw [Nat.min_eq_right more] at held
            exact open_.1 (held.trans most)
        · have held := short_held n (c := .start leftover [bytes] ending) (by rw [total _ one]; omega) (Nat.le_refl _)
          have most := (bounded _ one).2
          rw [body_length framed length] at most
          rw [total _ one] at held
          exact long (held.trans most)
  · rintro ⟨start,within⟩ pieces flat
    rw [← whole pieces flat]
    cases framed : isChunked headers with
    | true => exact ⟨chunks_bounded headers framed start,chunks_refused headers framed⟩
    | false =>
      rw [framed] at within
      rcases within with chunked | short | ⟨n,length,low⟩
      · contradiction
      · rw [← total pieces flat] at short
        exact ⟨short_bounded framed start short,short_refused headers framed short⟩
      · refine ⟨length_bounded framed length start (Nat.le_refl _) low,fun larger => ?_⟩
        simp only [Larger,framed,length,Bool.false_eq_true,if_false] at larger
        omega

/-- Without any framing the buffer takes all that is sent. -/
theorem unframed_unbounded : ¬ ∀ (headers : List ParsedHeader) (leftover : List UInt8) (pieces : List (List UInt8))
    (ending : Ending), Capped headers (leftover ++ pieces.flatten) (readResponseBody socket headers (.start leftover pieces ending)) := by
  intro capped
  have held := end_held [] rfl rfl (c := .start [] [List.replicate (limit + 1) 0] .eof) (Nat.le_refl _)
  have most := held.trans (capped [] [] [List.replicate (limit + 1) 0] .eof).bounded.2
  have size : (Conn.start [] [List.replicate (limit + 1) 0] .eof).bytes.length = limit + 1 := by
    simp [Conn.start,Conn.bytes,Conn.unread]
  rw [size] at most
  exact Nat.not_succ_le_self limit most

end Malkuth.BackendResponse
