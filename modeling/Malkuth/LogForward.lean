import Malkuth.Newest
import Malkuth.Text
import Malkuth.Utf8

/-! `forward` of `bin/malkuth/log_forward.rs`: a task reads one stream of a pod by lines, keeps
each in a ring and shows it on `tracing`, up to a rate. Instants are nanoseconds. A poisoned
lock is not modelled, since nothing under it panics. -/
namespace Malkuth.LogForward

open Newest Utf8

def maxLineBytes : Nat := 8 * 1024
def rateLimitPerSec : Nat := 200
def second : Nat := 10^9
def summaryEvery : Nat := 5 * second
def maxLogLineBytes : Nat := 64 * 1024
def ringMaxLines : Nat := 500

abbrev Line := List Char

/-- The ring of all pods. -/
structure RuntimeLog where
  inner : List Line
  bounded : inner.length ≤ ringMaxLines

def RuntimeLog.push (log : RuntimeLog) (line : Line) : RuntimeLog where
  inner := pushThenDrop ringMaxLines log.inner line
  bounded := by
    rw [← rtake_of_length_le log.bounded,pushThenDrop_rtake,length_rtake]
    exact Nat.min_le_left ..

/-- What the task shows, and when its window starts anew. -/
inductive Shown where
  | window (now : Nat)
  | line (text : Line)
  | summary (dropped : Nat)
  deriving DecidableEq

/-- `received` are the lines that were put into the ring since the task began, each with whether
it is the task's own. -/
structure Task where
  windowStart : Nat
  windowCount : Nat
  droppedSinceSummary : Nat
  lastSummary : Nat
  ring : RuntimeLog
  received : List (Bool × Line)
  shown : List Shown

inductive Turn where
  | line (text : Line) (now : Nat)
  /-- A read error: `continue`. -/
  | error
  /-- Another task puts a line into the ring. -/
  | other (text : Line)

def Task.start (now : Nat) (ring : RuntimeLog) : Task := ⟨now,0,0,now,ring,[],[.window now]⟩

def Task.push (s : Task) (own : Bool) (line : Line) : Task :=
  { s with ring := s.ring.push line, received := s.received ++ [(own,line)] }

/-- The line for the ring; `String::truncate` panics inside a character. -/
def ringLine (t : Line) : Option Line :=
  if maxLogLineBytes < size t then (takeBytes t maxLogLineBytes).map (· ++ ['…']) else some t

/-- `truncate_on_char_boundary`; the slice panics inside a character. -/
def truncateOnCharBoundary (t : Line) : Option Line :=
  if size t ≤ maxLineBytes then some t else takeBytes t (seekBack t maxLineBytes)

def Task.renewWindow (s : Task) (now : Nat) : Task :=
  if second ≤ now - s.windowStart then
    { s with windowStart := now, windowCount := 0, shown := s.shown ++ [.window now] }
  else s

def Task.drop (s : Task) (now : Nat) : Task :=
  let dropped := s.droppedSinceSummary + 1
  if summaryEvery ≤ now - s.lastSummary then
    { s with droppedSinceSummary := 0, lastSummary := now, shown := s.shown ++ [.summary dropped] }
  else { s with droppedSinceSummary := dropped }

def Task.emit (s : Task) (text : Line) : Task :=
  { s with windowCount := s.windowCount + 1, shown := s.shown ++ [.line text] }

/-- Only the emission is rate-limited. -/
def Task.limit (s : Task) (t : Line) (now : Nat) : Option Task :=
  let s := s.renewWindow now
  if rateLimitPerSec ≤ s.windowCount then some (s.drop now) else (truncateOnCharBoundary t).map s.emit

def Task.take (s : Task) : Turn → Option Task
  | .line text now =>
    let t := Text.trimList text
    if t = [] then some s
    else do
      let kept ← ringLine t
      (s.push true kept).limit t now
  | .error => some s
  | .other text => some (s.push false text)

/-- The stream has ended. -/
def Task.finish (s : Task) : Task :=
  if 0 < s.droppedSinceSummary then { s with shown := s.shown ++ [.summary s.droppedSinceSummary] } else s

def Task.forward (s : Task) : List Turn → Option Task
  | [] => some s.finish
  | turn :: turns => do
    let s' ← s.take turn
    s'.forward turns

def Turn.text : Turn → Option Line
  | .line text _ => if Text.trimList text = [] then none else some (Text.trimList text)
  | _ => none

def texts (turns : List Turn) : List Line := turns.filterMap Turn.text

/-- The lines that the task has put into the ring, in order. -/
def Task.stored (s : Task) : List Line := (s.received.filter Prod.fst).map Prod.snd

/-- A line as it belongs into the ring. -/
def Kept (t line : Line) : Prop :=
  if size t ≤ maxLogLineBytes then line = t else ∃ front, front <+: t ∧ size front ≤ maxLogLineBytes ∧ line = front ++ ['…']

theorem ringLine_kept (cut : ringLine t = some line) : Kept t line := by
  unfold ringLine at cut
  unfold Kept
  split at cut
  next long =>
    rw [if_neg (Nat.not_le.mpr long)]
    obtain ⟨front,taken,rfl⟩ := Option.map_eq_some_iff.mp cut
    obtain ⟨start,at_⟩ := takeBytes_eq_some taken
    exact ⟨front,start,Nat.le_of_eq at_,rfl⟩
  next short =>
    rw [if_pos (Nat.le_of_not_lt short)]
    exact (Option.some.inj cut).symm

theorem ringLine_isSome (t : Line) :
    (ringLine t).isSome = true ↔ size t ≤ maxLogLineBytes ∨ isCharBoundary t maxLogLineBytes = true := by
  unfold ringLine
  split
  next long =>
    rw [Option.isSome_map,takeBytes_isSome]
    exact (or_iff_right (Nat.not_le.mpr long)).symm
  next short => exact iff_of_true rfl (.inl (Nat.le_of_not_lt short))

/-- The emission never panics. -/
theorem truncateOnCharBoundary_some (t : Line) : ∃ front, truncateOnCharBoundary t = some front ∧ front <+: t ∧
    size front ≤ maxLineBytes := by
  unfold truncateOnCharBoundary
  split
  next short => exact ⟨t,rfl,List.prefix_refl t,short⟩
  next long =>
    obtain ⟨low,boundary⟩ := seekBack_spec t maxLineBytes
    rw [← takeBytes_isSome] at boundary
    obtain ⟨front,taken⟩ := Option.isSome_iff_exists.mp boundary
    obtain ⟨start,at_⟩ := takeBytes_eq_some taken
    exact ⟨front,taken,start,at_ ▸ low⟩

/-- What comes of a line beside its place in the ring: it is counted, or shown. -/
theorem limit_cases (s : Task) (t : Line) (now : Nat) : ∃ s', s.limit t now = some s' ∧
    ((rateLimitPerSec ≤ (s.renewWindow now).windowCount ∧ s' = (s.renewWindow now).drop now) ∨
     ∃ front, (s.renewWindow now).windowCount < rateLimitPerSec ∧ s' = (s.renewWindow now).emit front) := by
  unfold Task.limit
  dsimp only
  split
  next many => exact ⟨_,rfl,.inl ⟨many,rfl⟩⟩
  next few =>
    obtain ⟨front,cut,_⟩ := truncateOnCharBoundary_some t
    exact ⟨_,by rw [cut]; rfl,.inr ⟨front,Nat.lt_of_not_le few,rfl⟩⟩

/-! What happens to the ring. -/
section Ring

variable {s s' : Task} {turn : Turn} {turns : List Turn}

theorem limit_frame (limited : s.limit t now = some s') : s'.ring = s.ring ∧ s'.received = s.received := by
  obtain ⟨s'',there,cases_⟩ := limit_cases s t now
  obtain rfl := Option.some.inj (there.symm.trans limited)
  have window : (s.renewWindow now).ring = s.ring ∧ (s.renewWindow now).received = s.received := by
    unfold Task.renewWindow
    split <;> exact ⟨rfl,rfl⟩
  obtain ⟨_,rfl⟩ | ⟨front,_,rfl⟩ := cases_
  · unfold Task.drop
    dsimp only
    split <;> exact window
  · exact window

def Turn.puts : Turn → Option (List (Bool × Line))
  | .line text _ =>
    if Text.trimList text = [] then some [] else (ringLine (Text.trimList text)).map fun kept => [(true,kept)]
  | .error => some []
  | .other text => some [(false,text)]

theorem take_none (stuck : turn.puts = none) : s.take turn = none := by
  cases turn with
  | line text now =>
    rw [Turn.puts] at stuck
    split at stuck
    next => cases stuck
    next some_ =>
      rw [Task.take]
      simp [some_,Option.map_eq_none_iff.mp stuck]
  | error => cases stuck
  | other text => cases stuck

theorem take_some (puts : turn.puts = some put) : ∃ s', s.take turn = some s' ∧ s'.received = s.received ++ put ∧
    s'.ring = (put.map Prod.snd).foldl RuntimeLog.push s.ring := by
  cases turn with
  | line text now =>
    rw [Turn.puts] at puts
    split at puts
    next blank =>
      obtain rfl := Option.some.inj puts
      exact ⟨s,by simp [Task.take,blank],by simp,rfl⟩
    next some_ =>
      obtain ⟨kept,cut,rfl⟩ := Option.map_eq_some_iff.mp puts
      obtain ⟨s',limited,_⟩ := limit_cases (s.push true kept) (Text.trimList text) now
      obtain ⟨ring,received⟩ := limit_frame limited
      exact ⟨s',by simp [Task.take,some_,cut,limited],received,ring⟩
  | error =>
    obtain rfl := Option.some.inj puts
    exact ⟨s,rfl,by simp,rfl⟩
  | other text =>
    obtain rfl := Option.some.inj puts
    exact ⟨s.push false text,rfl,rfl,rfl⟩

theorem foldl_push (log : RuntimeLog) (lines : List Line) :
    (lines.foldl RuntimeLog.push log).inner = (log.inner ++ lines).rtake ringMaxLines := by
  induction lines using List.reverseRecOn with
  | nil => simpa using (rtake_of_length_le log.bounded).symm
  | append_singleton lines line ih =>
    rw [List.foldl_append,List.foldl_cons,List.foldl_nil,← List.append_assoc,← pushThenDrop_rtake,← ih]
    rfl

theorem finish_frame (s : Task) : s.finish.ring = s.ring ∧ s.finish.received = s.received := by
  unfold Task.finish
  split <;> exact ⟨rfl,rfl⟩

/-- A run that meets no panic has put into the ring what its turns put there. -/
theorem forward_puts (puts : turns.mapM Turn.puts = some put) : ∃ s', s.forward turns = some s' ∧
    s'.received = s.received ++ put.flatten ∧ s'.ring = (put.flatten.map Prod.snd).foldl RuntimeLog.push s.ring := by
  induction turns generalizing s put with
  | nil =>
    obtain rfl := Option.some.inj puts
    obtain ⟨ring,received⟩ := finish_frame s
    exact ⟨s.finish,rfl,by simpa using received,by simpa using ring⟩
  | cons turn turns ih =>
    rw [List.mapM_cons] at puts
    obtain ⟨first,here,puts⟩ := Option.bind_eq_some_iff.mp puts
    obtain ⟨rest,later,puts⟩ := Option.bind_eq_some_iff.mp puts
    obtain rfl := Option.some.inj puts
    obtain ⟨s₁,taken,received₁,ring₁⟩ := take_some (s := s) here
    obtain ⟨s',forwarded,received,ring⟩ := ih (s := s₁) later
    refine ⟨s',by simp [Task.forward,taken,forwarded],?_,?_⟩
    · rw [received,received₁,List.flatten_cons,List.append_assoc]
    · rw [ring,ring₁,List.flatten_cons,List.map_append,List.foldl_append]

/-- And one that meets a panic has not ended. -/
theorem forward_none (stuck : turns.mapM Turn.puts = none) : s.forward turns = none := by
  induction turns generalizing s with
  | nil => cases stuck
  | cons turn turns ih =>
    cases here : turn.puts with
    | none =>
      rw [Task.forward,take_none here]
      rfl
    | some put =>
      obtain ⟨s₁,taken,_⟩ := take_some (s := s) here
      have later : turns.mapM Turn.puts = none := by
        cases rest : turns.mapM Turn.puts with
        | none => rfl
        | some rest' => simp [List.mapM_cons,here,rest] at stuck
      rw [Task.forward,taken]
      exact ih later

theorem texts_cons (turn : Turn) (turns : List Turn) : texts (turn :: turns) = turn.text.toList ++ texts turns := by
  cases text : turn.text with
  | none => simp [texts,text]
  | some t => simp [texts,text]

def own (put : List (Bool × Line)) : List Line := (put.filter Prod.fst).map Prod.snd

theorem own_append (front back : List (Bool × Line)) : own (front ++ back) = own front ++ own back := by simp [own]

theorem puts_isSome (turn : Turn) : (∃ put, turn.puts = some put) ↔
    ∀ t, turn.text = some t → size t ≤ maxLogLineBytes ∨ isCharBoundary t maxLogLineBytes = true := by
  cases turn with
  | line text now =>
    by_cases blank : Text.trimList text = []
    · simp [Turn.puts,Turn.text,blank]
    · simp [Turn.puts,Turn.text,blank,← ringLine_isSome,Option.isSome_iff_exists]
  | error => simp [Turn.puts,Turn.text]
  | other text => simp [Turn.puts,Turn.text]

theorem puts_kept (puts : turn.puts = some put) : List.Forall₂ Kept turn.text.toList (own put) := by
  cases turn with
  | line text now =>
    by_cases blank : Text.trimList text = []
    · obtain rfl : [] = put := by simpa [Turn.puts,blank] using puts
      simp [Turn.text,blank,own]
    · rw [Turn.puts,if_neg blank] at puts
      obtain ⟨kept,cut,rfl⟩ := Option.map_eq_some_iff.mp puts
      simpa [Turn.text,blank,own] using ringLine_kept cut
  | error =>
    obtain rfl := Option.some.inj puts
    exact .nil
  | other text =>
    obtain rfl := Option.some.inj puts
    exact .nil

theorem all_puts_iff (turns : List Turn) : (∃ put, turns.mapM Turn.puts = some put) ↔
    ∀ t ∈ texts turns, size t ≤ maxLogLineBytes ∨ isCharBoundary t maxLogLineBytes = true := by
  induction turns with
  | nil => simp [texts]
  | cons turn turns ih =>
    have first := puts_isSome turn
    rw [texts_cons,List.forall_mem_append,← ih]
    simp only [Option.mem_toList]
    rw [← first]
    simp [List.mapM_cons,Option.bind_eq_some_iff]

theorem all_puts_kept (puts : turns.mapM Turn.puts = some put) : List.Forall₂ Kept (texts turns) (own put.flatten) := by
  induction turns generalizing put with
  | nil =>
    obtain rfl := Option.some.inj puts
    exact .nil
  | cons turn turns ih =>
    rw [List.mapM_cons] at puts
    obtain ⟨first,here,puts⟩ := Option.bind_eq_some_iff.mp puts
    obtain ⟨rest,later,puts⟩ := Option.bind_eq_some_iff.mp puts
    obtain rfl := Option.some.inj puts
    rw [texts_cons,List.flatten_cons,own_append]
    exact List.rel_append (puts_kept here) (ih later)

end Ring

/-- The task reads its stream to the end, and puts into the ring each line or its start with the
mark, if and only if no line beyond 64 KiB has a character across that byte. -/
theorem forward_drains_iff (now : Nat) (ring : RuntimeLog) (turns : List Turn) :
    (∃ s', (Task.start now ring).forward turns = some s' ∧ List.Forall₂ Kept (texts turns) s'.stored ∧
      s'.ring.inner = (ring.inner ++ s'.received.map Prod.snd).rtake ringMaxLines) ↔
    ∀ t ∈ texts turns, size t ≤ maxLogLineBytes ∨ isCharBoundary t maxLogLineBytes = true := by
  rw [← all_puts_iff]
  constructor
  · rintro ⟨s',forwarded,_⟩
    cases puts : turns.mapM Turn.puts with
    | none =>
      rw [forward_none puts] at forwarded
      cases forwarded
    | some put => exact ⟨put,rfl⟩
  · rintro ⟨put,puts⟩
    obtain ⟨s',forwarded,received,ring_⟩ := forward_puts (s := Task.start now ring) puts
    have received : s'.received = put.flatten := by simpa [Task.start] using received
    refine ⟨s',forwarded,?_,?_⟩
    · rw [Task.stored,received]
      exact all_puts_kept puts
    · rw [ring_,foldl_push,received]
      rfl

def accented (n : Nat) : Line := List.replicate n 'a' ++ ['é']

theorem size_accented (n : Nat) : size (accented n) = n + 2 := by
  induction n with
  | zero => decide
  | succ n ih =>
    rw [accented,List.replicate_succ,List.cons_append,size_cons,← accented,ih,Nat.add_comm]
    rfl

theorem accented_inside (n : Nat) : isCharBoundary (accented n) (n + 1) = false := by
  induction n with
  | zero => decide
  | succ n ih =>
    rw [accented,List.replicate_succ,List.cons_append,← accented,isCharBoundary,dropBytes]
    exact ih

theorem trimList_accented (n : Nat) : Text.trimList (accented n) = accented n := by
  have solid : ∀ c ∈ accented n, Text.isWhitespace c = false := by
    intro c member
    rcases List.mem_append.mp member with many | last
    · rw [List.eq_of_mem_replicate many]
      decide
    · rw [List.mem_singleton.mp last]
      decide
  have whole (cs : Line) (all : ∀ c ∈ cs, Text.isWhitespace c = false) : cs.dropWhile Text.isWhitespace = cs := by
    cases cs with
    | nil => rfl
    | cons c cs => simp [all c List.mem_cons_self]
  rw [Text.trimList,whole _ solid,whole _ (by simpa using solid),List.reverse_reverse]

/-- One such line, and the task is gone. -/
theorem accented_panics : ¬ ∀ now ring turns, ∃ s', (Task.start now ring).forward turns = some s' := by
  intro drains
  obtain ⟨n,cap⟩ : ∃ n, maxLogLineBytes = n + 1 := ⟨65535,rfl⟩
  obtain ⟨s',forwarded⟩ := drains 0 ⟨[],by decide⟩ [.line (accented n) 0]
  have some_ : accented n ≠ [] := by simp [accented]
  have stuck : ¬ (ringLine (accented n)).isSome = true := by
    rw [ringLine_isSome,cap,size_accented,accented_inside]
    rintro (short | boundary)
    · omega
    · cases boundary
  have panics : (Turn.line (accented n) 0).puts = none := by
    rw [Turn.puts,trimList_accented,if_neg some_,Option.map_eq_none_iff]
    simpa using stuck
  rw [Task.forward,take_none panics] at forwarded
  cases forwarded

end Malkuth.LogForward
