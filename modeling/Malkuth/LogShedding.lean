import Malkuth.LogForward
import Mathlib.Data.List.Chain

/-! What `forward` of `bin/malkuth/log_forward.rs` does with the lines beyond its rate. Every line
is shown or counted, and every count is shown in the end. -/
namespace Malkuth.LogForward

open Newest Utf8

def Shown.isLine : Shown → Bool
  | .line _ => true
  | _ => false

def Shown.isWindow : Shown → Bool
  | .window _ => true
  | _ => false

def Shown.windowAt : Shown → Option Nat
  | .window now => some now
  | _ => none

def Shown.dropped : Shown → Nat
  | .summary dropped => dropped
  | _ => 0

/-- How many lines are shown, and how many the summaries say were dropped. -/
def emitted (shown : List Shown) : Nat := shown.countP Shown.isLine
def dropped (shown : List Shown) : Nat := (shown.map Shown.dropped).sum

def windows (shown : List Shown) : List Nat := shown.filterMap Shown.windowAt

/-- No window starts in between. -/
def Within (part : List Shown) : Prop := ∀ e ∈ part, e.isWindow = false

/-- The rate holds within every window. -/
def Rated (shown : List Shown) : Prop := ∀ part, part <:+: shown → Within part → emitted part ≤ rateLimitPerSec

/-- A part without a certain element lies on one side of it. -/
theorem infix_side (free : x ∉ part) (inside : part <:+: front ++ x :: back) : part <:+: front ∨ part <:+: back := by
  obtain ⟨before,after,eq⟩ := inside
  rcases List.append_eq_append_iff.mp eq with ⟨more,left,_⟩ | ⟨more,left,right⟩
  · exact .inl ⟨before,more,left.symm⟩
  cases more with
  | nil => exact .inl ⟨before,[],by rw [List.append_nil,left,List.append_nil]⟩
  | cons y more =>
    obtain ⟨rfl,rest⟩ := List.cons.inj right
    rcases List.append_eq_append_iff.mp left with ⟨end_,_,beyond⟩ | ⟨end_,_,beyond⟩
    · exact absurd (beyond ▸ by simp) free
    cases end_ with
    | nil =>
      have whole : x :: more = part := beyond
      exact absurd (whole ▸ List.mem_cons_self) free
    | cons z end_ =>
      obtain ⟨rfl,tail⟩ : x = z ∧ more = end_ ++ part := List.cons.inj beyond
      exact .inr ⟨end_,after,by rw [← tail]; exact rest.symm⟩

theorem emitted_append (front back : List Shown) : emitted (front ++ back) = emitted front + emitted back := List.countP_append

theorem dropped_append (front back : List Shown) : dropped (front ++ back) = dropped front + dropped back := by simp [dropped]

@[simp] theorem emitted_line (text : Line) : emitted [.line text] = 1 := rfl
@[simp] theorem emitted_summary (n : Nat) : emitted [.summary n] = 0 := rfl
@[simp] theorem dropped_line (text : Line) : dropped [.line text] = 0 := rfl
@[simp] theorem dropped_summary (n : Nat) : dropped [.summary n] = n := rfl

theorem windows_append (front back : List Shown) : windows (front ++ back) = windows front ++ windows back :=
  List.filterMap_append

theorem windows_within (within : Within part) : windows part = [] := by
  rw [windows,List.filterMap_eq_nil_iff]
  intro e member
  have other := within e member
  cases e with
  | window now => cases other
  | line text => rfl
  | summary n => rfl

/-- A log of windows that hold the rate, the last of them still open. -/
structure Open (shown : List Shown) (start count : Nat) : Prop where
  split : ∃ front part, shown = front ++ .window start :: part ∧ Rated front ∧ Within part ∧ emitted part = count
  few : count ≤ rateLimitPerSec
  apart : (windows shown).IsChain (· + second ≤ ·)

theorem Open.rated (open_ : Open shown start count) : Rated shown := by
  obtain ⟨front,part,rfl,rated,_,counted⟩ := open_.split
  intro inner inside within
  have free : .window start ∉ inner := fun member => Bool.false_ne_true (within _ member).symm
  rcases infix_side free inside with left | right
  · exact rated inner left within
  · exact (right.sublist.countP_le).trans (counted.trans_le open_.few)

/-- A window that starts a second later. -/
theorem Open.window (open_ : Open shown start count) (later : start + second ≤ now) :
    Open (shown ++ [.window now]) now 0 := by
  refine ⟨⟨shown,[],rfl,open_.rated,by simp [Within],rfl⟩,Nat.zero_le _,?_⟩
  obtain ⟨front,part,rfl,_,within,_⟩ := open_.split
  have last : windows (front ++ .window start :: part) = windows front ++ [start] := by
    have tail : windows (.window start :: part) = start :: windows part := rfl
    rw [windows_append,tail,windows_within within]
  have chain := open_.apart
  rw [last] at chain
  rw [windows_append,last,List.append_assoc]
  exact List.isChain_append_cons_cons.mpr ⟨chain,later,.singleton now⟩

theorem Open.line (open_ : Open shown start count) (few : count < rateLimitPerSec) (text : Line) :
    Open (shown ++ [.line text]) start (count + 1) := by
  obtain ⟨front,part,rfl,rated,within,counted⟩ := open_.split
  refine ⟨⟨front,part ++ [.line text],by simp,rated,?_,?_⟩,few,?_⟩
  · simpa [Within,or_imp,forall_and,Shown.isWindow] using within
  · rw [emitted_append,counted]
    rfl
  · rw [windows_append]
    exact (List.append_nil _).symm ▸ open_.apart

theorem Open.summary (open_ : Open shown start count) (n : Nat) : Open (shown ++ [.summary n]) start count := by
  obtain ⟨front,part,rfl,rated,within,counted⟩ := open_.split
  refine ⟨⟨front,part ++ [.summary n],by simp,rated,?_,?_⟩,open_.few,?_⟩
  · simpa [Within,or_imp,forall_and,Shown.isWindow] using within
  · rw [emitted_append,counted]
    rfl
  · rw [windows_append]
    exact (List.append_nil _).symm ▸ open_.apart

/-- The books of the task after so many lines. -/
structure Ledger (s : Task) (lines : Nat) : Prop where
  counted : emitted s.shown + dropped s.shown + s.droppedSinceSummary = lines
  open_ : Open s.shown s.windowStart s.windowCount

theorem Ledger.push (ledger : Ledger s n) (own : Bool) (line : Line) : Ledger (s.push own line) n := ⟨ledger.counted,ledger.open_⟩

theorem Ledger.renewWindow (ledger : Ledger s n) (now : Nat) : Ledger (s.renewWindow now) n := by
  unfold Task.renewWindow
  split
  next late =>
    refine ⟨?_,ledger.open_.window (by simp only [second] at *; omega)⟩
    have counted := ledger.counted
    rw [emitted_append,dropped_append]
    exact counted
  next => exact ledger

theorem Ledger.drop (ledger : Ledger s n) (now : Nat) : Ledger (s.drop now) (n + 1) := by
  have counted := ledger.counted
  unfold Task.drop
  dsimp only
  split
  next =>
    refine ⟨?_,ledger.open_.summary _⟩
    rw [emitted_append,dropped_append,emitted_summary,dropped_summary]
    dsimp only
    omega
  next =>
    refine ⟨?_,ledger.open_⟩
    simp only
    omega

theorem Ledger.emit (ledger : Ledger s n) (few : s.windowCount < rateLimitPerSec) (text : Line) :
    Ledger (s.emit text) (n + 1) := by
  have counted := ledger.counted
  refine ⟨?_,ledger.open_.line few text⟩
  simp only [Task.emit]
  rw [emitted_append,dropped_append,emitted_line,dropped_line]
  omega

/-- Each line that is not blank is shown or counted. -/
theorem Ledger.take (ledger : Ledger s n) (taken : s.take turn = some s') : Ledger s' (n + turn.text.toList.length) := by
  cases turn with
  | line text now =>
    by_cases blank : Text.trimList text = []
    · obtain rfl : s = s' := by simpa [Task.take,blank] using taken
      simpa [Turn.text,blank] using ledger
    · have one : (Turn.line text now).text = some (Text.trimList text) := if_neg blank
      rw [one]
      rw [Task.take] at taken
      simp only [if_neg blank] at taken
      obtain ⟨kept,cut,limited⟩ := Option.bind_eq_some_iff.mp taken
      have pushed := ledger.push true kept
      obtain ⟨s'',there,cases_⟩ := limit_cases (s.push true kept) (Text.trimList text) now
      obtain rfl := Option.some.inj (there.symm.trans limited)
      obtain ⟨_,rfl⟩ | ⟨front,few,rfl⟩ := cases_
      · exact (pushed.renewWindow now).drop now
      · exact (pushed.renewWindow now).emit few front
  | error =>
    obtain rfl := Option.some.inj taken
    exact ledger
  | other text =>
    obtain rfl := Option.some.inj taken
    exact ledger.push false text

/-- At the end of the stream every line is shown or was counted by a summary. -/
theorem Ledger.finish (ledger : Ledger s n) : emitted s.finish.shown + dropped s.finish.shown = n ∧
    Rated s.finish.shown ∧ (windows s.finish.shown).IsChain (· + second ≤ ·) := by
  have counted := ledger.counted
  unfold Task.finish
  split
  next =>
    have last := ledger.open_.summary s.droppedSinceSummary
    refine ⟨?_,last.rated,last.apart⟩
    rw [emitted_append,dropped_append,emitted_summary,dropped_summary]
    omega
  next none_ => exact ⟨by omega,ledger.open_.rated,ledger.open_.apart⟩

theorem Ledger.forward (ledger : Ledger s n) (forwarded : s.forward turns = some s') :
    emitted s'.shown + dropped s'.shown = n + (texts turns).length ∧ Rated s'.shown ∧
      (windows s'.shown).IsChain (· + second ≤ ·) := by
  induction turns generalizing s n with
  | nil =>
    obtain rfl := Option.some.inj forwarded
    exact ledger.finish
  | cons turn turns ih =>
    obtain ⟨s₁,taken,rest⟩ := Option.bind_eq_some_iff.mp forwarded
    have last := ih (ledger.take taken) rest
    rwa [texts_cons,List.length_append,← Nat.add_assoc]

theorem start_ledger (now : Nat) (ring : RuntimeLog) : Ledger (.start now ring) 0 := by
  refine ⟨rfl,⟨⟨[],[],rfl,?_,by simp [Within],rfl⟩,Nat.zero_le _,.singleton now⟩⟩
  intro part inside _
  rw [List.eq_nil_of_infix_nil inside]
  exact Nat.zero_le _

/-- Short lines stay short when they are trimmed. -/
theorem texts_short (short : ∀ text at_, Turn.line text at_ ∈ turns → size text ≤ maxLogLineBytes) :
    ∀ t ∈ texts turns, size t ≤ maxLogLineBytes := by
  intro t member
  obtain ⟨turn,here,eq⟩ := List.mem_filterMap.mp member
  cases turn with
  | line text at_ =>
    obtain ⟨_,same⟩ := Option.ite_none_left_eq_some.mp eq
    obtain rfl := Option.some.inj same
    have sub : List.Sublist (Text.trimList text) text := by
      have ends := (List.dropWhile_sublist Text.isWhitespace (l := (text.dropWhile Text.isWhitespace).reverse)).reverse
      rw [List.reverse_reverse] at ends
      exact ends.trans (List.dropWhile_sublist _)
    exact (size_sublist sub).trans (short text at_ here)
  | error => cases eq
  | other text => cases eq

theorem kept_whole (short : ∀ t ∈ ts, size t ≤ maxLogLineBytes) (kept : List.Forall₂ Kept ts lines) : lines = ts := by
  induction kept with
  | nil => rfl
  | @cons t line ts lines first _ ih =>
    obtain ⟨here,others⟩ := List.forall_mem_cons.mp short
    rw [Kept,if_pos here] at first
    rw [first,ih others]

/-- On lines of at most 64 KiB the task reads its stream to the end: the lines it has shown and
those its summaries count are all that were not blank; in no window are more than 200 shown, and
windows start a second apart; and every line that was not blank went into the ring, in order. -/
theorem shedding_accounted (now : Nat) (ring : RuntimeLog) (turns : List Turn)
    (short : ∀ text at_, Turn.line text at_ ∈ turns → size text ≤ maxLogLineBytes) :
    ∃ s', (Task.start now ring).forward turns = some s' ∧
      emitted s'.shown + dropped s'.shown = (texts turns).length ∧
      (∀ part, part <:+: s'.shown → Within part → emitted part ≤ rateLimitPerSec) ∧
      (windows s'.shown).IsChain (· + second ≤ ·) ∧
      s'.stored = texts turns ∧ s'.ring.inner = (ring.inner ++ s'.received.map Prod.snd).rtake ringMaxLines := by
  have small := texts_short short
  obtain ⟨put,puts⟩ := (all_puts_iff turns).mpr fun t member => .inl (small t member)
  obtain ⟨s',forwarded,received,ring_⟩ := forward_puts (s := Task.start now ring) puts
  have received : s'.received = put.flatten := by simpa [Task.start] using received
  obtain ⟨counted,rated,apart⟩ := (start_ledger now ring).forward forwarded
  rw [Nat.zero_add] at counted
  refine ⟨s',forwarded,counted,rated,apart,?_,?_⟩
  · rw [Task.stored,received]
    exact kept_whole small (all_puts_kept puts)
  · rw [ring_,foldl_push,received]
    rfl

def hello : List Turn :=
  List.replicate 201 (.line "hello pod".toList 1) ++
    [.line "  ".toList 2,.other "world".toList,.line " world ".toList (1 + second)]

theorem hello_accounted : ∃ s', (Task.start 0 ⟨[],by decide⟩).forward hello = some s' ∧ dropped s'.shown = 1 ∧
    emitted s'.shown + dropped s'.shown = 202 ∧ s'.stored = List.replicate 201 "hello pod".toList ++ ["world".toList] := by
  obtain ⟨s',forwarded,counted,_,_,stored,_⟩ := shedding_accounted 0 ⟨[],by decide⟩ hello (by
    intro text at_ member
    rcases List.mem_append.mp member with many | member
    · obtain ⟨rfl,_⟩ := Turn.line.inj (List.eq_of_mem_replicate many)
      decide
    · simp only [List.mem_cons,Turn.line.injEq,reduceCtorEq,false_or,List.not_mem_nil,or_false] at member
      obtain ⟨rfl,_⟩ | ⟨rfl,_⟩ := member <;> decide)
  have lines : texts hello = List.replicate 201 "hello pod".toList ++ ["world".toList] := by decide +kernel
  have shed : ((Task.start 0 ⟨[],by decide⟩).forward hello).any (fun s' => dropped s'.shown = 1) = true := by decide +kernel
  rw [lines] at counted stored
  rw [forwarded] at shed
  exact ⟨s',forwarded,of_decide_eq_true shed,counted,stored⟩

end Malkuth.LogForward
