import Malkuth.LogRing
import Mathlib.Order.Bounds.Basic

/-! The pages of `malkuth_logs`: the newest lines of a ring, within a number of lines and of
bytes, the omission marker included. Whole lines are kept while they fit; if not even the newest
does, its end is kept. -/
namespace Malkuth.Mcp

open Malkuth.Worker Utf8 Newest

def logMarkerReserve : Nat := 64
def logsMinBytes : Nat := 256
def logsMaxBytes : Nat := 64 * 1024

structure LogPage where
  text : List Char
  lines : Nat
  bytes : Nat
  truncated : Bool
  omittedLines : Nat
  omittedBytes : Nat
  deriving DecidableEq, Repr

def join (lines : List Line) : List Char := List.intercalate ['\n'] lines

def isTruncated (omittedLines omittedBytes : Nat) : Bool := decide (0 < omittedLines) || decide (0 < omittedBytes)

def omission (omittedLines omittedBytes : Nat) : List Char :=
  "… [omitted ".toList ++ Text.display omittedLines ++ " line(s), ".toList ++ Text.display omittedBytes ++
    " byte(s)]\n".toList

def marker (omittedLines omittedBytes : Nat) : List Char :=
  if isTruncated omittedLines omittedBytes then omission omittedLines omittedBytes else []

def wholeLines (bodyBudget : Nat) : Nat → List Line → Nat
  | _, [] => 0
  | bodyLen, line :: older =>
    let add := size line + if 0 < bodyLen then 1 else 0
    if bodyBudget < bodyLen + add then 0 else wholeLines bodyBudget (bodyLen + add) older + 1

def LogPage.new (totalInRing linesReturned omittedBytes : Nat) (combined : List Char) : LogPage :=
  let omittedLines := totalInRing - linesReturned
  ⟨combined,linesReturned,size combined,isTruncated omittedLines omittedBytes,omittedLines,omittedBytes⟩

/-- The end of `page_logs`, for a marker that is longer than its reserve. -/
def pathological (totalInRing maxBytes : Nat) (text : List Char) (linesReturned omittedBytes : Nat) : LogPage :=
  let combined := marker (totalInRing - linesReturned) omittedBytes ++ text
  .new totalInRing linesReturned omittedBytes
    (if maxBytes < size combined then
      (dropBytes combined (seekBoundary combined (size combined - maxBytes))).getD []
    else combined)

/-- The rounds of the loop that cuts the head of the text until the marker fits too. -/
def recut (totalInRing maxBytes : Nat) : Nat → List Char → Nat → Nat → LogPage
  | 0, text, linesReturned, omittedBytes => pathological totalInRing maxBytes text linesReturned omittedBytes
  | rounds + 1, text, linesReturned, omittedBytes =>
    let combined := marker (totalInRing - linesReturned) omittedBytes ++ text
    if size combined ≤ maxBytes then .new totalInRing linesReturned omittedBytes combined
    else
      let overflow := size combined - maxBytes
      let cut := seekBoundary text (min overflow (size text))
      if cut = 0 then pathological totalInRing maxBytes text linesReturned omittedBytes
      else
        let rest := (dropBytes text cut).getD []
        if rest.getLast? = some '\n' then
          recut totalInRing maxBytes rounds rest.dropLast (linesReturned - 1) (omittedBytes + cut)
        else recut totalInRing maxBytes rounds rest linesReturned (omittedBytes + cut)

def pageLogs (all : List Line) (maxLines maxBytes : Nat) : LogPage :=
  let totalInRing := all.length
  let start := totalInRing - max maxLines 1
  let window := all.drop start
  let bodyBudget := maxBytes - logMarkerReserve
  let fitting := window.length - wholeLines bodyBudget 0 window.reverse
  let keptFrom := if fitting = window.length ∧ window ≠ [] then window.length - 1 else fitting
  let linesReturned := window.length - keptFrom
  let body := join (window.drop keptFrom)
  if bodyBudget < size body then
    let cut := seekBoundary body (size body - bodyBudget)
    recut totalInRing maxBytes 4 ((dropBytes body cut).getD []) linesReturned cut
  else recut totalInRing maxBytes 4 body linesReturned 0

theorem join_singleton (line : Line) : join [line] = line := List.intercalate_singleton

theorem join_cons (line : Line) (some_ : lines ≠ []) : join (line :: lines) = line ++ '\n' :: join lines := by
  simp [join,List.intercalate_cons_of_ne_nil some_]

theorem size_newline : size ['\n'] = 1 := by decide

theorem size_join_cons (line : Line) (some_ : lines ≠ []) :
    size (join (line :: lines)) = size line + (size (join lines) + 1) := by
  rw [join_cons line some_,size_append,← List.singleton_append,size_append,size_newline,Nat.add_comm 1]

theorem size_join_pos (some_ : lines ≠ []) (full : ∀ line ∈ lines, line ≠ []) : 0 < size (join lines) := by
  cases lines with
  | nil => contradiction
  | cons line lines =>
    have head := size_pos (full line List.mem_cons_self)
    by_cases single : lines = []
    · simpa [join,single] using head
    · rw [size_join_cons line single]
      omega

/-- A longer tail of the lines takes more bytes. -/
theorem size_join_append (front back : List Line) : size (join back) ≤ size (join (front ++ back)) := by
  induction front with
  | nil => exact Nat.le_refl _
  | cons line front ih =>
    by_cases none_ : front ++ back = []
    · obtain ⟨rfl,rfl⟩ := List.append_eq_nil_iff.mp none_
      simp [join]
    · rw [List.cons_append,size_join_cons line none_]
      omega

theorem join_suffix (front back : List Line) : join back <:+ join (front ++ back) := by
  induction front with
  | nil => exact List.suffix_refl _
  | cons line front ih =>
    by_cases none_ : front ++ back = []
    · obtain ⟨rfl,rfl⟩ := List.append_eq_nil_iff.mp none_
      simp [join]
    · rw [List.cons_append,join_cons line none_]
      exact ih.trans ((List.suffix_cons ..).trans (List.suffix_append ..))

/-- The loop over the lines stops where one more would not fit. -/
theorem wholeLines_spec (bodyBudget : Nat) (newest older : List Line) (full : ∀ line ∈ newest ++ older, line ≠ [])
    (fits : size (join newest) ≤ bodyBudget) :
    let k := wholeLines bodyBudget (size (join newest)) older
    k ≤ older.length ∧ size (join ((older.take k).reverse ++ newest)) ≤ bodyBudget ∧
      (k < older.length → bodyBudget < size (join ((older.take (k + 1)).reverse ++ newest))) := by
  induction older generalizing newest with
  | nil => simpa [wholeLines] using fits
  | cons line older ih =>
    have add : size (join newest) + (size line + if 0 < size (join newest) then 1 else 0) =
        size (join (line :: newest)) := by
      by_cases none_ : newest = []
      · simp [none_,join]
      · rw [if_pos (size_join_pos none_ fun l member => full l (List.mem_append_left _ member)),
          size_join_cons line none_]
        omega
    simp only [wholeLines,add]
    split
    next exceeds => simpa [fits] using exceeds
    next more =>
      have rest := ih (line :: newest) (by simpa [or_comm,or_left_comm,or_assoc] using full) (Nat.le_of_not_lt more)
      simpa using rest

def keptLines (all : List Line) (maxLines bodyBudget : Nat) : Nat :=
  let whole := wholeLines bodyBudget 0 (all.rtake maxLines).reverse
  if whole = 0 ∧ all ≠ [] then 1 else whole

theorem rtake_eq_nil {all : List Line} (positive : 0 < maxLines) : all.rtake maxLines = [] ↔ all = [] := by
  rw [← List.length_eq_zero_iff,length_rtake,← List.length_eq_zero_iff]
  omega

theorem wholeLines_window (all : List Line) (maxLines bodyBudget : Nat) (full : ∀ line ∈ all, line ≠ []) :
    let k := wholeLines bodyBudget 0 (all.rtake maxLines).reverse
    k ≤ min maxLines all.length ∧ size (join (all.rtake k)) ≤ bodyBudget ∧
      (k < min maxLines all.length → bodyBudget < size (join (all.rtake (k + 1)))) := by
  have filled : ∀ line ∈ [] ++ (all.rtake maxLines).reverse, line ≠ [] := by
    intro line member
    exact full line ((rtake_suffix ..).subset (by simpa using member))
  obtain ⟨low,fits,next⟩ := wholeLines_spec bodyBudget [] (all.rtake maxLines).reverse filled (Nat.zero_le _)
  simp only [List.append_nil,← List.rtake_eq_reverse_take_reverse,List.length_reverse,length_rtake] at low fits next
  refine ⟨low,?_,?_⟩
  · rwa [rtake_rtake _ (by exact low.trans (Nat.min_le_left ..))] at fits
  · intro less
    have exceeds := next less
    rwa [rtake_rtake _ (by exact Nat.lt_of_lt_of_le less (Nat.min_le_left ..))] at exceeds

/-- The page before the marker is put in front. -/
theorem pageLogs_eq (all : List Line) (maxLines maxBytes : Nat) (full : ∀ line ∈ all, line ≠ []) (positive : 1 ≤ maxLines) :
    let k := keptLines all maxLines (maxBytes - logMarkerReserve)
    let body := join (all.rtake k)
    pageLogs all maxLines maxBytes =
      if maxBytes - logMarkerReserve < size body then
        let cut := seekBoundary body (size body - (maxBytes - logMarkerReserve))
        recut all.length maxBytes 4 ((dropBytes body cut).getD []) k cut
      else recut all.length maxBytes 4 body k 0 := by
  obtain ⟨low,_,_⟩ := wholeLines_window all maxLines (maxBytes - logMarkerReserve) full
  have window : all.drop (all.length - max maxLines 1) = all.rtake maxLines := by rw [Nat.max_eq_left positive]; rfl
  have length := length_rtake all maxLines
  unfold pageLogs keptLines
  simp only [window,ne_eq,rtake_eq_nil positive]
  generalize wholeLines (maxBytes - logMarkerReserve) 0 (all.rtake maxLines).reverse = whole at low ⊢
  have tail : ∀ k, k ≤ (all.rtake maxLines).length →
      (all.rtake maxLines).drop ((all.rtake maxLines).length - k) = all.rtake k := by
    intro k few
    exact rtake_rtake all (by omega)
  by_cases nothing : whole = 0 ∧ all ≠ []
  · obtain ⟨rfl,some_⟩ := nothing
    have one : 1 ≤ (all.rtake maxLines).length := List.length_pos_iff.mpr ((rtake_eq_nil positive).not.mpr some_)
    simp only [Nat.sub_zero,true_and,some_,not_false_eq_true,if_true,tail 1 one,Nat.sub_sub_self one]
  · have same : ¬ ((all.rtake maxLines).length - whole = (all.rtake maxLines).length ∧ ¬ all = []) := by
      rintro ⟨eq,some_⟩
      have := List.length_pos_iff.mpr ((rtake_eq_nil positive).not.mpr some_)
      exact nothing ⟨by omega,some_⟩
    rw [if_neg nothing]
    simp only [if_neg same,tail whole (by omega),Nat.sub_sub_self (show whole ≤ (all.rtake maxLines).length by omega)]

theorem size_of_digits (digits : ∀ c ∈ cs, c.isDigit = true) : size cs = cs.length := by
  induction cs with
  | nil => rfl
  | cons c cs ih =>
    have one : c.utf8Size = 1 := by
      have digit := digits c List.mem_cons_self
      simp only [Char.isDigit,Bool.and_eq_true,decide_eq_true_eq,ge_iff_le] at digit
      rw [Char.utf8Size_eq_one_iff]
      exact UInt32.le_trans digit.2 (by decide)
    rw [size_cons,one,ih fun c member => digits c (List.mem_cons_of_mem _ member),List.length_cons,Nat.add_comm]

theorem size_display (positive : 0 < k) (bound : n < 10 ^ k) : size (Text.display n) ≤ k := by
  rw [size_of_digits fun c => Text.isDigit_of_mem_display]
  exact (Nat.length_toDigits_le_iff (by decide) positive).mpr bound

/-- The reserve is enough for a marker about a ring. -/
theorem size_marker (lines : omittedLines < 10 ^ 3) (bytes : omittedBytes < 10 ^ 5) :
    size (marker omittedLines omittedBytes) ≤ logMarkerReserve := by
  have first := size_display (by decide) lines
  have second := size_display (by decide) bytes
  have texts : size "… [omitted ".toList + size " line(s), ".toList + size " byte(s)]\n".toList = 33 := by decide
  unfold marker omission
  split
  · simp only [size_append]
    unfold logMarkerReserve
    omega
  · exact Nat.zero_le _

theorem recut_first (fits : size (marker (total - lines) omitted ++ text) ≤ maxBytes) :
    recut total maxBytes 4 text lines omitted = .new total lines omitted (marker (total - lines) omitted ++ text) := by
  rw [recut,if_pos fits]

/-- The number of lines on a page: the most of the newest that fit, or one that does not. -/
def LinesKept (all : List Line) (maxLines bodyBudget lines : Nat) : Prop :=
  (lines = 1 ∧ ∃ newest, all.getLast? = some newest ∧ bodyBudget < size newest) ∨
  ((∀ newest, all.getLast? = some newest → size newest ≤ bodyBudget) ∧
    IsGreatest {k | k ≤ min maxLines all.length ∧ size (join (all.rtake k)) ≤ bodyBudget} lines)

/-- The text of a page after its marker: whole lines, or the end of the newest. -/
def BodyKept (all : List Line) (lines omittedBytes : Nat) (body : List Char) : Prop :=
  body <:+ join all ∧
  ((omittedBytes = 0 ∧ body = join (all.rtake lines)) ∨
    (lines = 1 ∧ ∃ newest cut, all.getLast? = some newest ∧ newest = cut ++ body ∧ size cut = omittedBytes ∧
      0 < omittedBytes))

theorem join_rtake_suffix (all : List Line) (k : Nat) : join (all.rtake k) <:+ join all := by
  obtain ⟨front,eq⟩ := rtake_suffix all k
  have suffix_ := join_suffix front (all.rtake k)
  rwa [eq] at suffix_

theorem size_join_mono (all : List Line) (fewer : j ≤ k) : size (join (all.rtake j)) ≤ size (join (all.rtake k)) := by
  obtain ⟨front,eq⟩ := rtake_suffix_rtake all fewer
  rw [← eq]
  exact size_join_append ..

theorem keptLines_spec (all : List Line) (maxLines bodyBudget : Nat) (full : ∀ line ∈ all, line ≠ [])
    (positive : 1 ≤ maxLines) : LinesKept all maxLines bodyBudget (keptLines all maxLines bodyBudget) := by
  obtain ⟨low,fits,next⟩ := wholeLines_window all maxLines bodyBudget full
  unfold keptLines
  generalize wholeLines bodyBudget 0 (all.rtake maxLines).reverse = whole at low fits next ⊢
  have greatest : IsGreatest {k | k ≤ min maxLines all.length ∧ size (join (all.rtake k)) ≤ bodyBudget} whole := by
    refine ⟨⟨low,fits⟩,?_⟩
    rintro k ⟨bound,fit⟩
    by_contra more
    have exceeds := next (by omega)
    have := size_join_mono all (show whole + 1 ≤ k by omega)
    omega
  by_cases exceeds : ∃ newest, all.getLast? = some newest ∧ bodyBudget < size newest
  · obtain ⟨newest,last,large⟩ := exceeds
    have some_ : all ≠ [] := by
      rintro rfl
      simp at last
    have none_ : whole = 0 := by
      by_contra one
      have single := size_join_mono all (show 1 ≤ whole by omega)
      rw [rtake_one last,join_singleton] at single
      omega
    rw [if_pos ⟨none_,some_⟩]
    exact .inl ⟨rfl,newest,last,large⟩
  · have small : ∀ newest, all.getLast? = some newest → size newest ≤ bodyBudget := by
      intro newest last
      exact Nat.le_of_not_lt fun large => exceeds ⟨newest,last,large⟩
    have kept : ¬ (whole = 0 ∧ all ≠ []) := by
      rintro ⟨rfl,some_⟩
      have last := List.getLast?_eq_some_getLast some_
      have large := next (by have := List.length_pos_iff.mpr some_; omega)
      rw [Nat.zero_add,rtake_one last,join_singleton] at large
      have := small _ last
      omega
    rw [if_neg kept]
    exact .inr ⟨small,greatest⟩

/-- What a page of at most `maxLines` lines and `maxBytes` bytes tells about the lines `all`. -/
structure Contract (all : List Line) (maxLines maxBytes : Nat) (page : LogPage) : Prop where
  bytes : page.bytes = size page.text
  bounded : page.bytes ≤ maxBytes
  counted : page.lines + page.omittedLines = all.length
  truncated : page.truncated = true ↔ 0 < page.omittedLines ∨ 0 < page.omittedBytes
  lines : LinesKept all maxLines (maxBytes - logMarkerReserve) page.lines
  text : ∃ body, BodyKept all page.lines page.omittedBytes body ∧
    page.text = (if page.truncated then omission page.omittedLines page.omittedBytes else []) ++ body

/-- The first round of the loop returns: the reserve is enough. -/
theorem contract_recut (kept : LinesKept all maxLines (maxBytes - logMarkerReserve) k)
    (bodyKept : BodyKept all k omitted body) (fits : size body ≤ maxBytes - logMarkerReserve)
    (enough : k ≤ all.length) (few : all.length ≤ logRingCapacity) (short : omitted < 10 ^ 5)
    (least : logsMinBytes ≤ maxBytes) : Contract all maxLines maxBytes (recut all.length maxBytes 4 body k omitted) := by
  have room : size (marker (all.length - k) omitted ++ body) ≤ maxBytes := by
    have capacity : logRingCapacity = 500 := rfl
    have marked := size_marker (show all.length - k < 10 ^ 3 by omega) short
    rw [size_append]
    unfold logsMinBytes logMarkerReserve at *
    omega
  rw [recut_first room]
  constructor
  · rfl
  · exact room
  · exact Nat.add_sub_of_le enough
  · simp [LogPage.new,isTruncated]
  · exact kept
  · exact ⟨body,bodyKept,rfl⟩

/-- `page_logs` on what captures put into a ring. -/
theorem page_logs_contract (ring : WorkerLogRing) (captured : ∀ line ∈ ring.inner, Captured line)
    (maxLines maxBytes : Nat) (positive : 1 ≤ maxLines) (range : logsMinBytes ≤ maxBytes ∧ maxBytes ≤ logsMaxBytes) :
    Contract ring.inner maxLines maxBytes (pageLogs (ring.tail ring.inner.length) maxLines maxBytes) := by
  have whole : ring.tail ring.inner.length = ring.inner := by simp [WorkerLogRing.tail]
  have full : ∀ line ∈ ring.inner, line ≠ [] := fun line member => (captured line member).bounds.1
  have eq := pageLogs_eq ring.inner maxLines maxBytes full positive
  have kept := keptLines_spec ring.inner maxLines (maxBytes - logMarkerReserve) full positive
  generalize keptLines ring.inner maxLines (maxBytes - logMarkerReserve) = k at eq kept
  dsimp only at eq
  rw [whole,eq]
  rcases id kept with ⟨rfl,newest,last,large⟩ | ⟨_,⟨bound,fits⟩,_⟩
  · -- not even the newest line fits: its head is cut at a character boundary
    have member := List.mem_of_getLast? last
    obtain ⟨low,high,boundary⟩ := seekBoundary_spec newest (size newest - (maxBytes - logMarkerReserve)) (Nat.sub_le ..)
    obtain ⟨cut,body,parts,at_⟩ := isCharBoundary_iff.mp boundary
    have rest : dropBytes newest (size cut) = some body := by
      rw [parts]
      exact dropBytes_append ..
    have bounded := (captured newest member).bounds.2
    have sizes : size newest = size cut + size body := by rw [parts,size_append]
    rw [rtake_one last,join_singleton,if_pos large,← at_,rest,Option.getD_some]
    have bodyKept : BodyKept ring.inner 1 (size cut) body := by
      refine ⟨?_,.inr ⟨rfl,newest,cut,last,parts,rfl,by omega⟩⟩
      have tail := join_rtake_suffix ring.inner 1
      rw [rtake_one last,join_singleton,parts] at tail
      exact (List.suffix_append ..).trans tail
    exact contract_recut kept bodyKept (by omega) (List.length_pos_of_mem member) ring.bounded (by omega) range.1
  · rw [if_neg (Nat.not_lt_of_le fits)]
    exact contract_recut kept ⟨join_rtake_suffix ..,.inl ⟨rfl,rfl⟩⟩ fits (bound.trans (Nat.min_le_right ..)) ring.bounded
      (by decide) range.1

/-- A line of 300 bytes does not fit a page of 256: its last 192 are kept, and the line before
it is not. -/
theorem page_logs_contract_cut : ∃ ring : WorkerLogRing, ring.inner = ["old".toList,List.replicate 300 'a'] ∧
    Contract ring.inner 10 256 (pageLogs (ring.tail ring.inner.length) 10 256) ∧
    (pageLogs (ring.tail ring.inner.length) 10 256).omittedBytes = 108 ∧
    (pageLogs (ring.tail ring.inner.length) 10 256).omittedLines = 1 := by
  let ring : WorkerLogRing := ⟨["old".toList,List.replicate 300 'a'],by decide⟩
  have captured : ∀ line ∈ ring.inner, Captured line := by
    intro line member
    rcases List.mem_cons.mp member with rfl | member
    · exact ⟨[111,108,100],by decide⟩
    · obtain rfl := List.mem_singleton.mp member
      exact ⟨List.replicate 300 97,by decide +kernel⟩
  exact ⟨ring,rfl,page_logs_contract ring captured 10 256 (by decide) (by decide),by decide +kernel,by decide +kernel⟩

end Malkuth.Mcp
