import Malkuth.LogRing
import Malkuth.Utf8Parts
import Mathlib.Data.List.DropRight

/-! How long the captured lines of `worker.rs` are. The cap is on the bytes of the buffer; what
goes into the ring is their lossy decoding, in which every malformed part takes three bytes. -/
namespace Malkuth.Worker

open Utf8

def lineCap : Nat := logLineMaxBytes + size ['…']

def blank (part : Part) : Bool := part.char.any Text.isWhitespace

/-- The bytes of a piece that are kept: its first 8192, without the white space at their end. -/
def keptParts (piece : List UInt8) : List Part := (parts (piece.take logLineMaxBytes)).rdropWhile blank

/-- What the malformed parts of a piece grow by fits under the cap, beside the mark where the
piece is cut off. -/
def Fits (piece : List UInt8) : Prop :=
  let bad := (keptParts piece).filter Part.malformed
  ((keptParts piece).flatMap Part.bytes).length + 3 * bad.length ≤
    (bad.flatMap Part.bytes).length + (if logLineMaxBytes < piece.length then logLineMaxBytes else lineCap)

theorem blank_eq (part : Part) : blank part = Text.isWhitespace part.shown := by
  cases char : part.char with
  | none =>
    simp only [blank,Part.shown,char,Option.any_none,Option.getD_none]
    decide
  | some c => simp [blank,Part.shown,char]

/-- Trimming the decoded text drops the blank parts at the end. -/
theorem trimEnd_shown (bytes : List UInt8) :
    Text.trimEnd (fromUtf8Lossy bytes) = ((parts bytes).rdropWhile blank).map Part.shown := by
  have same : blank = Text.isWhitespace ∘ Part.shown := funext blank_eq
  rw [← map_parts,Text.trimEnd,List.rdropWhile,← List.map_reverse,List.dropWhile_map,← List.map_reverse,same]

theorem size_trimEnd (piece : List UInt8) :
    size (Text.trimEnd (fromUtf8Lossy (piece.take logLineMaxBytes))) +
        (((keptParts piece).filter Part.malformed).flatMap Part.bytes).length =
      ((keptParts piece).flatMap Part.bytes).length + 3 * ((keptParts piece).filter Part.malformed).length := by
  rw [trimEnd_shown]
  apply size_shown
  intro part member
  exact parts_sound _ part ((List.rdropWhile_prefix ..).subset member)

/-- The line of a piece is within the cap. -/
theorem render_fits (piece : List UInt8) : (∀ line, render piece = some line → size line ≤ lineCap) ↔ Fits piece := by
  have grown := size_trimEnd piece
  have mark : size ['…'] = 3 := by decide
  unfold Fits
  dsimp only
  by_cases long : logLineMaxBytes < piece.length
  · have shown : render piece = some (Text.trimEnd (fromUtf8Lossy (piece.take logLineMaxBytes)) ++ ['…']) := by
      simp [render,long]
    rw [if_pos long,shown]
    simp only [Option.some.injEq,forall_eq',size_append,lineCap,mark]
    omega
  · rw [if_neg long]
    by_cases none_ : Text.trimEnd (fromUtf8Lossy (piece.take logLineMaxBytes)) = []
    · have silent : render piece = none := by simp [render,long,none_,Nat.le_of_not_lt long]
      rw [none_,size_nil] at grown
      rw [silent]
      simp only [reduceCtorEq,false_implies,implies_true,true_iff]
      omega
    · have shown : render piece = some (Text.trimEnd (fromUtf8Lossy (piece.take logLineMaxBytes))) := by
        simp [render,long,none_]
      rw [shown]
      simp only [Option.some.injEq,forall_eq']
      omega

/-- However a stream is cut into reads, every line that its capture puts into the ring is within
the cap, if and only if every piece of the stream fits. -/
theorem captured_within_cap_iff (ring : WorkerLogRing) (chunks : List Chunk) :
    (∀ line ∈ (((Capture.start ring).captureStream chunks).getLastD (.start ring)).inserted, size line ≤ lineCap) ↔
      ∀ piece ∈ pieces (chunks.flatMap Chunk.bytes), Fits piece := by
  obtain ⟨_,inserted,_⟩ := (Stands.start ring).captureStream chunks
  rw [inserted,List.nil_append,reference]
  constructor
  · intro within piece member
    rw [← render_fits]
    intro line shown
    exact within line (List.mem_filterMap.mpr ⟨piece,member,shown⟩)
  · intro fits line member
    obtain ⟨piece,here,shown⟩ := List.mem_filterMap.mp member
    exact (render_fits piece).mpr (fits piece here) line shown

theorem parts_replicate (n : Nat) : parts (List.replicate n 0xFF) = List.replicate n ⟨[0xFF],none⟩ := by
  induction n with
  | zero => rfl
  | succ n ih => exact congrArg (_ :: ·) ih

/-- Bytes that no character has grow threefold. -/
theorem not_fits_replicate (n : Nat) (short : n ≤ logLineMaxBytes) (many : lineCap < 3 * n) :
    ¬ Fits (List.replicate n 0xFF) := by
  have whole : (List.replicate n (0xFF : UInt8)).take logLineMaxBytes = List.replicate n 0xFF := by
    rw [List.take_of_length_le]
    rwa [List.length_replicate]
  have kept : keptParts (List.replicate n 0xFF) = List.replicate n ⟨[0xFF],none⟩ := by
    rw [keptParts,whole,parts_replicate]
    exact List.rdropWhile_eq_self_iff.mpr fun _ => by simp [blank]
  have bad : (List.replicate n (⟨[0xFF],none⟩ : Utf8.Part)).filter Part.malformed = List.replicate n ⟨[0xFF],none⟩ :=
    List.filter_replicate_of_pos rfl
  unfold Fits
  dsimp only
  rw [kept,bad,List.length_replicate,List.length_replicate,if_neg (Nat.not_lt.mpr short)]
  omega

def latin : Chunk where
  bytes := List.replicate 3000 0xFF
  some_ := by rw [Ne,List.replicate_eq_nil_iff]; decide
  fits := by rw [List.length_replicate]; decide

/-- They take nine thousand bytes in the ring. -/
theorem latin_over_cap : ¬ ∀ ring chunks,
    ∀ line ∈ (((Capture.start ring).captureStream chunks).getLastD (.start ring)).inserted, size line ≤ lineCap := by
  intro within
  have short := within .new [latin]
  obtain ⟨_,inserted,_⟩ := (Stands.start .new).captureStream [latin]
  have unfinished : newline ∉ latin.bytes := by
    intro member
    exact absurd (List.eq_of_mem_replicate member) (by decide)
  have one : pieces latin.bytes = [latin.bytes] := by
    rw [pieces,Lines.split_unfinished newline latin.bytes unfinished]
    simp only [List.map_nil,List.nil_append,if_neg latin.some_]
  rw [inserted,List.nil_append,List.flatMap_singleton,reference,one] at short
  have unfit : ¬ Fits latin.bytes := not_fits_replicate 3000 (by decide) (by decide)
  apply unfit
  rw [← render_fits]
  intro line shown
  exact short line (by simp [shown])

end Malkuth.Worker
