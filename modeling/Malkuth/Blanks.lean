import Mathlib.Data.List.Forall2

/-! Texts in which one element, the blank, stands for every element that is not kept. -/
namespace Blanks

variable {α : Type} [DecidableEq α] (keep : α → Bool) (blank : α)

def replace (s : List α) : List α := s.map fun c => if keep c then c else blank

def isBlank (c : α) : Bool := !keep c || c == blank

/-- Texts that differ in blanks only. -/
def Alike (s t : List α) : Prop :=
  List.Forall₂ (fun c d => c = d ∨ isBlank keep blank c = true ∧ isBlank keep blank d = true) s t

instance (s t : List α) : Decidable (Alike keep blank s t) := inferInstanceAs (Decidable (List.Forall₂ _ s t))

variable {keep blank}

theorem replaced_eq_iff (c d : α) :
    ((if keep c = true then c else blank) = if keep d = true then d else blank) ↔
      c = d ∨ isBlank keep blank c = true ∧ isBlank keep blank d = true := by
  unfold isBlank
  grind

theorem replace_eq_iff (s t : List α) : replace keep blank s = replace keep blank t ↔ Alike keep blank s t := by
  unfold replace
  rw [← List.forall₂_eq_eq_eq,List.forall₂_map_left_iff,List.forall₂_map_right_iff]
  simp only [replaced_eq_iff,Alike]

/-- A text without blanks is like no other. -/
theorem Alike.eq_plain (alike : Alike keep blank s t) (plain : ∀ c ∈ t, isBlank keep blank c = false) : s = t := by
  induction alike with
  | nil => rfl
  | @cons c d s t here _ ih =>
    rcases here with same | ⟨_,blank_⟩
    · rw [same,ih fun c member => plain c (List.mem_cons_of_mem _ member)]
    · simp [plain d (List.mem_cons_self ..)] at blank_

theorem replace_plain (plain : ∀ c ∈ t, isBlank keep blank c = false) : replace keep blank t = t := by
  unfold replace
  apply (List.map_congr_left ?_).trans (List.map_id t)
  intro c member
  have kept : keep c = true := by simpa [isBlank] using (Bool.or_eq_false_iff.mp (plain c member)).1
  rw [if_pos kept,id]

end Blanks
