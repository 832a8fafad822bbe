import Mathlib.Data.List.Basic

/-! Streams of lines that end with a separator: the complete lines, each with its separator,
and what is left after the last one. -/
namespace Lines

variable {α : Type} [DecidableEq α]

def split (sep : α) : List α → List (List α) × List α
  | [] => ([],[])
  | x :: xs =>
    let (lines,rest) := split sep xs
    if x = sep then ([sep] :: lines,rest)
    else
      match lines with
      | [] => ([],x :: rest)
      | line :: lines => ((x :: line) :: lines,rest)

/-- A line ends at its first separator. -/
theorem split_line (sep : α) (content rest : List α) (clean : sep ∉ content) :
    split sep (content ++ sep :: rest) = ((content ++ [sep]) :: (split sep rest).1,(split sep rest).2) := by
  induction content with
  | nil => simp [split]
  | cons x content ih =>
    obtain ⟨other,clean⟩ := not_or.mp (List.mem_cons.not.mp clean)
    simp [split,ih clean,Ne.symm other]

theorem split_unfinished (sep : α) (content : List α) (clean : sep ∉ content) : split sep content = ([],content) := by
  induction content with
  | nil => rfl
  | cons x content ih =>
    obtain ⟨other,clean⟩ := not_or.mp (List.mem_cons.not.mp clean)
    simp [split,ih clean,Ne.symm other]

/-- Every stream starts with a complete line, or has none. -/
theorem exists_line (sep : α) (xs : List α) :
    sep ∉ xs ∨ ∃ content rest, xs = content ++ sep :: rest ∧ sep ∉ content := by
  by_cases member : sep ∈ xs
  · obtain ⟨content,rest,cut,clean⟩ := List.eq_append_cons_of_mem member
    exact .inr ⟨content,rest,cut,clean⟩
  · exact .inl member

/-- What follows complete lines is split on its own. -/
theorem split_append (sep : α) (front back : List α) (complete : (split sep front).2 = []) :
    split sep (front ++ back) = ((split sep front).1 ++ (split sep back).1,(split sep back).2) := by
  induction front with
  | nil => simp [split]
  | cons x front ih =>
    rw [List.cons_append]
    simp only [split] at complete ⊢
    by_cases same : x = sep
    · simp only [if_pos same] at complete ⊢
      rw [ih complete]
      rfl
    · simp only [if_neg same] at complete ⊢
      cases lines : (split sep front).1 with
      | nil => simp [lines] at complete
      | cons line more =>
        rw [lines] at complete
        rw [ih complete,lines]
        rfl

/-- Without a separator, what follows is more of the unfinished line. -/
theorem split_append_clean (sep : α) (front back : List α) (clean : sep ∉ back) :
    split sep (front ++ back) = ((split sep front).1,(split sep front).2 ++ back) := by
  induction front with
  | nil => simpa [split] using split_unfinished sep back clean
  | cons x front ih =>
    rw [List.cons_append]
    simp only [split,ih]
    split
    · rfl
    · cases (split sep front).1 <;> rfl

/-- A separator finishes the line. -/
theorem split_append_sep (sep : α) (front : List α) :
    split sep (front ++ [sep]) = ((split sep front).1 ++ [(split sep front).2 ++ [sep]],[]) := by
  induction front with
  | nil => simp [split]
  | cons x front ih =>
    rw [List.cons_append]
    simp only [split,ih]
    split
    · rfl
    · cases (split sep front).1 <;> rfl

end Lines
