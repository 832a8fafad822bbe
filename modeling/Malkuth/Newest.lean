import Mathlib.Data.List.DropRight

/-! Bounded buffers: a list that gives up its oldest element for each new one holds the last
elements of everything that was pushed, `List.rtake` of it. -/
namespace Newest

variable {α : Type} {cap : Nat} {whole : List α}

def pushThenDrop (cap : Nat) (kept : List α) (x : α) : List α :=
  if cap < (kept ++ [x]).length then (kept ++ [x]).eraseIdx 0 else kept ++ [x]

def dropThenPush (cap : Nat) (kept : List α) (x : α) : List α :=
  (if kept.length = cap then kept.tail else kept) ++ [x]

theorem length_dropThenPush (positive : 0 < cap) (bounded : kept.length ≤ cap) (x : α) :
    (dropThenPush cap kept x).length ≤ cap := by
  unfold dropThenPush
  rw [List.length_append,List.length_singleton]
  split
  · rw [List.length_tail]
    omega
  · omega

theorem length_rtake (whole : List α) (cap : Nat) : (whole.rtake cap).length = min cap whole.length := by
  simp only [List.rtake,List.length_drop]
  omega

theorem rtake_suffix (whole : List α) (cap : Nat) : whole.rtake cap <:+ whole :=
  List.drop_suffix ..

theorem rtake_of_length_le (few : whole.length ≤ cap) : whole.rtake cap = whole := by
  simp [List.rtake,Nat.sub_eq_zero_of_le few]

theorem tail_rtake (few : cap < whole.length) : (whole.rtake (cap + 1)).tail = whole.rtake cap := by
  simp only [List.rtake,List.tail_drop]
  congr 1
  omega

/-- The newest of a list with a part appended that has as many are the newest of that part. -/
theorem rtake_append_of_le (many : cap ≤ kept.length) : (whole ++ kept).rtake cap = kept.rtake cap := by
  simp only [List.rtake,List.length_append]
  rw [List.drop_append,List.drop_eq_nil_of_le (by omega)]
  simp only [List.nil_append]
  congr 1
  omega

theorem rtake_rtake (whole : List α) (fewer : kept ≤ cap) : (whole.rtake cap).rtake kept = whole.rtake kept := by
  simp only [List.rtake,List.drop_drop,List.length_drop]
  congr 1
  omega

theorem rtake_suffix_rtake (whole : List α) (fewer : kept ≤ cap) : whole.rtake kept <:+ whole.rtake cap := by
  rw [← rtake_rtake whole fewer]
  exact rtake_suffix ..

theorem rtake_one (last : whole.getLast? = some x) : whole.rtake 1 = [x] := by
  obtain ⟨front,rfl⟩ := List.getLast?_eq_some_iff.mp last
  rw [List.rtake_concat_succ,List.rtake_zero,List.nil_append]

theorem pushThenDrop_rtake (whole : List α) (cap : Nat) (x : α) :
    pushThenDrop cap (whole.rtake cap) x = (whole ++ [x]).rtake cap := by
  unfold pushThenDrop
  rw [← List.rtake_concat_succ,length_rtake,List.length_append,List.length_singleton]
  split
  · rw [List.eraseIdx_zero,tail_rtake]
    rw [List.length_append,List.length_singleton]
    omega
  · rw [rtake_of_length_le,rtake_of_length_le] <;> rw [List.length_append,List.length_singleton] <;> omega

theorem dropThenPush_rtake (whole : List α) (positive : 0 < cap) (x : α) :
    dropThenPush cap (whole.rtake cap) x = (whole ++ [x]).rtake cap := by
  obtain ⟨cap,rfl⟩ := Nat.exists_eq_succ_of_ne_zero (Nat.ne_of_gt positive)
  rw [List.rtake_concat_succ]
  unfold dropThenPush
  rw [length_rtake]
  congr 1
  split
  · exact tail_rtake (by omega)
  · rw [rtake_of_length_le,rtake_of_length_le] <;> omega

end Newest
