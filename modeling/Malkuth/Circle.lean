import Mathlib.Data.List.Rotate

/-! Scanning a sorted list from a pivot on, around the end. `low` says which elements lie
before the pivot; a list is taken as sorted when no element before the pivot comes after
one behind it. Nothing here fixes an order. -/
namespace Circle

variable {α β : Type}

/-- The index of the first element that is not `low`, on a partitioned list. -/
def partitionPoint (low : α → Bool) (l : List α) : Nat := (l.takeWhile low).length

/-- The elements in the order in which a scan from the pivot meets them. -/
def turn (low : α → Bool) (l : List α) : List α := l.dropWhile low ++ l.takeWhile low

theorem rotate_partitionPoint (low : α → Bool) (l : List α) :
    l.rotate (partitionPoint low l) = turn low l := by
  have rotated := List.rotate_append_length_eq (l.takeWhile low) (l.dropWhile low)
  rw [List.takeWhile_append_dropWhile] at rotated
  exact rotated

/-- A loop over the indices of a list that returns from its middle. -/
theorem findSome?_range (l : List α) (f : α → Option β) (n : Nat) (bound : n ≤ l.length) :
    (List.range n).findSome? (fun k => l[k]?.bind f) = (l.take n).findSome? f := by
  induction n with
  | zero => simp
  | succ n ih =>
    have inside : n < l.length := bound
    rw [List.range_succ,List.findSome?_append,ih (Nat.le_of_lt inside),List.take_succ_eq_append_getElem inside,
      List.findSome?_append]
    simp [List.getElem?_eq_getElem inside]

/-- The loop of a scan that starts at an index and wraps around. -/
theorem findSome?_wrapping (l : List α) (f : α → Option β) (start : Nat) :
    (List.range l.length).findSome? (fun off => l[(start + off) % l.length]?.bind f) =
      (l.rotate start).findSome? f := by
  have shifted := findSome?_range (l.rotate start) f l.length (by simp)
  rw [List.take_of_length_le (by simp)] at shifted
  rw [← shifted,← List.head?_filterMap,← List.head?_filterMap]
  apply congrArg List.head?
  apply List.filterMap_congr
  intro off member
  rw [List.getElem?_rotate (List.mem_range.mp member),Nat.add_comm]

section Sorted

variable {low : α → Bool} {l : List α}

theorem takeWhile_eq_filter (sorted : l.Pairwise fun a b => low b = true → low a = true) :
    l.takeWhile low = l.filter low ∧ l.dropWhile low = l.filter fun a => !low a := by
  induction l with
  | nil => exact ⟨rfl,rfl⟩
  | cons a l ih =>
    obtain ⟨first,rest⟩ := List.pairwise_cons.mp sorted
    obtain ⟨taken,dropped⟩ := ih rest
    cases here : low a with
    | true => simp [here,taken,dropped]
    | false =>
      have none : ∀ b ∈ l, low b = false := by
        intro b member
        by_contra before
        simp [here] at first
        exact before (by simpa using first b member)
      constructor
      · simpa [here] using none
      · have all : l.filter (fun b => !low b) = l := List.filter_eq_self.mpr (by simpa using none)
        simp [here,all]

theorem turn_eq (sorted : l.Pairwise fun a b => low b = true → low a = true) :
    turn low l = (l.filter fun a => !low a) ++ l.filter low := by
  rw [turn,(takeWhile_eq_filter sorted).1,(takeWhile_eq_filter sorted).2]

/-- Dropping or relabelling elements, each on its side of the pivot, does not change the
order in which the others are met. -/
theorem turn_filterMap (sorted : l.Pairwise fun a b => low b = true → low a = true)
    (f : α → Option β) (low' : β → Bool) (same : ∀ a b, f a = some b → low' b = low a) :
    turn low' (l.filterMap f) = (turn low l).filterMap f := by
  have sorted' : (l.filterMap f).Pairwise fun a b => low' b = true → low' a = true := by
    apply List.pairwise_filterMap.mpr
    apply sorted.imp
    intro a b order a' fa b' fb
    rw [same a a' fa,same b b' fb]
    exact order
  have side (q : Bool → Bool) : (l.filterMap f).filter (fun b => q (low' b)) =
      (l.filter fun a => q (low a)).filterMap f := by
    rw [List.filter_filterMap,List.filterMap_filter]
    apply List.filterMap_congr
    intro a _
    cases fa : f a with
    | none => simp
    | some b => simp [Option.filter,same a b fa]
  rw [turn_eq sorted,turn_eq sorted',List.filterMap_append]
  exact congrArg₂ (· ++ ·) (side not) (side id)

theorem turn_filter (sorted : l.Pairwise fun a b => low b = true → low a = true) (p : α → Bool) :
    turn low (l.filter p) = (turn low l).filter p := by
  rw [← List.filterMap_eq_filter]
  apply turn_filterMap sorted
  intro a b kept
  simp only [Option.guard_eq_some_iff] at kept
  rw [kept.1]

end Sorted

theorem turn_perm (low : α → Bool) (l : List α) : (turn low l).Perm l := by
  have whole : (l.dropWhile low ++ l.takeWhile low).Perm (l.takeWhile low ++ l.dropWhile low) :=
    List.perm_append_comm
  rwa [List.takeWhile_append_dropWhile] at whole

/-- The first element of a list is one that was dropped, or still the first. -/
theorem head?_filter (l : List α) (p : α → Bool) :
    (∃ a, l.head? = some a ∧ p a = false) ∨ (l.filter p).head? = l.head? := by
  cases l with
  | nil => exact .inr rfl
  | cons a l =>
    cases kept : p a with
    | true => exact .inr (by simp [kept])
    | false => exact .inl ⟨a,rfl,kept⟩

end Circle
