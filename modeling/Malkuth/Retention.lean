import Mathlib.Data.List.Nodup
import Mathlib.Data.List.Perm.Subperm

/-! What a window keeps of a collection that grows and is cut back to its newest elements again
and again: whatever came in is still there, or at least as many newer elements are as the window
is wide. Nothing is assumed of the order in which the elements come in. -/
namespace Retention

variable {α : Type} {newer : α → α → Bool} {retain : Nat} {kept kept' : List α} {x : α}

/-- `newer x y` tells that `y` is newer than `x`. -/
def Covered (newer : α → α → Bool) (retain : Nat) (kept : List α) (x : α) : Prop :=
  x ∈ kept ∨ retain ≤ (kept.filter (newer x)).length

theorem length_filter_mono (distinct : kept.Nodup) (more : ∀ y ∈ kept, newer x y = true → y ∈ kept') :
    (kept.filter (newer x)).length ≤ (kept'.filter (newer x)).length := by
  apply List.Subperm.length_le
  apply (distinct.filter _).subperm
  intro y member
  obtain ⟨inside,later⟩ := List.mem_filter.mp member
  exact List.mem_filter.mpr ⟨more y inside later,later⟩

theorem Covered.mono (covered : Covered newer retain kept x) (distinct : kept.Nodup) (more : ∀ y ∈ kept, y ∈ kept') :
    Covered newer retain kept' x := by
  rcases covered with inside | many
  · exact .inl (more x inside)
  · exact .inr (Nat.le_trans many (length_filter_mono distinct fun y member _ => more y member))

/-- Elements may be taken out as long as each of them leaves enough newer ones behind. -/
theorem Covered.shrink (covered : Covered newer retain kept x) (distinct : kept.Nodup)
    (trans : ∀ y z, newer x y = true → newer y z = true → newer x z = true)
    (gone : ∀ y ∈ kept, y ∉ kept' → retain ≤ (kept'.filter (newer y)).length) : Covered newer retain kept' x := by
  rcases covered with inside | many
  · by_cases still : x ∈ kept'
    · exact .inl still
    · exact .inr (gone x inside still)
  · by_cases lost : ∃ y ∈ kept, newer x y = true ∧ y ∉ kept'
    · obtain ⟨y,inside,later,out⟩ := lost
      right
      calc retain ≤ (kept'.filter (newer y)).length := gone y inside out
        _ ≤ (kept'.filter (newer x)).length :=
          (List.monotone_filter_right kept' fun z latest => trans y z later latest).length_le
    · push Not at lost
      exact .inr (Nat.le_trans many (length_filter_mono distinct lost))

end Retention
