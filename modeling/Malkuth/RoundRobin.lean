import Mathlib.Data.Int.CardIntervalMod

/-! Turns given out by a counter that wraps around at `w`, reduced modulo `n`. A counter
that wraps between two rounds starts the next round too early. -/
namespace RoundRobin

def turns (w n r : Nat) : List Nat := (List.range r).map fun i => i % w % n

theorem turns_succ (w n r : Nat) : turns w n (r + 1) = turns w n r ++ [r % w % n] := by
  simp [turns,List.range_succ]

theorem turns_take (w n r m : Nat) : (turns w n r).take m = turns w n (min m r) := by
  simp [turns,← List.map_take,List.take_range]

theorem mem_turns : i ∈ turns w n r ↔ ∃ x < r, x % w % n = i := by simp [turns]

/-- As many turns for everyone, or one more for those before the next in turn. -/
theorem count_turns (w n r i : Nat) (small : i < n) (even : n ∣ w ∨ r ≤ w) :
    (turns w n r).count i = r / n + if i < r % n then 1 else 0 := by
  have counted := Nat.count_modEq_card r (Nat.zero_lt_of_lt small) i
  rw [Nat.mod_eq_of_lt small] at counted
  rw [← counted,turns,List.count_eq_countP,List.countP_map,Nat.count]
  refine List.countP_congr fun x below => ?_
  have turn : x % w % n = x % n := by
    rcases even with divides | short
    · exact Nat.mod_mod_of_dvd x divides
    · rw [Nat.mod_eq_of_lt (Nat.lt_of_lt_of_le (List.mem_range.mp below) short)]
  simp [Nat.ModEq,Nat.mod_eq_of_lt small,turn]

/-- Everyone below `k` has had as many turns as everyone else, up to one. -/
def EvenlyServed (k : Nat) (turns : List Nat) : Prop := ∀ i < k, ∀ j < k, turns.count i ≤ turns.count j + 1

theorem evenlyServed_turns (w n r k : Nat) (few : k ≤ n) (even : n ∣ w ∨ r ≤ w) : EvenlyServed k (turns w n r) := by
  intro i inside j inside'
  rw [count_turns w n r i (Nat.lt_of_lt_of_le inside few) even,
    count_turns w n r j (Nat.lt_of_lt_of_le inside' few) even]
  split <;> split <;> omega

/-- The first turn after the wrap goes to 0, which is ahead already. -/
theorem wrapped_uneven (w n : Nat) (positive : 0 < n) (uneven : ¬ n ∣ w) :
    ¬ EvenlyServed n (turns w n (w + 1)) := by
  intro balanced
  have rest : 0 < w % n := Nat.pos_of_ne_zero fun zero => uneven (Nat.dvd_of_mod_eq_zero zero)
  have behind := Nat.mod_lt w positive
  have both := balanced 0 positive (w % n) behind
  rw [turns_succ,List.count_append,List.count_append,count_turns w n w 0 positive (.inr (Nat.le_refl _)),
    count_turns w n w (w % n) behind (.inr (Nat.le_refl _))] at both
  simp [rest,Nat.ne_of_lt rest] at both

/-- All turns go to someone below `k`, and those are served evenly after every turn, if and
only if no turn of a round is for someone else and no round is cut short by a wrap. -/
theorem fair_iff (w n k r : Nat) (positive : 0 < n) (few : k ≤ n) (wide : n ≤ w) :
    ((∀ i ∈ turns w n r, i < k) ∧ ∀ m, EvenlyServed k ((turns w n r).take m)) ↔
    (n ≤ k ∨ r ≤ k) ∧ (n ∣ w ∨ r ≤ w) := by
  constructor
  · rintro ⟨hit,balanced⟩
    have served : n ≤ k ∨ r ≤ k := by
      by_contra short
      have ⟨lacking,long⟩ : k < n ∧ k < r := by omega
      have turn : k % w % n = k := by
        rw [Nat.mod_eq_of_lt (show k < w by omega),Nat.mod_eq_of_lt lacking]
      exact absurd (hit k (mem_turns.mpr ⟨k,long,turn⟩)) (Nat.lt_irrefl k)
    refine ⟨served,?_⟩
    by_contra wraps
    have ⟨uneven,long⟩ : ¬ n ∣ w ∧ w < r := by simpa using wraps
    obtain rfl : k = n := by omega
    refine wrapped_uneven w k positive uneven ?_
    have first := balanced (w + 1)
    rwa [turns_take,Nat.min_eq_left long] at first
  · rintro ⟨served,even⟩
    constructor
    · intro i turn
      obtain ⟨x,below,rfl⟩ := mem_turns.mp turn
      rcases served with all | short
      · exact Nat.lt_of_lt_of_le (Nat.mod_lt _ positive) all
      · calc x % w % n ≤ x % w := Nat.mod_le ..
          _ ≤ x := Nat.mod_le ..
          _ < k := by omega
    · intro m
      rw [turns_take]
      exact evenlyServed_turns w n _ k few (even.imp_right fun short => (Nat.min_le_right ..).trans short)

end RoundRobin
