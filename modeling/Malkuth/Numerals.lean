import Mathlib.Algebra.GroupWithZero.Nat
import Mathlib.Data.List.Basic

/-! Decimal numerals of a fixed width, padded with zeros: as texts they are in the order of their
numbers. -/
namespace Numerals

def pad : Nat → Nat → List Char
  | 0, _ => []
  | width + 1, n => pad width (n / 10) ++ [Nat.digitChar (n % 10)]

@[simp] theorem length_pad (width n : Nat) : (pad width n).length = width := by
  induction width generalizing n with
  | zero => rfl
  | succ width ih => rw [pad,List.length_append,ih,List.length_singleton]

theorem isDigit_digitChar : ∀ d < 10, (Nat.digitChar d).isDigit = true := by decide

theorem isDigit_of_mem_pad (member : c ∈ pad width n) : c.isDigit = true := by
  induction width generalizing n with
  | zero => simp [pad] at member
  | succ width ih =>
    rw [pad,List.mem_append,List.mem_singleton] at member
    rcases member with early | rfl
    · exact ih early
    · exact isDigit_digitChar _ (Nat.mod_lt _ (by decide))

/-- Two numerals in a row are the numeral of one number. -/
theorem pad_append (a b : Nat) (small : b < 10 ^ w) : pad v a ++ pad w b = pad (v + w) (a * 10 ^ w + b) := by
  induction w generalizing b with
  | zero =>
    obtain rfl : b = 0 := by omega
    simp [pad]
  | succ w ih =>
    have power : a * 10 ^ (w + 1) = 10 * (a * 10 ^ w) := by
      rw [Nat.pow_succ,← Nat.mul_assoc,Nat.mul_comm]
    have tens : (a * 10 ^ (w + 1) + b) / 10 = a * 10 ^ w + b / 10 := by omega
    have ones : (a * 10 ^ (w + 1) + b) % 10 = b % 10 := by omega
    have less : b / 10 < 10 ^ w := by
      rw [Nat.pow_succ] at small
      omega
    rw [← Nat.add_assoc,pad,pad,tens,ones,← ih _ less,List.append_assoc]

theorem pad_two (a b : Nat) (small : b < 100) : pad v a ++ pad 2 b = pad (v + 2) (a * 100 + b) :=
  pad_append a b small

/-- Texts of one length compare before what follows them. -/
theorem append_lt_append {xs ys s t : List Char} (length : xs.length = ys.length) (less : xs < ys) :
    xs ++ s < ys ++ t := by
  induction xs generalizing ys with
  | nil =>
    obtain rfl := List.length_eq_zero_iff.mp length.symm
    exact absurd less (List.not_lt_nil _)
  | cons x xs ih =>
    cases ys with
    | nil => exact absurd less (List.not_lt_nil _)
    | cons y ys =>
      rw [List.cons_append,List.cons_append]
      rcases List.cons_lt_cons_iff.mp less with first | ⟨rfl,rest⟩
      · exact List.cons_lt_cons_iff.mpr (.inl first)
      · exact List.cons_lt_cons_iff.mpr (.inr ⟨rfl,ih (Nat.succ.inj length) rest⟩)

theorem digitChar_lt : ∀ e < 10, ∀ d < e, Nat.digitChar d < Nat.digitChar e := by decide

theorem pad_lt (less : a < b) (small : b < 10 ^ w) : pad w a < pad w b := by
  induction w generalizing a b with
  | zero => omega
  | succ w ih =>
    rw [pad,pad]
    rcases Nat.lt_or_eq_of_le (Nat.div_le_div_right (c := 10) (Nat.le_of_lt less)) with tens | tens
    · have smaller : b / 10 < 10 ^ w := by
        rw [Nat.pow_succ] at small
        omega
      exact append_lt_append (by simp) (ih tens smaller)
    · rw [tens]
      apply List.append_left_lt
      exact List.cons_lt_cons_iff.mpr (.inl (digitChar_lt _ (Nat.mod_lt _ (by decide)) _ (by omega)))

end Numerals
