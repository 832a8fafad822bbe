import Mathlib.Data.List.Basic

/-! A notification cell that stores at most one permit, after the documented
behaviour of tokio's `Notify`: `notify_one` hands its permit to the longest waiting
future or stores it, and a future dropped after it was signalled passes it on. -/

structure Notify (ι : Type) where
  permit : Bool
  waiting : List ι
  signalled : List ι
  deriving DecidableEq, Repr

namespace Notify

variable {ι : Type}

def new : Notify ι := ⟨false,[],[]⟩

def notifyOne (n : Notify ι) : Notify ι :=
  match n.waiting with
  | [] => { n with permit := true }
  | i :: rest => ⟨n.permit,rest,n.signalled ++ [i]⟩

/-- Permits that were issued and not yet received, wherever they are kept. -/
def tokens (n : Notify ι) : Nat := n.permit.toNat + n.signalled.length

/-- A permit is stored, in the cell or with a future it was handed to. -/
def Stored (n : Notify ι) : Prop := 0 < n.tokens

instance (n : Notify ι) : Decidable n.Stored := inferInstanceAs (Decidable (0 < n.tokens))

@[simp] theorem tokens_new : (new : Notify ι).tokens = 0 := rfl

theorem tokens_notifyOne (n : Notify ι) : n.notifyOne.tokens ≤ n.tokens + 1 := by
  cases waiting : n.waiting with
  | nil => cases n.permit <;> simp [notifyOne,waiting,tokens] <;> omega
  | cons i rest => simp [notifyOne,waiting,tokens]; omega

theorem stored_notifyOne (n : Notify ι) : n.notifyOne.Stored := by
  cases waiting : n.waiting with
  | nil =>
    have kept : n.notifyOne.tokens = 1 + n.signalled.length := by simp [notifyOne,waiting,tokens]
    simp only [Stored,kept]
    omega
  | cons i rest =>
    have handed : n.notifyOne.signalled = n.signalled ++ [i] := by simp [notifyOne,waiting]
    simp only [Stored,tokens,handed,List.length_append,List.length_singleton]
    omega

section Waiters

variable [DecidableEq ι]

def receive (i : ι) (n : Notify ι) : Option (Notify ι) :=
  if i ∈ n.signalled then some { n with signalled := n.signalled.erase i }
  else if n.permit then some { n with permit := false, waiting := n.waiting.erase i }
  else none

def park (i : ι) (n : Notify ι) : Notify ι :=
  if n.permit ∨ i ∈ n.waiting ∨ i ∈ n.signalled then n else { n with waiting := n.waiting ++ [i] }

def drop (i : ι) (n : Notify ι) : Notify ι :=
  if i ∈ n.signalled then ({ n with signalled := n.signalled.erase i } : Notify ι).notifyOne
  else { n with waiting := n.waiting.erase i }

theorem tokens_receive (i : ι) (n n' : Notify ι) (received : n.receive i = some n') :
    n.tokens = n'.tokens + 1 := by
  unfold receive at received
  split at received
  next member =>
    obtain rfl := Option.some.inj received
    have positive := List.length_pos_of_mem member
    simp only [tokens,List.length_erase_of_mem member]
    omega
  next =>
    split at received
    next permit =>
      obtain rfl := Option.some.inj received
      simp [tokens,permit]
      omega
    next => contradiction

@[simp] theorem tokens_park (i : ι) (n : Notify ι) : (n.park i).tokens = n.tokens := by
  unfold park
  split <;> rfl

/-- Dropping a signalled future returns its permit; at most one can be stored. -/
theorem tokens_drop (i : ι) (n : Notify ι) : (n.drop i).tokens ≤ n.tokens := by
  unfold drop
  split
  next member =>
    have returned := tokens_notifyOne { n with signalled := n.signalled.erase i }
    have positive := List.length_pos_of_mem member
    simp only [tokens,List.length_erase_of_mem member] at returned ⊢
    omega
  next => simp [tokens]

theorem stored_drop (i : ι) (n : Notify ι) (stored : n.Stored) : (n.drop i).Stored := by
  unfold drop
  split
  · exact stored_notifyOne _
  · exact stored

/-- How often a future stands in the cell, waiting or signalled. -/
def held (i : ι) (n : Notify ι) : Nat := n.waiting.count i + n.signalled.count i

@[simp] theorem held_new (i : ι) : (new : Notify ι).held i = 0 := rfl

@[simp] theorem held_notifyOne (i : ι) (n : Notify ι) : n.notifyOne.held i = n.held i := by
  unfold notifyOne held
  cases n.waiting with
  | nil => rfl
  | cons j rest =>
    simp only [List.count_append,List.count_cons,List.count_nil]
    omega

theorem held_park (i : ι) (n : Notify ι) (once : n.held i ≤ 1) : (n.park i).held i ≤ 1 := by
  unfold park
  split
  · exact once
  next absent =>
    simp only [not_or] at absent
    simp [held,List.count_eq_zero_of_not_mem absent.2.1,List.count_eq_zero_of_not_mem absent.2.2]

theorem held_receive (i : ι) (n n' : Notify ι) (received : n.receive i = some n') :
    n'.held i = n.held i - 1 := by
  unfold receive at received
  split at received
  next member =>
    obtain rfl := Option.some.inj received
    have positive := List.count_pos_iff.mpr member
    simp only [held,List.count_erase_self]
    omega
  next absent =>
    split at received
    · obtain rfl := Option.some.inj received
      simp [held,List.count_eq_zero_of_not_mem absent]
    · contradiction

theorem held_drop (i : ι) (n : Notify ι) : (n.drop i).held i = n.held i - 1 := by
  unfold drop
  split
  next member =>
    have positive := List.count_pos_iff.mpr member
    rw [held_notifyOne]
    simp only [held,List.count_erase_self]
    omega
  next absent => simp [held,List.count_eq_zero_of_not_mem absent]

theorem held_park_other (n : Notify ι) (different : j ≠ i) : (n.park i).held j = n.held j := by
  unfold park
  split
  · rfl
  · simp [held,List.count_cons,beq_eq_false_iff_ne.mpr different.symm]

theorem held_receive_other (n n' : Notify ι) (different : j ≠ i) (received : n.receive i = some n') :
    n'.held j = n.held j := by
  unfold receive at received
  split at received
  · obtain rfl := Option.some.inj received
    simp [held,List.count_erase_of_ne different]
  · split at received
    · obtain rfl := Option.some.inj received
      simp [held,List.count_erase_of_ne different]
    · contradiction

theorem held_drop_other (n : Notify ι) (different : j ≠ i) : (n.drop i).held j = n.held j := by
  unfold drop
  split
  · rw [held_notifyOne]
    simp [held,List.count_erase_of_ne different]
  · simp [held,List.count_erase_of_ne different]

end Waiters

end Notify
