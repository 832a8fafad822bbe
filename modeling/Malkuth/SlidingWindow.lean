import Mathlib.Data.List.Basic

/-! Counting events in a sliding window with a pruned list of time stamps. The list
forgets, so it is compared with the full list of the events: pruned at any later
time the two agree, and a bounded pruned list spaces the events out. -/
namespace SlidingWindow

/-- The stamps less than `window` old at `now`; a stamp of the future counts as new. -/
def prune (window now : Nat) (stamps : List Nat) : List Nat :=
  stamps.filter fun t => decide (now - t < window)

def push (window now : Nat) (stamps : List Nat) : List Nat := prune window now stamps ++ [now]

def Tracks (window now : Nat) (stamps events : List Nat) : Prop :=
  ∀ later, now ≤ later → prune window later stamps = prune window later events

/-- Any `count + 1` consecutive events stretch over at least `window`. -/
def Spaced (window count : Nat) (events : List Nat) : Prop :=
  ∀ i a b, events[i]? = some a → events[i + count]? = some b → a + window ≤ b

theorem prune_prune (window now later : Nat) (stamps : List Nat) (order : now ≤ later) :
    prune window later (prune window now stamps) = prune window later stamps := by
  simp only [prune,List.filter_filter]
  apply List.filter_congr
  intro t _
  have nested : later - t < window → now - t < window := by omega
  by_cases recent : later - t < window <;> simp [recent,nested]

theorem Tracks.push (tracks : Tracks window now stamps events) (order : now ≤ at_) :
    Tracks window at_ (push window at_ stamps) (events ++ [at_]) := by
  intro later after
  have inner := prune_prune window at_ later stamps after
  have outer := tracks later (by omega)
  simp only [prune,SlidingWindow.push,List.filter_append] at inner outer ⊢
  rw [inner,outer]

theorem Tracks.mono (tracks : Tracks window now stamps events) (order : now ≤ later) :
    Tracks window later stamps events :=
  fun at_ after => tracks at_ (Nat.le_trans order after)

/-- In a sorted list everything from a recent event on is recent. -/
theorem length_le_prune (window now : Nat) (events : List Nat) (i : Nat)
    (sorted : events.Pairwise (· ≤ ·)) (bound : i < events.length) (recent : now - events[i] < window) :
    events.length - i ≤ (prune window now events).length := by
  have kept : prune window now (events.drop i) = events.drop i := by
    apply List.filter_eq_self.mpr
    intro t member
    obtain ⟨j,inside,rfl⟩ := List.mem_iff_getElem.mp member
    have inRange : i + j < events.length := by simp at inside; omega
    have order : events[i] ≤ events[i + j] := by
      rcases Nat.eq_zero_or_pos j with rfl | positive
      · simp
      · exact List.pairwise_iff_getElem.mp sorted i (i + j) bound _ (by omega)
    simp only [List.getElem_drop,decide_eq_true_eq]
    omega
  have cut : prune window now events =
      prune window now (events.take i) ++ prune window now (events.drop i) := by
    simp only [prune,← List.filter_append,List.take_append_drop]
  rw [cut,kept,List.length_append,List.length_drop]
  omega

/-- An event admitted while fewer than `count` events are in its window keeps the
spacing: the event `count` before it has left the window. -/
theorem Spaced.snoc (spaced : Spaced window count events) (sorted : events.Pairwise (· ≤ ·))
    (latest : ∀ t ∈ events, t ≤ now) (room : (prune window now events).length < count) :
    Spaced window count (events ++ [now]) := by
  intro i a b first last
  by_cases inside : i + count < events.length
  · rw [List.getElem?_append_left (by omega)] at first
    rw [List.getElem?_append_left inside] at last
    exact spaced i a b first last
  · obtain ⟨bound,valueB⟩ := List.getElem?_eq_some_iff.mp last
    have atEnd : i + count = events.length := by simp at bound; omega
    have before : i < events.length := by omega
    have valueNow : b = now := by
      rw [← valueB]
      simp [atEnd]
    have valueA : events[i] = a := by
      rw [List.getElem?_append_left before] at first
      exact (List.getElem?_eq_some_iff.mp first).2
    rw [valueNow,← valueA]
    have past := latest _ (List.getElem_mem before)
    by_contra close
    have most := length_le_prune window now events i sorted before (by omega)
    omega

/-- No half-open interval as long as the window holds more than `count` events. -/
def Limited (window count : Nat) (events : List Nat) : Prop :=
  ∀ start, (events.filter fun t => decide (start ≤ t ∧ t < start + window)).length ≤ count

theorem Limited.snoc (limited : Limited window count events) (room : (prune window now events).length < count) :
    Limited window count (events ++ [now]) := by
  intro start
  rw [List.filter_append,List.length_append]
  by_cases inside : start ≤ now ∧ now < start + window
  · -- whatever shares an interval with `now` is in the window that ends at `now`
    have recent : (events.filter fun t => decide (start ≤ t ∧ t < start + window)).length ≤
        (prune window now events).length := by
      rw [prune,← List.countP_eq_length_filter,← List.countP_eq_length_filter]
      refine List.countP_mono_left ?_
      intro t _ shared
      simp only [decide_eq_true_eq] at shared ⊢
      omega
    have one : ([now].filter fun t => decide (start ≤ t ∧ t < start + window)).length = 1 := by simp [inside]
    omega
  · simpa [List.filter_singleton,inside] using limited start

/-! A list with some elements left out, all of them of one kind. -/
section Thins

inductive Thins {α : Type} (gone : α → Prop) : List α → List α → Prop where
  | nil : Thins gone [] []
  | keep (x : α) : Thins gone xs ys → Thins gone (x :: xs) (x :: ys)
  | skip : gone y → Thins gone xs ys → Thins gone xs (y :: ys)

variable {α : Type} {gone more : α → Prop} {xs ys zs : List α}

theorem Thins.refl (xs : List α) : Thins gone xs xs := by
  induction xs with
  | nil => exact .nil
  | cons x xs ih => exact .keep x ih

theorem Thins.mono (thins : Thins gone xs ys) (weaker : ∀ y, gone y → more y) : Thins more xs ys := by
  induction thins with
  | nil => exact .nil
  | keep x _ ih => exact .keep x ih
  | skip out _ ih => exact .skip (weaker _ out) ih

theorem Thins.trans (first : Thins gone xs ys) (second : Thins gone ys zs) : Thins gone xs zs := by
  induction second generalizing xs with
  | nil => exact first
  | keep y _ ih =>
    cases first with
    | keep _ first => exact .keep y (ih first)
    | skip out first => exact .skip out (ih first)
  | skip out _ ih => exact .skip out (ih first)

theorem Thins.append (front : Thins gone xs ys) (back : Thins gone xs' ys') :
    Thins gone (xs ++ xs') (ys ++ ys') := by
  induction front with
  | nil => exact back
  | keep x _ ih => exact .keep x ih
  | skip out _ ih => exact .skip out ih

theorem Thins.filter (thins : Thins gone xs ys) (p : α → Bool) : Thins gone (xs.filter p) (ys.filter p) := by
  induction thins with
  | nil => exact .nil
  | keep x _ ih =>
    rw [List.filter_cons,List.filter_cons]
    split
    · exact .keep x ih
    · exact ih
  | skip out _ ih =>
    rw [List.filter_cons]
    split
    · exact .skip out ih
    · exact ih

/-- A test that all of them fail does not see what was left out. -/
theorem Thins.filter_eq (thins : Thins gone xs ys) (p : α → Bool) (unseen : ∀ y, gone y → p y = false) :
    xs.filter p = ys.filter p := by
  induction thins with
  | nil => rfl
  | keep x _ ih => rw [List.filter_cons,List.filter_cons,ih]
  | skip out _ ih => rw [List.filter_cons,unseen _ out,ih]; rfl

theorem thins_filter (xs : List α) (p : α → Bool) (out : ∀ x ∈ xs, p x = false → gone x) :
    Thins gone (xs.filter p) xs := by
  induction xs with
  | nil => exact .nil
  | cons x xs ih =>
    have rest := ih fun y member => out y (List.mem_cons_of_mem _ member)
    rw [List.filter_cons]
    split
    · exact .keep x rest
    next fails => exact .skip (out x List.mem_cons_self (by simpa using fails)) rest

theorem Thins.map (thins : Thins gone xs ys) (f : α → β) (same : ∀ y, gone y → out (f y)) :
    Thins out (xs.map f) (ys.map f) := by
  induction thins with
  | nil => exact .nil
  | keep x _ ih => exact .keep (f x) ih
  | skip gone _ ih => exact .skip (same _ gone) ih

theorem Thins.sublist (thins : Thins gone xs ys) : xs.Sublist ys := by
  induction thins with
  | nil => exact .slnil
  | keep x _ ih => exact ih.cons_cons x
  | skip _ _ ih => exact ih.cons _

end Thins

end SlidingWindow
