import Mathlib.Data.List.Basic
import Mathlib.Data.List.TakeWhile

/-! Occurrences of a pattern in a text, found from left to right and without overlap. A pattern
tells what occurs where: what stands before it, the piece it takes, what follows, and the item
that it is. -/
namespace Occurrences

variable {α β γ : Type}

abbrev Pattern (α β : Type) := Option α → List α → List α → β → Prop

inductive Scan (P : Pattern α β) : Option α → List α → List β → Prop where
  | done : Scan P before [] []
  | skip (none_ : ∀ piece rest item, text = piece ++ rest → ¬ P before (x :: piece) rest item)
      (later : Scan P (some x) text found) : Scan P before (x :: text) found
  | hit (cut : text = piece ++ rest) (here : P before (x :: piece) rest item)
      (later : Scan P (x :: piece).getLast? rest found) : Scan P before (x :: text) (item :: found)

/-- The scan, by a function that finds what starts at a place, with the number of elements of the
piece after its first one. Inside a piece `inside` are still to come. -/
def scan (find : Option α → List α → Option (β × Nat)) : Option α → Nat → List α → List β
  | _, _, [] => []
  | _, inside + 1, x :: text => scan find (some x) inside text
  | before, 0, x :: text =>
    match find before (x :: text) with
    | none => scan find (some x) 0 text
    | some (item,more) => item :: scan find (some x) more text

/-- The function finds what the pattern says. -/
def Finds (find : Option α → List α → Option (β × Nat)) (P : Pattern α β) : Prop :=
  ∀ before x text item more, find before (x :: text) = some (item,more) ↔
    ∃ piece rest, text = piece ++ rest ∧ piece.length = more ∧ P before (x :: piece) rest item

variable {P Q : Pattern α β} {find : Option α → List α → Option (β × Nat)}

theorem scan_inside (find : Option α → List α → Option (β × Nat)) (x : α) (piece rest : List α) :
    scan find (some x) piece.length (piece ++ rest) = scan find (x :: piece).getLast? 0 rest := by
  induction piece generalizing x with
  | nil => rfl
  | cons y piece ih =>
    rw [List.length_cons,List.cons_append,scan,ih,List.getLast?_cons_cons]

theorem scan_scans (finds : Finds find P) (before : Option α) (text : List α) :
    Scan P before text (scan find before 0 text) := by
  generalize length : text.length = n
  induction n using Nat.strongRecOn generalizing before text with
  | ind n ih =>
    cases text with
    | nil => exact .done
    | cons x text =>
      rw [List.length_cons] at length
      rw [scan]
      cases found : find before (x :: text) with
      | none =>
        refine .skip (fun piece rest item cut here => ?_) (ih _ (by omega) (some x) text rfl)
        have hit := (finds before x text item piece.length).mpr ⟨piece,rest,cut,rfl,here⟩
        simp [found] at hit
      | some hit =>
        obtain ⟨item,more⟩ := hit
        obtain ⟨piece,rest,cut,rfl,here⟩ := (finds before x text item more).mp found
        subst cut
        rw [List.length_append] at length
        refine .hit rfl here ?_
        rw [scan_inside]
        exact ih _ (by omega) _ rest rfl

/-- At a place at most one item occurs, and in one way. -/
def Single (P : Pattern α β) : Prop :=
  ∀ before x piece piece' rest rest' item item', P before (x :: piece) rest item → P before (x :: piece') rest' item' →
    piece ++ rest = piece' ++ rest' → piece = piece' ∧ item = item'

theorem Finds.single (finds : Finds find P) : Single P := by
  intro before x piece piece' rest rest' item item' here here' cut
  have first := (finds before x (piece ++ rest) item piece.length).mpr ⟨piece,rest,rfl,rfl,here⟩
  have second := (finds before x (piece ++ rest) item' piece'.length).mpr ⟨piece',rest',cut,rfl,here'⟩
  obtain ⟨rfl,length⟩ := Prod.mk.inj (Option.some.inj (first.symm.trans second))
  exact ⟨(List.append_inj cut length).1,rfl⟩

theorem Single.mono (single : Single Q)
    (wider : ∀ before piece rest item, P before piece rest item → Q before piece rest item) : Single P :=
  fun before x piece piece' rest rest' item item' here here' =>
    single before x piece piece' rest rest' item item' (wider _ _ _ _ here) (wider _ _ _ _ here')

theorem Scan.unique (single : Single P) (first : Scan P before text found) (second : Scan P before text found') :
    found = found' := by
  induction first generalizing found' with
  | done =>
    cases second
    rfl
  | skip none_ _ ih =>
    cases second with
    | skip _ later => exact ih later
    | hit cut here _ => exact absurd here (none_ _ _ _ cut)
  | hit cut here _ ih =>
    cases second with
    | skip none_ _ => exact absurd here (none_ _ _ _ cut)
    | hit cut' here' later =>
      obtain ⟨rfl,rfl⟩ := single _ _ _ _ _ _ _ _ here here' (cut.symm.trans cut')
      obtain rfl := List.append_cancel_left (cut.symm.trans cut')
      rw [ih later]

/-- What is found occurs somewhere. -/
theorem Scan.mem (scan_ : Scan P before text found) (member : item ∈ found) :
    ∃ before piece rest, P before piece rest item := by
  induction scan_ with
  | done => simp at member
  | skip _ _ ih => exact ih member
  | hit _ here _ ih =>
    rcases List.mem_cons.mp member with rfl | later
    · exact ⟨_,_,_,here⟩
    · exact ih later

theorem exists_scan (P : Pattern α β) (before : Option α) (text : List α) : ∃ found, Scan P before text found := by
  generalize length : text.length = n
  induction n using Nat.strongRecOn generalizing before text with
  | ind n ih =>
    cases text with
    | nil => exact ⟨[],.done⟩
    | cons x text =>
      rw [List.length_cons] at length
      by_cases here : ∃ piece rest item, text = piece ++ rest ∧ P before (x :: piece) rest item
      · obtain ⟨piece,rest,item,rfl,here⟩ := here
        rw [List.length_append] at length
        obtain ⟨found,later⟩ := ih rest.length (by omega) (x :: piece).getLast? rest rfl
        exact ⟨item :: found,.hit rfl here later⟩
      · obtain ⟨found,later⟩ := ih text.length (by omega) (some x) text rfl
        exact ⟨found,.skip (fun piece rest item cut hit => here ⟨piece,rest,item,cut,hit⟩) later⟩

def Pattern.image (P : Pattern α β) (f : β → γ) : Pattern α γ := fun before piece rest told =>
  ∃ item, P before piece rest item ∧ told = f item

theorem Scan.image (scan_ : Scan P before text found) (f : β → γ) : Scan (P.image f) before text (found.map f) := by
  induction scan_ with
  | done => exact .done
  | skip none_ _ ih =>
    refine .skip ?_ ih
    rintro piece rest told cut ⟨item,here,_⟩
    exact none_ piece rest item cut here
  | hit cut here _ ih => exact .hit cut ⟨_,here,rfl⟩ ih

/-- A scan whose items all are of a narrower pattern is a scan for that one. -/
theorem Scan.narrow (scan_ : Scan Q before text found)
    (wider : ∀ before piece rest item, P before piece rest item → Q before piece rest item)
    (good : ∀ before piece rest, ∀ item ∈ found, Q before piece rest item → P before piece rest item) :
    Scan P before text found := by
  induction scan_ with
  | done => exact .done
  | skip none_ _ ih =>
    refine .skip (fun piece rest item cut here => ?_) (ih good)
    exact none_ piece rest item cut (wider _ _ _ _ here)
  | hit cut here _ ih =>
    refine .hit cut (good _ _ _ _ (List.mem_cons_self ..) here) (ih ?_)
    exact fun before piece rest item member => good before piece rest item (List.mem_cons_of_mem _ member)

inductive Scans (P : Pattern α β) : List (List α) → List β → Prop where
  | nil : Scans P [] []
  | cons (here : Scan P none text found) (later : Scans P texts more) : Scans P (text :: texts) (found ++ more)

theorem scans_flatMap (finds : Finds find P) (texts : List (List α)) : Scans P texts (texts.flatMap (scan find none 0)) := by
  induction texts with
  | nil => exact .nil
  | cons text texts ih => exact .cons (scan_scans finds none text) ih

theorem exists_scans (P : Pattern α β) (texts : List (List α)) : ∃ found, Scans P texts found := by
  induction texts with
  | nil => exact ⟨[],.nil⟩
  | cons text texts ih =>
    obtain ⟨found,here⟩ := exists_scan P none text
    obtain ⟨more,later⟩ := ih
    exact ⟨found ++ more,.cons here later⟩

theorem Scans.unique (single : Single P) (first : Scans P texts found) (second : Scans P texts found') :
    found = found' := by
  induction first generalizing found' with
  | nil =>
    cases second
    rfl
  | cons here _ ih =>
    cases second with
    | cons here' later => rw [here.unique single here',ih later]

theorem Scans.image (scans : Scans P texts found) (f : β → γ) : Scans (P.image f) texts (found.map f) := by
  induction scans with
  | nil => exact .nil
  | cons here _ ih =>
    rw [List.map_append]
    exact .cons (here.image f) ih

theorem Scans.mem (scans : Scans P texts found) (member : item ∈ found) : ∃ before piece rest, P before piece rest item := by
  induction scans with
  | nil => simp at member
  | cons here _ ih =>
    rcases List.mem_append.mp member with first | later
    · exact here.mem first
    · exact ih later

theorem Scans.narrow (scans : Scans Q texts found)
    (wider : ∀ before piece rest item, P before piece rest item → Q before piece rest item)
    (good : ∀ before piece rest, ∀ item ∈ found, Q before piece rest item → P before piece rest item) :
    Scans P texts found := by
  induction scans with
  | nil => exact .nil
  | cons here _ ih =>
    refine .cons (here.narrow wider ?_) (ih ?_)
    · exact fun before piece rest item member => good before piece rest item (List.mem_append_left _ member)
    · exact fun before piece rest item member => good before piece rest item (List.mem_append_right _ member)

/-- Where a run of elements ends. -/
theorem span_append (p : α → Bool) (run rest : List α) (all : ∀ x ∈ run, p x = true)
    (ends : ∀ x ∈ rest.head?, p x = false) : (run ++ rest).takeWhile p = run ∧ (run ++ rest).dropWhile p = rest := by
  rw [List.takeWhile_append_of_pos all,List.dropWhile_append_of_pos all]
  cases rest with
  | nil => simp
  | cons x rest => simp [ends x rfl]

theorem dropWhile_ends (p : α → Bool) (text : List α) : ∀ x ∈ (text.dropWhile p).head?, p x = false := by
  intro x first
  have stop := List.head?_dropWhile_not p text
  rwa [Option.mem_def.mp first] at stop

end Occurrences
